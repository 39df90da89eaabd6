import CodeOutline.Text.Slice

/-!
Matching of brackets. Each kind is counted by itself: what closes an opening bracket is the first
place where as many closers as openers of its kind have been met.
-/

namespace CodeOutline

/-- Why an offset has no closing bracket. -/
inductive BlockError where
  | notADelimiter (offset : Nat)
  | unterminated (offset : Nat)
  deriving DecidableEq, Repr

def BlockError.message : BlockError → String
  | .notADelimiter offset => s!"offset {offset} is not an opening delimiter"
  | .unterminated offset => s!"delimiter opened at offset {offset} is never closed"

namespace Delimiter

def closerOf (byte : UInt8) : Option UInt8 :=
  if byte = 0x7B then some 0x7D
  else if byte = 0x28 then some 0x29
  else if byte = 0x5B then some 0x5D
  else none

def isOpener (byte : UInt8) : Bool :=
  byte = 0x28 || byte = 0x5B || byte = 0x7B

def isCloser (byte : UInt8) : Bool :=
  byte = 0x29 || byte = 0x5D || byte = 0x7D

/-- Where the closer that is not matched by an opener stands, with `depth` openers pending. -/
def closeFrom (opener closer : UInt8) (depth position : Nat) : List Cell → Option Nat
  | [] => none
  | cell :: rest =>
    if cell.byte = opener then closeFrom opener closer (depth + 1) (position + 1) rest
    else if cell.byte = closer then
      match depth with
      | 0 => some position
      | pending + 1 => closeFrom opener closer pending (position + 1) rest
    else closeFrom opener closer depth (position + 1) rest

/-- The offset of the bracket that closes the one at `offset`. -/
def closing (text : List Cell) (offset : Nat) : Except BlockError Nat :=
  match text.drop offset with
  | [] => .error (.notADelimiter offset)
  | cell :: rest =>
    match closerOf cell.byte with
    | none => .error (.notADelimiter offset)
    | some closer =>
      match closeFrom cell.byte closer 0 (offset + 1) rest with
      | some close => .ok close
      | none => .error (.unterminated offset)

end Delimiter

namespace Slice

/-- The offset of the bracket that closes the one the slice begins with. -/
def close? (slice : Slice) : Option Nat :=
  match slice.cells with
  | [] => none
  | cell :: rest =>
    (Delimiter.closerOf cell.byte).bind fun closer =>
      Delimiter.closeFrom cell.byte closer 0 (slice.start + 1) rest

/-- What stands between the bracket the slice begins with and the one closing it, and what follows.
-/
def block? (slice : Slice) : Option (Slice × Slice) :=
  slice.close?.map fun close => ((slice.toOffset close).drop 1, slice.fromOffset (close + 1))

end Slice

end CodeOutline
