import CodeOutline.Delimiter.Block

namespace CodeOutline

/-- Which statement starts are wanted. -/
inductive Boundaries where
  /-- Those outside all braces. -/
  | topLevel
  /-- Those at any depth of braces. -/
  | nested
  /-- Those outside all braces, where a line break ends a statement too. -/
  | topLevelLines
  deriving DecidableEq, Repr

namespace Delimiter

/-- Whether a byte ends a statement, given the open braces and the open parentheses and brackets
before it. -/
def endsStatement (boundaries : Boundaries) (braces parens : Nat) (byte : UInt8) : Bool :=
  let nested := boundaries = .nested
  parens = 0 &&
    ((byte = 0x7B && nested) ||
      (byte = 0x7D && (nested || braces ≤ 1)) ||
      (byte = 0x3B && (nested || braces = 0)) ||
      (byte = 0x0A && boundaries = .topLevelLines && braces = 0))

def bracesAfter (braces : Nat) (byte : UInt8) : Nat :=
  if byte = 0x7B then braces + 1 else if byte = 0x7D then braces - 1 else braces

/-- Parentheses and square brackets are counted together. -/
def parensAfter (parens : Nat) (byte : UInt8) : Nat :=
  if byte = 0x28 ∨ byte = 0x5B then parens + 1
  else if byte = 0x29 ∨ byte = 0x5D then parens - 1
  else parens

/-- The offsets behind the bytes that end a statement. -/
def endsFrom (boundaries : Boundaries) (braces parens position : Nat) : List Cell → List Nat
  | [] => []
  | cell :: rest =>
    let others := endsFrom boundaries (bracesAfter braces cell.byte) (parensAfter parens cell.byte)
      (position + 1) rest
    if endsStatement boundaries braces parens cell.byte then (position + 1) :: others else others

end Delimiter

namespace Slice

/-- The first offset, at the given one or after it, where no blank stands. -/
def nextSolid? (slice : Slice) (offset : Nat) : Option Nat :=
  let rest := (slice.fromOffset offset).skipBlank
  if rest.isEmpty then none else some rest.start

/-- The offsets in a slice where a statement may begin. Boundaries with nothing but blanks between
them give the same offset. -/
def statementStarts (boundaries : Boundaries) (slice : Slice) : List Nat :=
  let ends := slice.start :: Delimiter.endsFrom boundaries 0 0 slice.start slice.cells
  (ends.filterMap slice.nextSolid?).eraseReps

end Slice

end CodeOutline
