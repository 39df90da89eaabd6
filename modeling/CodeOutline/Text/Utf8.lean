import CodeOutline.Text.Scan

namespace CodeOutline.Text

abbrev Octets := List Char

/-- The bytes of a text in UTF-8. -/
def octets (text : String) : Octets :=
  text.toList.flatMap fun c =>
    (String.utf8EncodeChar c).map fun byte => Char.ofNat byte.toNat

/-- The bytes that may come second in the encoding of a character, given the first, and how many
follow in all. -/
def following (first : Nat) : Option (Nat × Nat × Nat) :=
  if 0xC2 ≤ first ∧ first ≤ 0xDF then some (0x80, 0xBF, 1)
  else if first = 0xE0 then some (0xA0, 0xBF, 2)
  else if first = 0xED then some (0x80, 0x9F, 2)
  else if 0xE1 ≤ first ∧ first ≤ 0xEF then some (0x80, 0xBF, 2)
  else if first = 0xF0 then some (0x90, 0xBF, 3)
  else if 0xF1 ≤ first ∧ first ≤ 0xF3 then some (0x80, 0xBF, 3)
  else if first = 0xF4 then some (0x80, 0x8F, 3)
  else none

def replacement : Char := '\ufffd'

/-- Reads the bytes that continue a character. Gives the character and how many were read; if they
are not as many as have to be, the character is a replacement. -/
def continued (value low high : Nat) : Nat → Octets → Char × Nat
  | 0, _ => (Char.ofNat value, 0)
  | _ + 1, [] => (replacement, 0)
  | count + 1, byte :: rest =>
    if low ≤ byte.toNat ∧ byte.toNat ≤ high then
      let (c, length) := continued (value * 64 + byte.toNat % 64) 0x80 0xBF count rest
      (c, length + 1)
    else (replacement, 0)

/-- The first character of a text of bytes and how many bytes after the first belong to it. -/
def firstChar (first : Char) (rest : Octets) : Char × Nat :=
  if first.toNat < 0x80 then (first, 0)
  else
    match following first.toNat with
    | none => (replacement, 0)
    | some (low, high, count) =>
      continued (first.toNat % (64 >>> count)) low high count rest

/-- Decodes UTF-8. Bytes that begin no character, and characters that are cut off, give a
replacement character each. -/
def decode (skipped : Nat) : Octets → List Char
  | [] => []
  | first :: rest =>
    match skipped with
    | skipped + 1 => decode skipped rest
    | 0 =>
      let (c, length) := firstChar first rest
      c :: decode length rest

def ofOctets (bytes : Octets) : String :=
  String.ofList (decode 0 bytes)

end CodeOutline.Text
