import CodeOutline.Text.CharTable

namespace CodeOutline

/-- Whether a code point lies in one of the given ranges. -/
def CharTable.covers (ranges : List (Nat × Nat)) (code : Nat) : Bool :=
  ranges.any fun range => range.1 ≤ code && code ≤ range.2

namespace CharClass

/-- An ASCII letter or an underscore, which may begin an identifier. -/
def isWordStart (c : Char) : Bool :=
  c.isAlpha || c = '_'

/-- A decimal digit of any script. -/
def isDecimal (c : Char) : Bool :=
  if c.toNat < 128 then c.isDigit else CharTable.covers CharTable.decimalDigit c.toNat

/-- A letter or a number of any script. -/
def isAlphanumeric (c : Char) : Bool :=
  if c.toNat < 128 then c.isAlphanum
  else
    CharTable.covers CharTable.alphabetic c.toNat ||
      CharTable.covers CharTable.decimalDigit c.toNat ||
      CharTable.covers CharTable.otherNumber c.toNat

/-- A character of a word: a letter, mark, decimal digit, connector or joiner. -/
def isWord (c : Char) : Bool :=
  if c.toNat < 128 then c.isAlphanum || c = '_'
  else
    CharTable.covers CharTable.alphabetic c.toNat ||
      CharTable.covers CharTable.mark c.toNat ||
      CharTable.covers CharTable.decimalDigit c.toNat ||
      CharTable.covers CharTable.connector c.toNat ||
      c = '\u200c' || c = '\u200d'

/-- White space in the sense of Unicode. -/
def isSpace (c : Char) : Bool :=
  let code := c.toNat
  (0x09 ≤ code && code ≤ 0x0D) || code = 0x20 || code = 0x85 || code = 0xA0 || code = 0x1680 ||
    (0x2000 ≤ code && code ≤ 0x200A) || code = 0x2028 || code = 0x2029 || code = 0x202F ||
    code = 0x205F || code = 0x3000

/-- ASCII white space: space, tab, line feed, form feed and carriage return. -/
def isBlank (byte : UInt8) : Bool :=
  byte = 0x20 || byte = 0x09 || byte = 0x0A || byte = 0x0C || byte = 0x0D

end CharClass

end CodeOutline
