namespace CodeOutline.Text

def isHexDigit (c : Char) : Bool :=
  c.isDigit || ('a' ≤ c && c ≤ 'f') || ('A' ≤ c && c ≤ 'F')

def isOctalDigit (c : Char) : Bool :=
  '0' ≤ c && c ≤ '7'

def isBinaryDigit (c : Char) : Bool :=
  c = '0' || c = '1'

def digitValue (c : Char) : Nat :=
  if c.isDigit then c.toNat - 48 else c.toNat % 32 + 9

/-- The number that digits write in a base. -/
def natOfDigits (base : Nat) (digits : List Char) : Nat :=
  digits.foldl (fun value digit => base * value + digitValue digit) 0

/-- The least number that double precision rounds to infinity. -/
def doubleLimit : Nat := (1 <<< 54 - 1) <<< 970

/-- How many decimal digits the limit has. -/
def limitDigits : Nat := 309

/-- Whether digits with a decimal exponent write a number below the limit. -/
def isFinite (digits : List Char) (exponent : Int) : Bool :=
  let digits := digits.dropWhile (· = '0')
  let size := digits.length + exponent
  if digits.isEmpty || size < limitDigits then true
  else if limitDigits < size then false
  else
    natOfDigits 10 digits * Nat.pow 10 exponent.toNat <
      doubleLimit * Nat.pow 10 (-exponent).toNat

end CodeOutline.Text
