import CodeOutline.Shell.Token
import CodeOutline.Text.Digits

namespace CodeOutline.Shell.Arithmetic

inductive Problem where
  | divisionByZero
  | malformed
  deriving DecidableEq, Repr

structure State where
  rest : Octets
  bindings : List (String × Octets)

abbrev Reader := StateT State (Except Problem)

def skip : Reader Unit :=
  modify fun state => { state with
    rest := state.rest.dropWhile fun c => c = ' ' || c = '\t' || c = '\n' }

def accept (mark : String) : Reader Bool := do
  skip
  let state ← get
  match Text.strip? mark.toList state.rest with
  | some rest =>
    set { state with rest := rest }
    return true
  | none => return false

/-- Operators with their strength; of two that begin alike the longer one comes first. -/
def operators : List (String × Nat) :=
  [("||", 1), ("&&", 2), ("==", 6), ("!=", 6), ("<<", 8), (">>", 8), ("<=", 7), (">=", 7), ("<", 7),
    (">", 7), ("|", 3), ("^", 4), ("&", 5), ("+", 9), ("-", 9), ("*", 10), ("/", 10), ("%", 10)]

def truth (value : Bool) : Int := if value then 1 else 0

/-- The 64-bit integer that agrees with a number in its last 64 bits. -/
def wrap (value : Int) : Int :=
  value.bmod UInt64.size

def bits (operation : Nat → Nat → Nat) (left right : Int) : Int :=
  let word (value : Int) : Nat := (value % UInt64.size).toNat
  wrap (operation (word left) (word right))

/-- How far a number shifts; only its last six bits count. -/
def distance (right : Int) : Nat :=
  (right % 64).toNat

def apply (operator : String) (left right : Int) : Except Problem Int :=
  match operator with
  | "||" => .ok (truth (left ≠ 0 || right ≠ 0))
  | "&&" => .ok (truth (left ≠ 0 && right ≠ 0))
  | "==" => .ok (truth (left = right))
  | "!=" => .ok (truth (left ≠ right))
  | "<" => .ok (truth (left < right))
  | ">" => .ok (truth (right < left))
  | "<=" => .ok (truth (left ≤ right))
  | ">=" => .ok (truth (right ≤ left))
  | "|" => .ok (bits Nat.lor left right)
  | "^" => .ok (bits Nat.xor left right)
  | "&" => .ok (bits Nat.land left right)
  | "<<" => .ok (wrap (left <<< distance right))
  | ">>" => .ok (left >>> distance right)
  | "+" => .ok (wrap (left + right))
  | "-" => .ok (wrap (left - right))
  | "*" => .ok (wrap (left * right))
  | "/" => if right = 0 then .error .divisionByZero else .ok (Int.tdiv left right)
  | _ => if right = 0 then .error .divisionByZero else .ok (Int.tmod left right)

/-- The 64-bit integer that is nearest to a number. -/
def clamp (value : Int) : Int :=
  max Int64.minValue.toInt (min value Int64.maxValue.toInt)

/-- The number that a word writes in decimal, octal or hexadecimal digits. -/
def number? (text : Octets) : Option Int :=
  let (negative, digits) := match text with
    | '-' :: rest => (true, rest)
    | '+' :: rest => (false, rest)
    | rest => (false, rest)
  let magnitude : Option Nat := match digits with
    | '0' :: x :: rest =>
      if x = 'x' ∨ x = 'X' then
        if !rest.isEmpty && rest.all Text.isHexDigit then some (Text.natOfDigits 16 rest) else none
      else if (x :: rest).all Text.isOctalDigit then some (Text.natOfDigits 8 (x :: rest))
      else none
    | digits =>
      if !digits.isEmpty && digits.all Char.isDigit then some (Text.natOfDigits 10 digits) else none
  magnitude.map fun (value : Nat) => clamp (if negative then -(value : Int) else value)

def valueOf (name : String) : Reader Int := do
  match (← get).bindings.lookup name with
  | none => return 0
  | some text =>
    if text.isEmpty then return 0
    match number? (text.filter (· ≠ ' ')) with
    | some value => return value
    | none => throw .malformed

def store (name : String) (value : Int) : Reader Unit :=
  modify fun state => { state with
    bindings := (name, (toString value).toList) ::
      state.bindings.filter fun entry => entry.1 ≠ name }

def assignments : List (String × String) :=
  [("+=", "+"), ("-=", "-"), ("*=", "*"), ("/=", "/"), ("%=", "%"), ("<<=", "<<"), (">>=", ">>"),
    ("&=", "&"), ("|=", "|"), ("^=", "^")]

/-- A number, a variable with what may be assigned to it, or an expression in parentheses. -/
def primary (expression : Reader Int) (operand : Reader Int) : Reader Int := do
  skip
  let state ← get
  match state.rest with
  | [] => throw .malformed
  | c :: _ =>
    if ← accept "(" then
      let value ← expression
      unless ← accept ")" do throw .malformed
      return value
    else if c.isDigit then
      let digits := state.rest.takeWhile fun c => c.isAlphanum
      set { state with rest := state.rest.drop digits.length }
      match number? digits with
      | some value => return value
      | none => throw .malformed
    else if isNameStart c then
      let name := state.rest.takeWhile isNamePart
      set { state with rest := state.rest.drop name.length }
      let name := String.ofList name
      skip
      let rest := (← get).rest
      match assignments.find? fun entry => entry.1.toList.isPrefixOf rest with
      | some (mark, operator) =>
        let _ ← accept mark
        let right ← expression
        let value ← monadLift (apply operator (← valueOf name) right)
        store name value
        return value
      | none =>
        if rest.head? = some '=' && (rest.drop 1).head? ≠ some '=' then
          let _ ← accept "="
          let value ← expression
          store name value
          return value
        valueOf name
    else if ← accept "-" then return wrap (-(← operand))
    else if ← accept "+" then operand
    else if ← accept "!" then return truth ((← operand) = 0)
    else if ← accept "~" then return -(← operand) - 1
    else throw .malformed

def binary (operand : Nat → Reader Int) (strength : Nat) : Nat → Int → Reader Int
  | 0, left => return left
  | limit + 1, left => do
    skip
    let rest := (← get).rest
    match operators.find? fun entry => entry.1.toList.isPrefixOf rest with
    | none => return left
    | some (operator, own) =>
      if own < strength then return left
      let _ ← accept operator
      let right ← operand (own + 1)
      binary operand strength limit (← monadLift (apply operator left right))

/-- An expression whose operators bind at least as tightly as given. -/
def expression : Nat → Nat → Reader Int
  | 0, _ => throw .malformed
  | levels + 1, strength => do
    skip
    let whole : Reader Int := expression levels 0
    let operand : Reader Int := primary whole (expression levels 11)
    let left ← operand
    let limit := (← get).rest.length + 1
    let value ← binary (fun strength => expression levels strength) strength limit left
    if strength = 0 then
      if ← accept "?" then
        let first ← whole
        unless ← accept ":" do throw .malformed
        let second ← whole
        return if value ≠ 0 then first else second
    return value

/-- The value of an expression and the variables after it. -/
def evaluate (text : Octets) (bindings : List (String × Octets)) :
    Except Problem (Int × List (String × Octets)) := do
  let read : Reader Int := do
    skip
    if (← get).rest.isEmpty then return 0
    let value ← expression (text.length + 1) 0
    skip
    unless (← get).rest.isEmpty do throw .malformed
    return value
  let (value, state) ← read.run ⟨text, bindings⟩
  return (value, state.bindings)

end CodeOutline.Shell.Arithmetic
