import CodeOutline.Shell.Arithmetic
import CodeOutline.Shell.State

namespace CodeOutline.Shell.Condition

/-- A condition is true or false, or it is malformed for a reason. -/
abbrev Verdict := Except String Bool

def unary (world : World) (operator : String) (operand : Octets) : Option Verdict :=
  let path := localPath operand
  let file := world.file? path
  match operator with
  | "-n" => some (.ok !operand.isEmpty)
  | "-z" => some (.ok operand.isEmpty)
  | "-e" => some (.ok (file.isSome || isDirectory path))
  | "-f" => some (.ok file.isSome)
  | "-d" => some (.ok (isDirectory path))
  | "-r" | "-w" => some (.ok (file.isSome || isDirectory path))
  | "-x" =>
    some (.ok (file.any File.executable || isDirectory path || path.startsWith "/bin/" ||
      path.startsWith "/usr/bin/"))
  | "-s" => some (.ok ((file.any fun file => !file.content.isEmpty) || isDirectory path))
  | "-t" | "-L" | "-h" | "-p" | "-S" | "-b" | "-c" => some (.ok false)
  | _ => none

def number (text : Octets) : Except String Int :=
  match Arithmetic.number? ((text.dropWhile (· = ' ')).takeWhile (· ≠ ' ')) with
  | some value => .ok value
  | none => .error ("Illegal number: " ++ String.ofList text)

def binary (left : Octets) (operator : String) (right : Octets) : Option Verdict :=
  let compare (test : Int → Int → Bool) : Option Verdict :=
    some do
      let left ← number left
      let right ← number right
      return test left right
  match operator with
  | "=" | "==" => some (.ok (left = right))
  | "!=" => some (.ok (left ≠ right))
  | "<" => some (.ok (left < right))
  | ">" => some (.ok (right < left))
  | "-eq" => compare fun left right => left = right
  | "-ne" => compare fun left right => left ≠ right
  | "-lt" => compare fun left right => left < right
  | "-le" => compare fun left right => left ≤ right
  | "-gt" => compare fun left right => right < left
  | "-ge" => compare fun left right => right ≤ left
  | _ => none

def both (left right : Verdict) : Verdict := do
  let left ← left
  let right ← right
  return left && right

def either (left right : Verdict) : Verdict := do
  let left ← left
  let right ← right
  return left || right

/-- Splits a list of words at the first place where one stands. -/
def splitAt? (word : String) (words : List Octets) : Option (List Octets × List Octets) :=
  let before := words.takeWhile (· ≠ word.toList)
  match words.drop before.length with
  | [] => none
  | _ :: after => if before.isEmpty then none else some (before, after)

/-- The verdict on a list of words. How they are read depends on their number first. -/
def evaluate (world : World) : Nat → List Octets → Verdict
  | 0, _ => .error "too deep"
  | limit + 1, words =>
    let inner (words : List Octets) : Verdict := evaluate world limit words
    let longer : Verdict :=
      match splitAt? "-o" words with
      | some (left, right) => either (inner left) (inner right)
      | none =>
        match splitAt? "-a" words with
        | some (left, right) => both (inner left) (inner right)
        | none =>
          match words with
          | ['!'] :: rest => (inner rest).map (!·)
          | ['('] :: rest =>
            if rest.getLast? = some [')'] then inner rest.dropLast
            else .error "closing paren expected"
          | [_, operator, _] => .error (String.ofList operator ++ ": unexpected operator")
          | word :: next :: _ =>
            .error (String.ofList (if next.head? = some '-' then word else next) ++
              ": unexpected operator")
          | _ => .error "unexpected operator"
    match words with
    | [] => .ok false
    | [word] => .ok !word.isEmpty
    | [operator, operand] =>
      if operator = ['!'] then .ok operand.isEmpty
      else (unary world (String.ofList operator) operand).getD
        (.error (String.ofList operator ++ ": unexpected operator"))
    | [left, operator, right] =>
      (binary left (String.ofList operator) right).getD longer
    | _ => longer

end CodeOutline.Shell.Condition
