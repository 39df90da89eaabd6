namespace CodeOutline.Toml

inductive Origin where
  /-- Written in braces; it is complete. -/
  | braces
  /-- Written under a header of its own. -/
  | header
  /-- Implied by the header of a table inside it. -/
  | parent
  /-- Made by a dotted key. -/
  | dotted
  deriving DecidableEq, Repr

inductive Value where
  | string (text : String)
  | integer (number : Int)
  | float (literal : String)
  | boolean (value : Bool)
  | dateTime (literal : String)
  | array (items : List Value)
  | table (origin : Origin) (entries : List (String × Value))
  /-- The tables under the headers in double brackets, of which the last may be added to. -/
  | tables (elements : List (List (String × Value)))
  deriving Repr

abbrev Entries := List (String × Value)

namespace Entries

/-- Gives a key a value, in its place if it has one already. -/
def put (key : String) (value : Value) : Entries → Entries
  | [] => [(key, value)]
  | head :: rest =>
    if head.1 = key then (key, value) :: rest else head :: put key value rest

/-- Changes the table that a path leads to. Tables that are not there are made with the given
origin. A dotted key cannot enter a table that was written under a header, and nothing enters one
in braces. -/
def update (made : Origin) (change : Origin → Entries → Option Entries) (origin : Origin)
    (entries : Entries) : List String → Option Entries
  | [] => change origin entries
  | key :: path =>
    match entries.lookup key with
    | none => (update made change made [] path).map fun inner => entries.put key (.table made inner)
    | some (.table held inner) =>
      if held = .braces ∨ (made = .dotted ∧ held = .header) then none
      else (update made change held inner path).map fun inner => entries.put key (.table held inner)
    | some (.tables elements) =>
      (update made change .header (elements.getLast?.getD []) path).map fun inner =>
        entries.put key (.tables (elements.dropLast ++ [inner]))
    | some _ => none

/-- Adds a pair. The tables on its path, if any, are those that dotted keys make. -/
def insert (path : List String) (key : String) (value : Value) (origin : Origin)
    (entries : Entries) : Option Entries :=
  let add (reached : Origin) (inner : Entries) : Option Entries :=
    if (path ≠ [] ∧ reached ≠ .dotted) ∨ (inner.lookup key).isSome then none
    else some (inner.put key value)
  entries.update .dotted add origin path

/-- Begins the table of a header. It may complete a table that other headers have implied. -/
def openTable (path : List String) (key : String) (entries : Entries) : Option Entries :=
  let add (_ : Origin) (inner : Entries) : Option Entries :=
    match inner.lookup key with
    | none => some (inner.put key (.table .header []))
    | some (.table .parent held) => some (inner.put key (.table .header held))
    | some _ => none
  entries.update .parent add .header path

/-- Begins one more of the tables of a header in double brackets. -/
def openElement (path : List String) (key : String) (entries : Entries) : Option Entries :=
  let add (_ : Origin) (inner : Entries) : Option Entries :=
    match inner.lookup key with
    | none => some (inner.put key (.tables [[]]))
    | some (.tables elements) => some (inner.put key (.tables (elements ++ [[]])))
    | some _ => none
  entries.update .parent add .header path

end Entries

end CodeOutline.Toml
