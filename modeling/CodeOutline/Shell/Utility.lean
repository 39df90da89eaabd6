import CodeOutline.Shell.Condition
import CodeOutline.Shell.Escape
import CodeOutline.Shell.Expansion

namespace CodeOutline.Shell.Utility

open Run

/-- The flags among the arguments and the operands. Everything after two hyphens is an operand. -/
def options (known valued : List Char) :
    List Octets → Except String (List (Char × Octets) × List Octets)
  | [] => .ok ([], [])
  | argument :: others =>
    match argument with
    | ['-', '-'] => .ok ([], others)
    | '-' :: '-' :: name => .error ("unrecognized option '--" ++ String.ofList name ++ "'")
    | '-' :: letter :: letters => do
      if valued.contains letter then
        if letters.isEmpty then
          match others with
          | value :: others =>
            let (flags, operands) ← options known valued others
            return ((letter, value) :: flags, operands)
          | [] => throw ("option requires an argument -- '" ++ String.ofList [letter] ++ "'")
        let (flags, operands) ← options known valued others
        return ((letter, letters) :: flags, operands)
      match (letter :: letters).find? (!known.contains ·) with
      | some letter => throw ("invalid option -- '" ++ String.ofList [letter] ++ "'")
      | none =>
        let (flags, operands) ← options known valued others
        return ((letter :: letters).map (·, []) ++ flags, operands)
    | _ => do
      let (flags, operands) ← options known valued others
      return (flags, argument :: operands)

/-- A message of a program. -/
def report (name message : String) (status : Nat) : Run Unit := do
  write 2 (name ++ ": " ++ message ++ "\n").toList
  setStatus status

/-- Runs a program with its flags and operands, unless the flags are wrong. -/
def withOptions (name : String) (failure : Nat) (known valued : List Char) (arguments : List Octets)
    (run : List (Char × Octets) → List Octets → Run Unit) : Run Unit := do
  match options known valued arguments with
  | .ok (flags, operands) =>
    setStatus 0
    run flags operands
  | .error message =>
    report name (message ++ "\nTry '" ++ name ++ " --help' for more information.") failure

/-- What stands in a file, or in the input if the path is a hyphen. -/
def content? (name : String) (path : Octets) : Run (Option Octets) := do
  if path = ['-'] then
    let state ← get
    set { state with input := [] }
    return some state.input
  match (← get).world.file? (localPath path) with
  | some file => return some file.content
  | none =>
    if localPath path = "/dev/null" then return some []
    report name (String.ofList path ++
      (if isDirectory (localPath path) then ": Is a directory"
        else ": No such file or directory")) 1
    return none

def contents (name : String) (paths : List Octets) : Run (List (Octets × Octets)) := do
  let paths := if paths.isEmpty then [['-']] else paths
  let found ← paths.mapM fun path => return (← content? name path).map (path, ·)
  return found.filterMap id

/-- The lines of a text; what follows the last line break is a line unless it is empty. -/
def lines (text : Octets) : List Octets :=
  let pieces := Text.pieces (· = '\n') text
  if pieces.getLast? = some [] then pieces.dropLast else pieces

def unlines (lines : List Octets) : Octets :=
  lines.flatMap (· ++ ['\n'])

def natural? (text : Octets) : Option Nat :=
  if !text.isEmpty && text.all Char.isDigit then some (Text.natOfDigits 10 text) else none

def numbered (number : Nat) (line : Octets) : Octets :=
  (Text.padLeft 6 (toString number)).toList ++ '\t' :: line

def cat (arguments : List Octets) : Run Unit :=
  withOptions "cat" 1 ['n', 'u'] [] arguments fun flags paths => do
    let found ← contents "cat" paths
    let text := found.flatMap Prod.snd
    if flags.isEmpty then print text
    else
      print (unlines ((lines text).zipIdx 1 |>.map fun (line, index) => numbered index line))

def list (arguments : List Octets) : Run Unit :=
  withOptions "ls" 2 ['1', 'a', 'A', 'C', 'r'] [] arguments fun flags paths => do
    let world := (← get).world
    let flag (letter : Char) : Bool := flags.any fun entry => entry.1 = letter
    let own := world.names.filter fun name =>
      flag 'a' || flag 'A' || name.toList.head? ≠ some '.'
    let own := if flag 'a' then "." :: ".." :: own else own
    let own := if flag 'r' then own.reverse else own
    if paths.isEmpty then print (unlines (own.map String.toList))
    for path in paths do
      let name := localPath path
      if (world.file? name).isSome then print (path ++ ['\n'])
      else if name = "." || name = directory then print (unlines (own.map String.toList))
      else
        report "ls" ("cannot access '" ++ String.ofList path ++ "': No such file or directory") 2

/-- The numbers of lines, words and bytes of a text. -/
def counts (text : Octets) : Nat × Nat × Nat :=
  let words := (Text.pieces CharClass.isSpace text).filter (!·.isEmpty)
  (text.count '\n', words.length, text.length)

def count (arguments : List Octets) : Run Unit :=
  withOptions "wc" 1 ['l', 'w', 'c', 'm'] [] arguments fun flags paths => do
    let found ← contents "wc" paths
    let flag (letter : Char) : Bool := flags.isEmpty || flags.any fun entry => entry.1 = letter
    let chosen (text : Octets) : List Nat :=
      let (lineCount, wordCount, size) := counts text
      (if flag 'l' then [lineCount] else []) ++ (if flag 'w' then [wordCount] else []) ++
        (if flag 'c' || flag 'm' then [size] else [])
    let total := found.flatMap Prod.snd
    let rows := found.map fun (path, text) =>
      (if paths.isEmpty then [] else ' ' :: path, chosen text)
    let rows := if found.length > 1 then rows ++ [(" total".toList, chosen total)] else rows
    let width := if rows.length = 1 && (chosen total).length = 1 then 0
      else if paths.isEmpty then 7
      else (toString total.length).length
    for (suffix, numbers) in rows do
      let columns := numbers.map fun number => (Text.padLeft width (toString number)).toList
      print (List.intercalate [' '] columns ++ suffix ++ ['\n'])

/-- The characters that a set of `tr` names. -/
def characterSet : Nat → Octets → Octets
  | 0, text => text
  | limit + 1, text =>
    match text with
    | [] => []
    | '\\' :: rest =>
      let (value, after) := escapeAt false rest
      value.drop (value.length - 1) ++ characterSet limit after
    | low :: '-' :: high :: rest =>
      (List.range (high.toNat + 1 - low.toNat)).map (fun index => Char.ofNat (low.toNat + index)) ++
        characterSet limit rest
    | '[' :: ':' :: rest =>
      let range (low high : Char) : Octets :=
        (List.range (high.toNat + 1 - low.toNat)).map fun index => Char.ofNat (low.toNat + index)
      let name := String.ofList (rest.takeWhile (· ≠ ':'))
      let after := rest.drop (name.length + 2)
      let members : Octets := match name with
        | "upper" => range 'A' 'Z'
        | "lower" => range 'a' 'z'
        | "digit" => range '0' '9'
        | "alpha" => range 'A' 'Z' ++ range 'a' 'z'
        | "alnum" => range '0' '9' ++ range 'A' 'Z' ++ range 'a' 'z'
        | "space" => [' ', '\t', '\n', '\r', '\x0b', '\x0c']
        | _ => []
      members ++ characterSet limit after
    | c :: rest => c :: characterSet limit rest

/-- Drops repetitions of the characters of a set. -/
def squeeze (set : Octets) : Octets → Octets
  | c :: d :: rest =>
    if c = d && set.contains c then squeeze set (d :: rest) else c :: squeeze set (d :: rest)
  | text => text

def exchangeCharacters (arguments : List Octets) : Run Unit :=
  withOptions "tr" 1 ['d', 's', 'c', 'C'] [] arguments fun flags sets => do
    let state ← get
    set { state with input := [] }
    let flag (letter : Char) : Bool := flags.any fun entry => entry.1 = letter
    let setOf (index : Nat) : Octets :=
      let text := (sets[index]?).getD []
      characterSet (text.length + 1) text
    let first := setOf 0
    let second := setOf 1
    let inFirst (c : Char) : Bool := first.contains c != (flag 'c' || flag 'C')
    let exchange (c : Char) : Char :=
      if flag 'c' || flag 'C' then if inFirst c then (second.getLast?).getD c else c
      else
        match first.reverse.idxOf? c with
        | some index =>
          let index := first.length - 1 - index
          (second[index]?).getD ((second.getLast?).getD c)
        | none => c
    let text :=
      if flag 'd' then state.input.filter (!inFirst ·)
      else if sets.length < 2 then state.input
      else state.input.map exchange
    print (if flag 's' then squeeze (if sets.length < 2 then first else second) text else text)

/-- The device that gives as many zeros as one asks for. -/
def zeros : Octets := "/dev/zero".toList

/-- The first or the last part of a text, in lines or in bytes. -/
def part (name : String) (first : Bool) (arguments : List Octets) : Run Unit := do
  let arguments := match arguments with
    | ('-' :: digits) :: others =>
      if (natural? digits).isSome then ['-', 'n'] :: digits :: others else arguments
    | _ => arguments
  withOptions name 1 ['q'] ['n', 'c'] arguments fun flags paths => do
    let size (letter : Char) : Option Nat := (flags.lookup letter).bind natural?
    let found ← if paths = [zeros] then
        pure [(zeros, List.replicate ((size 'c').getD 0) '\x00')]
      else contents name paths
    for (_, text) in found do
      match size 'c' with
      | some size => print (if first then text.take size else text.drop (text.length - size))
      | none =>
        let size := (size 'n').getD 10
        let all := Text.pieces (· = '\n') text
        let ended := all.getLast? = some []
        let all := if ended then all.dropLast else all
        let chosen := if first then all.take size else all.drop (all.length - size)
        let complete := ended || (first && size < all.length)
        print (if complete then unlines chosen else List.intercalate ['\n'] chosen)

/-- A duration in milliseconds. -/
def duration? (text : Octets) : Option Nat :=
  let whole := text.takeWhile Char.isDigit
  let rest := text.drop whole.length
  let (decimals, unit) := match rest with
    | '.' :: rest => (rest.takeWhile Char.isDigit, rest.dropWhile Char.isDigit)
    | rest => ([], rest)
  let factor? : Option Nat := match unit with
    | [] | ['s'] => some 1
    | ['m'] => some 60
    | ['h'] => some 3600
    | ['d'] => some 86400
    | _ => none
  if whole.isEmpty && decimals.isEmpty then none
  else
    factor?.map fun factor =>
      factor * Text.natOfDigits 10 (whole ++ (decimals ++ ['0', '0', '0']).take 3)

def sleep (arguments : List Octets) : Run Unit := do
  match arguments with
  | [] => report "sleep" "missing operand\nTry 'sleep --help' for more information." 1
  | arguments =>
    if arguments = ["infinity".toList] then throw .timeout
    match arguments.mapM duration? with
    | some times =>
      setStatus 0
      pass (times.foldl (· + ·) 0)
    | none =>
      let wrong := (arguments.find? fun argument => (duration? argument).isNone).getD []
      report "sleep" ("invalid time interval '" ++ String.ofList wrong ++
        "'\nTry 'sleep --help' for more information.") 1

def remove (arguments : List Octets) : Run Unit :=
  withOptions "rm" 1 ['f', 'r', 'R'] [] arguments fun flags paths => do
    for path in paths do
      let name := localPath path
      if ((← get).world.file? name).isSome then changeWorld fun world => world.remove name
      else unless flags.any fun entry => entry.1 = 'f' do
        report "rm" ("cannot remove '" ++ String.ofList path ++ "': No such file or directory") 1

def touch (arguments : List Octets) : Run Unit :=
  withOptions "touch" 1 [] [] arguments fun _ paths => do
    for path in paths do changeWorld fun world => world.append (localPath path) []

/-- Copies a file, and takes the old one away if it is to be moved. -/
def copy (name : String) (moves : Bool) (arguments : List Octets) : Run Unit :=
  withOptions name 1 ['f', 'p', 'r'] [] arguments fun _ paths => do
    match paths with
    | [source, target] =>
      match (← get).world.file? (localPath source) with
      | some file =>
        if moves then changeWorld fun world => world.remove (localPath source)
        changeWorld fun world => world.put (localPath target) file
      | none =>
        report name ("cannot stat '" ++ String.ofList source ++ "': No such file or directory") 1
    | _ => report name "missing file operand" 1

/-- Whether a mode makes files executable, if it says anything about that. -/
def executes? (mode : Octets) : Option Bool :=
  if mode.all Text.isOctalDigit then some (Text.natOfDigits 8 mode % 2 = 1 || mode.head? = some '7')
  else if mode.contains 'x' then some (mode.contains '+' || mode.contains '=')
  else none

def changeMode (arguments : List Octets) : Run Unit := do
  setStatus 0
  match arguments with
  | mode :: paths =>
    for path in paths do
      let name := localPath path
      match (← get).world.file? name with
      | some file =>
        let executable := (executes? mode).getD file.executable
        changeWorld fun world => world.put name { file with executable := executable }
      | none =>
        report "chmod" ("cannot access '" ++ String.ofList path ++ "': No such file or directory") 1
  | [] => report "chmod" "missing operand\nTry 'chmod --help' for more information." 1

def sequence (arguments : List Octets) : Run Unit := do
  setStatus 0
  let range (first step last : Int) : List Int :=
    if step = 0 then []
    else
      let length := ((last - first) / step + 1).toNat
      (List.range length).map fun (index : Nat) => first + step * (index : Int)
  let numbers := arguments.mapM Arithmetic.number?
  match numbers with
  | some [last] => print (unlines ((range 1 1 last).map fun n => (toString n).toList))
  | some [first, last] => print (unlines ((range first 1 last).map fun n => (toString n).toList))
  | some [first, step, last] =>
    print (unlines ((range first step last).map fun n => (toString n).toList))
  | _ => report "seq" "missing operand\nTry 'seq --help' for more information." 1

def sort (arguments : List Octets) : Run Unit :=
  withOptions "sort" 2 ['r', 'n', 'u'] [] arguments fun flags paths => do
    let found ← contents "sort" paths
    let flag (letter : Char) : Bool := flags.any fun entry => entry.1 = letter
    let before (left right : Octets) : Bool :=
      let key (line : Octets) : Int := if flag 'n' then (argumentNumber line).1 else 0
      if key left ≠ key right then key left < key right
      else !decide (right < left)
    let sorted := (lines (found.flatMap Prod.snd)).mergeSort before
    let sorted := if flag 'u' then sorted.eraseDups else sorted
    print (unlines (if flag 'r' then sorted.reverse else sorted))

/-- About how many bytes a program without an end writes before its reader stops it. -/
def endlessSize : Nat := 1000000

/-- Writes a line again and again. -/
def repeatLine (arguments : List Octets) : Run Unit := do
  let words := if arguments.isEmpty then ['y'] else List.intercalate [' '] arguments
  let line := words ++ ['\n']
  print (List.replicate (endlessSize / line.length + 1) line).flatten

/-- The positions that a list of numbers and ranges names. -/
def selects (ranges : List Octets) (position : Nat) : Bool :=
  ranges.any fun range =>
    match Text.pieces (· = '-') range with
    | [only] => natural? only = some position
    | [first, last] =>
      (natural? first).getD 1 ≤ position && (natural? last).all fun last => position ≤ last
    | _ => false

/-- Writes the chosen fields or characters of each line. -/
def cut (arguments : List Octets) : Run Unit :=
  withOptions "cut" 1 ['s'] ['d', 'f', 'c', 'b'] arguments fun flags paths => do
    let found ← contents "cut" paths
    let all := lines (found.flatMap Prod.snd)
    let ranges (letter : Char) : List Octets :=
      Text.pieces (· = ',') ((flags.lookup letter).getD [])
    let choose {α : Type} (letter : Char) (items : List α) : List α :=
      ((items.zipIdx 1).filter fun item => selects (ranges letter) item.2).map Prod.fst
    let mark := ((flags.lookup 'd').bind List.head?).getD '\t'
    let field (line : Octets) : Octets :=
      if line.contains mark then
        List.intercalate [mark] (choose 'f' (Text.pieces (· = mark) line))
      else line
    if (flags.lookup 'f').isSome then
      let all := if (flags.lookup 's').isSome then all.filter (·.contains mark) else all
      print (unlines (all.map field))
    else
      print (unlines (all.map (choose (if (flags.lookup 'c').isSome then 'c' else 'b'))))

/-- Lines with the number of times that each stands in a row. -/
def repetitions : List Octets → List (Nat × Octets)
  | [] => []
  | line :: others =>
    match repetitions others with
    | (number, next) :: rest =>
      if next = line then (number + 1, line) :: rest else (1, line) :: (number, next) :: rest
    | [] => [(1, line)]

def unique (arguments : List Octets) : Run Unit :=
  withOptions "uniq" 1 ['c'] [] arguments fun flags paths => do
    let found ← contents "uniq" paths
    let rows := repetitions (lines (found.flatMap Prod.snd))
    print (unlines (rows.map fun (number, line) =>
      if flags.isEmpty then line else (Text.padLeft 7 (toString number)).toList ++ ' ' :: line))

def tee (arguments : List Octets) : Run Unit :=
  withOptions "tee" 1 ['a'] [] arguments fun flags paths => do
    let state ← get
    set { state with input := [] }
    print state.input
    for path in paths do
      if flags.isEmpty then changeWorld fun world => world.remove (localPath path)
      changeWorld fun world => world.append (localPath path) state.input

/-- Whether a line matches a pattern in which a dot stands for any character and a star for any
number of the character before it. -/
def matchesFrom : Nat → Octets → Octets → Bool
  | 0, _, _ => false
  | _, [], _ => true
  | _, ['$'], text => text.isEmpty
  | limit + 1, c :: '*' :: pattern, text =>
    matchesFrom limit pattern text ||
      (match text with
        | d :: rest => (c = '.' || c = d) && matchesFrom limit (c :: '*' :: pattern) rest
        | [] => false)
  | limit + 1, '\\' :: c :: pattern, text =>
    (match text with
      | d :: rest => c = d && matchesFrom limit pattern rest
      | [] => false)
  | limit + 1, c :: pattern, text =>
    (match text with
      | d :: rest => (c = '.' || c = d) && matchesFrom limit pattern rest
      | [] => false)

def lineMatches (fixed : Bool) (pattern line : Octets) : Bool :=
  let starts := suffixes line
  if fixed then starts.any fun rest => pattern.isPrefixOf rest
  else
    let limit := pattern.length + line.length + 1
    match pattern with
    | '^' :: pattern => matchesFrom limit pattern line
    | pattern => starts.any (matchesFrom limit pattern)

def search (arguments : List Octets) : Run Unit :=
  withOptions "grep" 2 ['q', 'c', 'v', 'i', 'n', 'F', 'E', 's', 'o'] ['e'] arguments
    fun flags operands => do
      let flag (letter : Char) : Bool := flags.any fun entry => entry.1 = letter
      let (pattern, paths) := match flags.lookup 'e' with
        | some pattern => (pattern, operands)
        | none => (operands.headD [], operands.tail)
      let found ← contents "grep" paths
      let fold (text : Octets) : Octets := if flag 'i' then text.map Char.toLower else text
      let hits := ((lines (found.flatMap Prod.snd)).zipIdx 1).filter fun (line, _) =>
        lineMatches (flag 'F') (fold pattern) (fold line) != flag 'v'
      if flag 'c' then printString (toString hits.length ++ "\n")
      else unless flag 'q' do
        print (unlines (hits.map fun (line, index) =>
          if flag 'n' then (toString index).toList ++ ':' :: line else line))
      if found.length = max 1 paths.length then setStatus (if hits.isEmpty then 1 else 0)
      else setStatus 2

/-- What follows the last slash of a path, without the given ending. -/
def baseName (path ending : Octets) : Octets :=
  let trimmed := (path.reverse.dropWhile (· = '/')).reverse
  let name := (trimmed.reverse.takeWhile (· ≠ '/')).reverse
  if ending.isSuffixOf name && ending ≠ name then name.take (name.length - ending.length) else name

def dirName (path : Octets) : Octets :=
  let before := (path.reverse.dropWhile (· ≠ '/')).reverse
  if before.isEmpty then ['.']
  else
    match (before.reverse.dropWhile (· = '/')).reverse with
    | [] => ['/']
    | name => name

/-- Writes its arguments. Escapes are read only if that is asked for. -/
def echoPlain (arguments : List Octets) : Run Unit := do
  let isFlag (argument : Octets) : Bool :=
    match argument with
    | '-' :: c :: letters => (c :: letters).all fun letter => ['n', 'e', 'E'].contains letter
    | _ => false
  let flags := (arguments.takeWhile isFlag).flatten
  let words := List.intercalate [' '] (arguments.dropWhile isFlag)
  let (text, stops) := if flags.contains 'e' then unescaped (words.length + 1) words
    else (words, false)
  setStatus 0
  print (if stops || flags.contains 'n' then text else text ++ ['\n'])

/-- Writes its arguments with the escapes in them. -/
def echo (arguments : List Octets) : Run Unit := do
  let (ends, arguments) := match arguments with
    | ['-', 'n'] :: others => (false, others)
    | arguments => (true, arguments)
  let words := List.intercalate [' '] arguments
  let (text, stops) := unescaped (words.length + 1) words
  setStatus 0
  print (if stops || !ends then text else text ++ ['\n'])

/-- Formatted output; the message is written by the given writer. -/
def printFormatted (complain : String → Run Unit) (arguments : List Octets) : Run Unit := do
  let arguments := match arguments with
    | ['-', '-'] :: others => others
    | arguments => arguments
  match arguments with
  | [] =>
    complain "printf: usage: printf format [arg ...]"
    setStatus 2
  | text :: arguments =>
    let (output, messages) := format text (arguments.length + 1) arguments
    print output
    setStatus (if messages.isEmpty then 0 else 1)
    for message in messages do complain message

/-- Checks a condition; in brackets, it has to be closed. -/
def condition (complain : String → Run Unit) (name : String) (arguments : List Octets) :
    Run Unit := do
  let words? := if name = "[" then
      if arguments.getLast? = some [']'] then some arguments.dropLast else none
    else some arguments
  match words? with
  | none =>
    complain "[: missing ]"
    setStatus 2
  | some words =>
    match Condition.evaluate (← get).world (words.length + 1) words with
    | .ok value => setStatus (if value then 0 else 1)
    | .error message =>
      complain (name ++ ": " ++ message)
      setStatus 2

/-- A message that goes to the error stream as it is. -/
def plainComplaint (message : String) : Run Unit :=
  write 2 (message ++ "\n").toList

/-- The program of a name. -/
def find? (name : String) : Option (List Octets → Run Unit) :=
  match name with
  | "true" => some fun _ => setStatus 0
  | "false" => some fun _ => setStatus 1
  | "echo" => some echoPlain
  | "printf" => some (printFormatted plainComplaint)
  | "test" | "[" => some (condition plainComplaint name)
  | "cat" => some cat
  | "ls" => some list
  | "wc" => some count
  | "tr" => some exchangeCharacters
  | "head" => some (part "head" true)
  | "tail" => some (part "tail" false)
  | "sleep" => some sleep
  | "rm" => some remove
  | "touch" => some touch
  | "cp" => some (copy "cp" false)
  | "mv" => some (copy "mv" true)
  | "chmod" => some changeMode
  | "seq" => some sequence
  | "sort" => some sort
  | "uniq" => some unique
  | "tee" => some tee
  | "yes" => some repeatLine
  | "cut" => some cut
  | "grep" => some search
  | "pwd" => some fun _ => do
    setStatus 0
    printString (directory ++ "\n")
  | "basename" => some fun arguments => do
    setStatus 0
    print (baseName (arguments.headD []) (arguments.tail.headD []) ++ ['\n'])
  | "dirname" => some fun arguments => do
    setStatus 0
    print (dirName (arguments.headD []) ++ ['\n'])
  | "uname" => some fun _ => do
    setStatus 0
    printString "Linux\n"
  | "whoami" => some fun _ => do
    setStatus 0
    printString "root\n"
  | _ => none

end CodeOutline.Shell.Utility

namespace CodeOutline.Shell.Signal

def numbers : List (String × Nat) :=
  [("EXIT", 0), ("HUP", 1), ("INT", 2), ("QUIT", 3), ("ILL", 4), ("TRAP", 5), ("ABRT", 6),
    ("BUS", 7), ("FPE", 8), ("KILL", 9), ("USR1", 10), ("SEGV", 11), ("USR2", 12), ("PIPE", 13),
    ("ALRM", 14), ("TERM", 15), ("CHLD", 17), ("CONT", 18), ("STOP", 19), ("TSTP", 20), ("TTIN", 21),
    ("TTOU", 22), ("URG", 23), ("WINCH", 28)]

/-- The number of a signal that is given by its number or its name. -/
def number? (text : Octets) : Option Nat :=
  match Utility.natural? text with
  | some number => some number
  | none =>
    let name := String.ofList (text.map Char.toUpper)
    (numbers.lookup name).or ((Text.strip? "SIG".toList name.toList).bind fun rest =>
      numbers.lookup (String.ofList rest))

/-- Signals that change nothing unless they are waited for. -/
def isIgnored (number : Nat) : Bool :=
  [0, 17, 18, 23, 28].contains number

/-- Signals that make a command stand still. -/
def isHalting (number : Nat) : Bool :=
  [19, 20, 21, 22].contains number

/-- What is written about a command that a signal ended. -/
def notice (number : Nat) : String :=
  match number with
  | 1 => "Hangup"
  | 3 => "Quit"
  | 4 => "Illegal instruction"
  | 6 => "Aborted"
  | 7 => "Bus error"
  | 8 => "Floating point exception"
  | 9 => "Killed"
  | 10 => "User defined signal 1"
  | 11 => "Segmentation fault"
  | 12 => "User defined signal 2"
  | 14 => "Alarm clock"
  | 15 => "Terminated"
  | _ => ""

/-- A signal to the shell itself. -/
def receive (runScript : Octets → Run Unit) (number : Nat) : Run Unit := do
  let trap := (← get).traps.lookup (toString number)
  if number ≠ 9 && number ≠ 19 && trap.isSome then
    let status := (← get).status
    runScript (trap.getD [])
    Run.setStatus status
  else if isIgnored number then return
  else if isHalting number then throw .timeout
  else throw (.signal number)

end CodeOutline.Shell.Signal
