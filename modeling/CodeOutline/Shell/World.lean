import CodeOutline.Shell.Node

namespace CodeOutline.Shell

structure File where
  /-- What was written, the last piece first. -/
  pieces : List Octets
  executable : Bool
  deriving Inhabited

namespace File

def ofOctets (content : Octets) : File := ⟨[content], false⟩

def content (file : File) : Octets :=
  file.pieces.reverse.flatten

end File

structure World where
  files : List (String × File)
  /-- The time that has passed, in milliseconds. -/
  clock : Nat
  /-- When the command that runs is stopped. -/
  deadline : Nat
  /-- How many more steps are taken before the deadline counts as reached. -/
  steps : Nat
  deriving Inhabited

/-- The path of the directory. -/
def directory : String := "/tmp/scratch"

/-- Directories that exist beside it. -/
def otherDirectories : List String :=
  ["/", "/tmp", "/bin", "/usr", "/usr/bin", "/etc", "/dev", "/root", "/home", "/var", ".", ".."]

/-- A path without what leads to the directory itself. -/
def localPath (path : Octets) : String :=
  let path := (Text.strip? (directory ++ "/").toList path).getD path
  let rec strip : Nat → Octets → Octets
    | 0, path => path
    | limit + 1, path =>
      match Text.strip? ['.', '/'] path with
      | some rest => strip limit (rest.dropWhile (· = '/'))
      | none => path
  String.ofList (strip path.length path)

def isDirectory (path : String) : Bool :=
  path = directory || otherDirectories.contains path

namespace World

/-- How many steps a command may take. -/
def stepLimit : Nat := 200000

def empty : World := ⟨[], 0, 0, stepLimit⟩

def file? (world : World) (path : String) : Option File :=
  world.files.lookup path

def put (world : World) (path : String) (file : File) : World :=
  let others := world.files.filter fun entry => entry.1 ≠ path
  { world with files := (path, file) :: others }

def remove (world : World) (path : String) : World :=
  { world with files := world.files.filter fun entry => entry.1 ≠ path }

/-- Adds to a file, which is made if it is not there. -/
def append (world : World) (path : String) (text : Octets) : World :=
  match world.file? path with
  | some file => world.put path { file with pieces := text :: file.pieces }
  | none => world.put path (.ofOctets text)

/-- The names in the directory, in the order of their bytes. -/
def names (world : World) : List String :=
  (world.files.map Prod.fst).filter (fun name => !name.toList.contains '/') |>.mergeSort

end World

end CodeOutline.Shell
