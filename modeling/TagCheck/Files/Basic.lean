/-! What the program asks of a file system, and the paths of files as text. -/
namespace TagCheck

/-- Why a file cannot be read. -/
inductive FileError where
  | notFound
  | notADirectory
  | isADirectory
  | nameTooLong
  | zeroByte
  | other (message : String)
  deriving DecidableEq, Repr

def FileError.message : FileError → String
  | notFound => "No such file or directory (os error 2)"
  | notADirectory => "Not a directory (os error 20)"
  | isADirectory => "Is a directory (os error 21)"
  | nameTooLong => "File name too long (os error 36)"
  | zeroByte => "file name contained an unexpected NUL byte"
  | other message => message

/-- Access to files by paths. -/
structure FileSystem (m : Type → Type) where
  read : String → m (Except FileError String)
  isFile : String → m Bool
  /-- The absolute path to what a path leads to, if there is anything. -/
  resolve? : String → m (Option String)

namespace Path

/-- What stands before the names of a path: the root, the current directory, or nothing. -/
def splitHead (p : List Char) : List Char × List Char :=
  match p with
  | '/' :: rest => (['/'], rest)
  | ['.'] => (['.'], [])
  | '.' :: '/' :: rest => (['.'], '/' :: rest)
  | rest => ([], rest)

/-- Whether a stretch between slashes says nothing. -/
def isVoid (s : String) : Bool := s == "" || s == "."

/-- The text of the path to the directory of a path, and of what stands before the names if there
are none. -/
def parent? (path : String) : Option String :=
  let (head, body) := splitHead path.toList
  let names := (String.ofList body).splitOn "/"
  match names.reverse.dropWhile isVoid with
  | [] => if head == ['.'] then some "" else none
  | _ :: before =>
    some (String.ofList head ++ "/".intercalate (before.dropWhile isVoid).reverse)

/-- A path and the paths to the directories above it, as far as its text tells. -/
def ancestorsUpTo : Nat → String → List String
  | 0, path => [path]
  | n + 1, path =>
    match parent? path with
    | none => [path]
    | some p => path :: ancestorsUpTo n p

def ancestors (path : String) : List String := ancestorsUpTo (path.length + 1) path

/-- A path as seen from a directory. One that starts at the root is the same from everywhere. -/
def join (directory path : String) : String :=
  if path.startsWith "/" || directory == "" then path
  else if directory.endsWith "/" then directory ++ path
  else directory ++ "/" ++ path

/-- What is left of the stretches of a path behind the names of another one. -/
def dropNames? : List String → List String → Option (List String)
  | [], rest => some (rest.dropWhile isVoid)
  | name :: names, rest =>
    match rest.dropWhile isVoid with
    | [] => none
    | first :: rest => if first == name then dropNames? names rest else none

/-- The text of a path from its first name behind a directory to its last one, if the directory
is on the way. -/
def below? (directory path : String) : Option String :=
  let (base, names) := splitHead directory.toList
  let (head, body) := splitHead path.toList
  let stretches (cs : List Char) : List String := (String.ofList cs).splitOn "/"
  if base != head then none
  else
    (dropNames? ((stretches names).filter (!isVoid ·)) (stretches body)).map fun rest =>
      "/".intercalate (rest.reverse.dropWhile isVoid).reverse

end Path

end TagCheck
