import TagCheck.Files.Basic

/-! A tree of directories and files, and how a path is followed through it. -/
namespace TagCheck

/-- The files below the root, by the names on the way to them, and the current directory. Every
directory is on the way to a file or is the current one. -/
structure FileTree where
  files : List (List String × String)
  current : List String

namespace FileTree

inductive Place where
  | file (content : String)
  | directory
  deriving DecidableEq, Repr

/-- The step from a place that a stretch of a path stands for. -/
def step (here : List String) : String → List String
  | "" | "." => here
  | ".." => here.dropLast
  | name => here ++ [name]

def start (t : FileTree) (path : String) : List String :=
  if path.startsWith "/" then [] else t.current

/-- Puts a file where a path leads, in place of one that is there. -/
def write (t : FileTree) (path content : String) : FileTree :=
  { t with files := ((path.splitOn "/").foldl step (t.start path), content) :: t.files }

/-- What stands at the end of a way from the root. -/
def at? (t : FileTree) (names : List String) : Option Place :=
  match t.files.lookup names with
  | some content => some (.file content)
  | none =>
    if names.isPrefixOf t.current || t.files.any fun f => names.isPrefixOf f.1 then some .directory
    else none

/-- The most bytes that a name has. -/
def nameLimit : Nat := 255

/-- The most bytes that a path has. -/
def pathLimit : Nat := 4095

/-- Follows the stretches of a path from a place, which has to be a directory for each of them. -/
def follow (t : FileTree) (here : List String) : List String → Except FileError (List String)
  | [] => .ok here
  | name :: rest =>
    match t.at? here with
    | none => .error .notFound
    | some (.file _) => .error .notADirectory
    | some .directory =>
      if nameLimit < name.utf8ByteSize then .error .nameTooLong
      else t.follow (step here name) rest

/-- Where a path leads. -/
def locate (t : FileTree) (path : String) : Except FileError (List String × Place) := do
  if path.contains '\x00' then throw .zeroByte
  if path == "" then throw .notFound
  if pathLimit < path.utf8ByteSize then throw .nameTooLong
  let names ← t.follow (t.start path) (path.splitOn "/")
  match t.at? names with
  | none => throw .notFound
  | some place => return (names, place)

def read (t : FileTree) (path : String) : Except FileError String := do
  match ← t.locate path with
  | (_, .file content) => return content
  | (_, .directory) => throw .isADirectory

def isFile (t : FileTree) (path : String) : Bool :=
  match t.locate path with
  | .ok (_, .file _) => true
  | _ => false

def resolve? (t : FileTree) (path : String) : Option String :=
  match t.locate path with
  | .ok (names, _) => some ("/" ++ "/".intercalate names)
  | .error _ => none

def system (t : FileTree) : FileSystem Id := ⟨t.read, t.isFile, t.resolve?⟩

end FileTree
end TagCheck
