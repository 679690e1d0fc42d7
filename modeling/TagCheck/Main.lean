import TagCheck.Command.Run

/-! The command line. -/
namespace TagCheck

def FileError.ofSystem : IO.Error → FileError
  | .noFileOrDirectory _ _ _ => .notFound
  | .inappropriateType _ 20 _ => .notADirectory
  | .inappropriateType _ 21 _ => .isADirectory
  | .invalidArgument _ 36 _ => .nameTooLong
  | e => .other (toString e)

/-- The files of the system. -/
def systemFiles : FileSystem IO where
  read path := do
    try return .ok (← IO.FS.readFile path)
    catch e => return .error (.ofSystem e)
  isFile path := do
    try
      let _ ← IO.FS.readFile path
      return true
    catch _ => return false
  resolve? path := do
    try return some (toString (← IO.FS.realPath path))
    catch _ => return none

end TagCheck

open TagCheck in
def main (args : List String) : IO UInt32 := do
  match Command.parse? args with
  | none =>
    IO.eprint Command.usage
    return 2
  | some c =>
    match ← c.run systemFiles with
    | .error e =>
      IO.eprintln e.message
      return 1
    | .ok report =>
      IO.print report.text
      return if report.passed then 0 else 1
