import TagCheck.Diagnostic.Code
import TagCheck.Source
import TagCheck.Tag

/-! What the checker has to say about a program, pass by pass. -/
namespace TagCheck

inductive Severity where
  | info | error
  deriving DecidableEq, Repr, Inhabited

namespace Severity

def text : Severity → String
  | info => "info"
  | error => "error"

/-- The letter before the number of a code. -/
def letter : Severity → String
  | info => "I"
  | error => "E"

end Severity

structure Diagnostic where
  severity : Severity
  code : Code
  message : String
  pos : Option Position
  /-- The pass that found it. -/
  pass : Nat
  deriving DecidableEq, Repr, Inhabited

namespace Diagnostic

def isError (d : Diagnostic) : Bool := d.severity == .error

/-- The same statement about the same place. -/
def states (d : Diagnostic) (code : Code) (message : String) (pos : Option Position) : Bool :=
  d.code == code && d.pos == pos && d.message == message

end Diagnostic

/-- The diagnostics so far. Errors last for one pass, information stays and is given once. -/
structure Reporter where
  entries : List Diagnostic := []
  pass : Nat := 0
  deriving DecidableEq, Repr, Inhabited

namespace Reporter

def beginPass (r : Reporter) (pass : Nat) : Reporter :=
  ⟨r.entries.filter (·.severity == .info), pass⟩

def emit (r : Reporter) (severity : Severity) (code : Code) (message : String)
    (pos : Option Position) : Reporter :=
  if severity == .info && r.entries.any (·.states code message pos) then r
  else { r with entries := r.entries ++ [⟨severity, code, message, pos, r.pass⟩] }

def errorCount (r : Reporter) : Nat := r.entries.countP (·.isError)

end Reporter

/-- What is wrong with a type, after a label that says where. -/
def unexpectedType (label : String) (found : Tag) (expected : Option String) : String :=
  match expected, found.isKnown with
  | some e, true => label ++ ": expected type '" ++ e ++ "', but found type '" ++ found.name ++ "'"
  | some e, false => label ++ ": expected type '" ++ e ++ "', but type could not be determined"
  | none, true => label ++ ": found type '" ++ found.name ++ "'"
  | none, false => label ++ ": type is unknown"

def typeMismatch (label : String) (a b : Tag) : String :=
  label ++ ": type '" ++ a.name ++ "' doesn't match type '" ++ b.name ++ "'"

def unexpectedShape (label expected found : String) : String :=
  label ++ ": expected shape '" ++ expected ++ "', but found shape '" ++ found ++ "'"

end TagCheck
