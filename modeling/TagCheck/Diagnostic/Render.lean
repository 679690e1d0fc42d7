import TagCheck.Diagnostic.Reporter
import TagCheck.Text.Basic

/-! Diagnostics as text for people and as JSON. -/
namespace TagCheck
namespace Diagnostic

/-- The line that says where, without its end. -/
def place (file : String) : Option Position → String
  | some p => "  --> " ++ file ++ ":" ++ toString p.line ++ ":" ++ toString p.column
  | none => "  --> " ++ file

/-- One line on what was found and one on where. -/
def human (file : String) (d : Diagnostic) : String :=
  d.severity.text ++ "[" ++ d.severity.letter ++ toString d.code.number ++ "]: " ++ d.message
    ++ "\n" ++ place file d.pos ++ "\n"

def humanList (file : String) (ds : List Diagnostic) : String := String.join (ds.map (human file))

/-- A field of an object, at a depth of nesting. -/
def jsonField (depth : Nat) (name value : String) : String :=
  "\n" ++ "".pushn ' ' (2 * depth) ++ Text.quoted name ++ ": " ++ value

def jsonObject (depth : Nat) (fields : List (String × String)) : String :=
  "\x7b" ++ ",".intercalate (fields.map fun f => jsonField (depth + 1) f.1 f.2)
    ++ "\n" ++ "".pushn ' ' (2 * depth) ++ "\x7d"

def jsonPosition (depth : Nat) : Option Position → String
  | none => "null"
  | some p => jsonObject depth [("line", toString p.line), ("column", toString p.column)]

def json (d : Diagnostic) : String :=
  jsonObject 1 [("severity", Text.quoted d.severity.text), ("code", toString d.code.number),
    ("name", Text.quoted d.code.name), ("message", Text.quoted d.message),
    ("span", jsonPosition 2 d.pos), ("pass", toString d.pass)]

def jsonList (ds : List Diagnostic) : String :=
  if ds.isEmpty then "[]"
  else "[" ++ ",".intercalate (ds.map fun d => "\n  " ++ d.json) ++ "\n]"

end Diagnostic
end TagCheck
