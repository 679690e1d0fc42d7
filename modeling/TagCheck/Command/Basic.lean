import TagCheck.Command.Arguments
import TagCheck.Config
import TagCheck.Text.Basic

/-! The commands of the program. -/
namespace TagCheck

/-- The settings that a command line gives, which win over those of a file. -/
structure Overrides where
  format : Option OutputFormat := none
  info : Bool := false
  passLimit : Option Nat := none
  strictEquality : Option Severity := none
  deriving DecidableEq, Repr, Inhabited

inductive Command where
  /-- Checks a file, by the settings of the given file or of the nearest one. -/
  | check (file : String) (config : Option String) (overrides : Overrides)
  /-- Prints what a descriptor of an array shape means. -/
  | shape (descriptor : String)
  /-- Prints the value of a literal under a tag. -/
  | validate (tag literal : String) (shape : Option String)
  deriving DecidableEq, Repr

namespace Command

def checkUsage : Usage :=
  { flags := ["info"]
    options := ["format", "pass-limit", "strict-equality", "config"]
    positionals := [false] }

def shapeUsage : Usage := { positionals := [false] }

/-- The literal may begin with a hyphen. -/
def validateUsage : Usage := { options := ["shape"], positionals := [false, true] }

/-- An option that is absent or can be read. -/
def optional? (a : Arguments) (name : String) (read : String → Option α) : Option (Option α) :=
  match a.options.lookup name with
  | none => some none
  | some s => (read s).map some

def format? : String → Option OutputFormat
  | "human" => some .human
  | "json" => some .json
  | _ => none

def severity? : String → Option Severity
  | "error" => some .error
  | "info" => some .info
  | _ => none

/-- A number of 32 bits, with or without a sign. -/
def count? (s : String) : Option Nat := do
  let n ← Text.signedDecimal? s.toList
  if 0 ≤ n ∧ n < Nat.pow 2 32 then return n.toNat else none

/-- A path is not empty. -/
def path? (s : String) : Option String := if s == "" then none else some s

def check? (a : Arguments) : Option Command := do
  let file ← a.positionals.head?.bind path?
  let format ← optional? a "format" format?
  let passLimit ← optional? a "pass-limit" count?
  let strictEquality ← optional? a "strict-equality" severity?
  let config ← optional? a "config" path?
  return .check file config ⟨format, "info" ∈ a.flags, passLimit, strictEquality⟩

/-- The command that a command line stands for. -/
def parse? : List String → Option Command
  | "check" :: args => (Arguments.parse? checkUsage args).bind check?
  | "shape" :: args => do
    let a ← Arguments.parse? shapeUsage args
    return .shape (← a.positionals[0]?)
  | "validate" :: args => do
    let a ← Arguments.parse? validateUsage args
    return .validate (← a.positionals[0]?) (← a.positionals[1]?) (a.options.lookup "shape")
  | _ => none

def usage : String :=
  "Usage: typtag check <FILE> [--format human|json] [--info] [--pass-limit N]\n" ++
  "                    [--strict-equality error|info] [--config PATH]\n" ++
  "       typtag shape <DESCRIPTOR>\n" ++
  "       typtag validate <TAG> <LITERAL> [--shape DESCRIPTOR]\n"

end Command
end TagCheck
