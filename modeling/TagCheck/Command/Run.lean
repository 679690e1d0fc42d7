import TagCheck.Check.Run
import TagCheck.Command.Basic
import TagCheck.Config
import TagCheck.Diagnostic.Render

/-! What the commands do. -/
namespace TagCheck

inductive CommandError where
  | config (e : ConfigError)
  | file (path : String) (e : CheckFileError)
  | descriptor (e : Descriptor.Error)
  | validation (e : ValidationError)
  deriving DecidableEq, Repr

def CommandError.message : CommandError → String
  | config e => "error: " ++ e.message
  | file path e => e.message path
  | descriptor e => "error: " ++ e.message
  | validation e => "error: " ++ e.message

/-- What a command prints, and whether it found nothing wrong. -/
structure Report where
  passed : Bool
  text : String
  deriving DecidableEq, Repr

/-- The command line wins over the file of settings. -/
def Overrides.apply (o : Overrides) (c : Config) : Config :=
  { format := o.format.getD c.format
    showInfo := o.info || c.showInfo
    passLimit := o.passLimit.getD c.passLimit
    strictEquality := o.strictEquality.getD c.strictEquality }

namespace Report

def counted (n : Nat) (one many : String) : String :=
  toString n ++ " " ++ (if n = 1 then one else many)

/-- The last line of a report for people. -/
def summary (errors passes : Nat) : String :=
  if errors = 0 then "Type check passed.\n"
  else counted errors "error" "errors" ++ " found (" ++ counted passes "pass" "passes" ++ ")\n"

def ofOutcome (file : String) (config : Config) (o : Outcome) : Report :=
  let shown := o.diagnostics.filter fun d => config.showInfo || d.isError
  let text := match config.format with
    | .human => Diagnostic.humanList file shown ++ summary o.errorCount o.passes
    | .json => Diagnostic.jsonList shown ++ "\n"
  ⟨o.errorCount == 0, text⟩

def ofDescriptor (descriptor : String) : Except CommandError Report :=
  match Descriptor.parse descriptor with
  | .ok s => .ok ⟨true, s.description ++ "\n"⟩
  | .error e => .error (.descriptor e)

def parseShape : Option String → Except CommandError (Option ArrayShape)
  | none => .ok none
  | some d =>
    match Descriptor.parse d with
    | .ok s => .ok (some s)
    | .error e => .error (.descriptor e)

def ofLiteral (tag literal : String) (shape : Option String) : Except CommandError Report := do
  match Tag.ofName? tag with
  | none => throw (.validation (.unknownType tag))
  | some t =>
    match t.validateLiteral literal (← parseShape shape) with
    | .ok v => return ⟨true, v.kind ++ ": " ++ v.text ++ "\n"⟩
    | .error e => throw (.validation e)

variable {m : Type → Type} [Monad m]

def ofFile (fs : FileSystem m) (file : String) (config : Option String) (overrides : Overrides) :
    m (Except CommandError Report) := do
  let loaded ← match config with
    | some path => Config.load fs path
    | none => Config.forFile fs file
  match loaded with
  | .error e => return .error (.config e)
  | .ok c =>
    let c := overrides.apply c
    if c.isValid then
      match ← checkFile fs file c with
      | .ok o => return .ok (.ofOutcome file c o)
      | .error e => return .error (.file file e)
    else
      return .error (.config .invalid)

end Report

def Command.run {m : Type → Type} [Monad m] (fs : FileSystem m) :
    Command → m (Except CommandError Report)
  | .check file config overrides => Report.ofFile fs file config overrides
  | .shape descriptor => return Report.ofDescriptor descriptor
  | .validate tag literal s => return Report.ofLiteral tag literal s

end TagCheck
