import TagCheck.Check.Call
import TagCheck.Check.Operator
import TagCheck.Check.TaggedTemplate
import TagCheck.Config
import TagCheck.Program.Grammar

/-! Checking a program, pass by pass, until a pass reads nothing before it is known. -/
namespace TagCheck

def Visit.apply (env : CheckEnv) : Visit → Check Unit
  | infer n t => Check.markType (.node n) (.inferred t)
  | identifier i role => Check.identifier env i role
  | enterFunction n f => Check.enterFunction n f
  | parameters params => Check.parameters env params
  | leaveFunction pos name result => Check.leaveFunction pos name result
  | return_ pos argument => Check.return_ env pos argument
  | condition code label n => Check.condition code label n
  | declare i => Check.declare env i
  | assign n value target => Check.assign env n value target
  | assignDefault n target value => Check.assignDefault env n target value
  | rest n argument => Check.rest env n argument
  | spread pos argument expected => Check.spread pos argument expected
  | arrayLiteral n elements => Check.arrayLiteral n elements
  | unary n op argument => Check.unary n op argument
  | update n op argument => Check.update n op argument
  | binary n op left right => Check.binary env n op left right
  | select n a b => Check.select n a b
  | inherit n source => Check.inherit n source
  | call n callee args tail => Check.call env n callee args tail
  | annotate n text outer => Check.annotate n text outer
  | template n tag label quasi chained => Check.template n tag label quasi chained

structure Outcome where
  diagnostics : List Diagnostic
  passes : Nat
  converged : Bool
  store : Store
  bindings : List Binding

namespace Outcome

def errorCount (o : Outcome) : Nat := o.diagnostics.countP (·.isError)

/-- The first binding of a name. -/
def binding? (o : Outcome) (name : String) : Option BindingId :=
  o.bindings.findIdx? (·.name == name)

def bindingType? (o : Outcome) (name : String) : Option Ty :=
  (o.binding? name).bind fun b => o.store.ty? (.binding b)

def bindingShape? (o : Outcome) (name : String) : Option String :=
  ((o.binding? name).bind fun b => o.store.shape? (.binding b)).map fun s =>
    o.store.arena.describe (some s)

end Outcome

namespace Check

def visit (env : CheckEnv) (s : CheckState) (v : Visit) : CheckState := ((v.apply env).run s).2

/-- One pass over the program. -/
def pass (env : CheckEnv) (visits : List Visit) (s : CheckState) : CheckState :=
  visits.foldl (visit env) s.beginPass

/-- Passes until one reads nothing before it is known, but no more than `limit`. The flag tells
whether there was such a pass. -/
def passes (env : CheckEnv) (visits : List Visit) : Nat → CheckState → Bool × CheckState
  | 0, s => (false, s)
  | limit + 1, s =>
    let s := pass env visits s
    if s.store.needsAnotherPass then passes env visits limit s else (true, s)

end Check

def Config.limit (config : Config) : Nat := max 1 config.passLimit

def Program.checkEnv (p : Program) (config : Config) : CheckEnv :=
  ⟨p.resolve, config.strictEquality⟩

def Program.initialState (p : Program) (r : Resolution) : CheckState :=
  ⟨Store.new p.nodeCount r.bindings.size p.funcCount, {}, []⟩

def Program.check (p : Program) (config : Config) : Outcome :=
  let env := p.checkEnv config
  let (converged, s) :=
    Check.passes env p.visits config.limit (p.initialState env.resolution)
  let reporter :=
    if converged then s.reporter
    else s.reporter.emit .error .tooManyPasses
      ("needed too many passes (limit: " ++ toString config.limit ++ ")") none
  ⟨reporter.entries, s.store.pass, converged, s.store, env.resolution.bindings.toList⟩

/-- Why a source cannot be checked. -/
inductive CheckError where
  | invalidConfig
  | source (e : SourceError)
  deriving DecidableEq, Repr

def CheckError.message (file : String) : CheckError → String
  | invalidConfig => "error: " ++ Config.invalidMessage
  | source e => e.message file

def checkSource (source : String) (config : Config) : Except CheckError Outcome :=
  if config.isValid then
    match Program.ofSource source with
    | .ok p => .ok (p.check config)
    | .error e => .error (.source e)
  else .error .invalidConfig

/-- Why a file cannot be checked. -/
inductive CheckFileError where
  | unreadable (e : FileError)
  | rejected (e : CheckError)
  deriving DecidableEq, Repr

def CheckFileError.message (path : String) : CheckFileError → String
  | unreadable e => "failed to read " ++ path ++ ": " ++ e.message
  | rejected e => e.message path

def checkFile {m : Type → Type} [Monad m] (fs : FileSystem m) (path : String) (config : Config) :
    m (Except CheckFileError Outcome) := do
  match ← fs.read path with
  | .error e => return .error (.unreadable e)
  | .ok source =>
    match checkSource source config with
    | .error e => return .error (.rejected e)
    | .ok o => return .ok o

end TagCheck
