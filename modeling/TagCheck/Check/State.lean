import TagCheck.Diagnostic.Reporter
import TagCheck.Scope.Resolution
import TagCheck.Shape.Describe
import TagCheck.Store

/-! What the rules of the checker read and write. -/
namespace TagCheck

/-- What stays the same throughout a run. -/
structure CheckEnv where
  resolution : Resolution
  /-- How to report a strict comparison of operands of the same known type. -/
  strictEquality : Severity

structure CheckState where
  store : Store
  reporter : Reporter
  /-- The shapes of the enclosing functions, innermost first. -/
  frames : List FuncShapeId

def CheckState.beginPass (s : CheckState) : CheckState :=
  let store := s.store.beginPass
  ⟨store, s.reporter.beginPass store.pass, []⟩

/-- One change of the state. -/
inductive Write where
  /-- A type, unless the target was typed in this pass. -/
  | type (t : Target) (ty : Ty)
  /-- A type in the place of another one of the same pass. -/
  | reimply (b : BindingId) (ty : Ty)
  /-- A shape, unless the target was given one in this pass. -/
  | shape (t : Target) (shape : Option Shape)
  | forceShape (n : NodeId) (shape : Shape)
  | touch (x : Tracked)
  | known (x : Tracked)
  | function (f : FuncId)
  | native (name : String) (result : Tag)
  | func (id : FuncShapeId) (f : FuncShape → FuncShape)
  | report (severity : Severity) (code : Code) (message : String) (pos : Position)
  | enter (id : FuncShapeId)
  | leave

namespace Write

def onStore (s : Store) : Write → Store
  | type t ty => (s.markType t ty).2
  | reimply b ty => s.reimply (.binding b) ty
  | shape t x => (s.markShape t x).2
  | forceShape n x => s.forceShape (.node n) x
  | touch x => s.touch x
  | known x => s.markKnown x
  | function f => s.makeFunction f
  | native name result => s.makeNative name result
  | func id f => s.modifyFunc id f
  | report .. | enter _ | leave => s

def apply (s : CheckState) : Write → CheckState
  | report severity code message pos =>
    { s with reporter := s.reporter.emit severity code message (some pos) }
  | enter id => { s with frames := id :: s.frames }
  | leave => { s with frames := s.frames.tail }
  | w => { s with store := w.onStore s.store }

end Write

/-- What a rule does: it looks at the store and the open functions, never at what has been reported,
and changes the state, one write after the other. -/
inductive Check (α : Type) where
  | done (a : α)
  | read (next : Store → List FuncShapeId → Check α)
  | write (w : Write) (next : Check α)

namespace Check

def bind : Check α → (α → Check β) → Check β
  | done a, f => f a
  | read next, f => read fun store frames => (next store frames).bind f
  | write w next, f => write w (next.bind f)

instance : Monad Check where
  pure := done
  bind := bind

def run : Check α → CheckState → α × CheckState
  | done a, s => (a, s)
  | read next, s => (next s.store s.frames).run s
  | write w next, s => next.run (w.apply s)

def put (w : Write) : Check Unit := write w (done ())

def getStore : Check Store := read fun store _ => done store

def ty? (t : Target) : Check (Option Ty) := return (← getStore).ty? t

/-- The type of a node, which may be unknown. -/
def tyOf (n : NodeId) : Check Ty := return ((← ty? (.node n)).getD .unknown)

/-- The type of a node or a binding, if it is known. -/
def knownType? (t : Target) : Check (Option Ty) := return (← ty? t).filter Ty.isKnown

def tagOf (t : Target) : Check Tag := return (← getStore).tag t

def shape? (t : Target) : Check (Option Shape) := return (← getStore).shape? t

def markType (t : Target) (ty : Ty) : Check Unit := put (.type t ty)

def markShape (t : Target) (shape : Option Shape) : Check Unit := put (.shape t shape)

def touch (x : Tracked) : Check Unit := put (.touch x)

def markKnown (x : Tracked) : Check Unit := put (.known x)

/-- The shape of a function and whether it was made just now. -/
def functionShape (f : FuncId) : Check (FuncShapeId × Bool) := do
  let place := (← getStore).functionPlace f
  put (.function f)
  return place

/-- The shape of a built-in constructor. -/
def nativeShape (name : String) (result : Tag) : Check FuncShapeId := do
  let place := (← getStore).nativePlace name
  put (.native name result)
  return place

def func? (id : FuncShapeId) : Check (Option FuncShape) := return (← getStore).arena.get? id

def modifyFunc (id : FuncShapeId) (f : FuncShape → FuncShape) : Check Unit := put (.func id f)

def modifyReturn (id : FuncShapeId) (f : ReturnSlot → ReturnSlot) : Check Unit :=
  modifyFunc id fun s => { s with ret := f s.ret }

def shapeFits (source target : Option Shape) : Check Bool :=
  return (← getStore).arena.fits source target

def describe (shape : Option Shape) : Check String := return (← getStore).arena.describe shape

def report (severity : Severity) (code : Code) (message : String) (pos : Position) : Check Unit :=
  put (.report severity code message pos)

def info (code : Code) (message : String) (pos : Position) : Check Unit :=
  report .info code message pos

def error (code : Code) (message : String) (pos : Position) : Check Unit :=
  report .error code message pos

def unexpected (code : Code) (label : String) (found : Tag) (expected : String) (pos : Position) :
    Check Unit :=
  error code (unexpectedType label found (some expected)) pos

def mismatched (code : Code) (label : String) (expected found : Option Shape) (pos : Position) :
    Check Unit := do
  error code (unexpectedShape label (← describe expected) (← describe found)) pos

/-- The shape of the innermost enclosing function. -/
def frame? : Check (Option FuncShapeId) := read fun _ frames => done frames.head?

end Check

def CheckEnv.bindingOf? (env : CheckEnv) (i : Ident) : Option BindingId :=
  env.resolution.bindingOf? i.node.id

end TagCheck
