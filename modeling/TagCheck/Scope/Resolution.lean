import TagCheck.Scope.Event

/-! Which declared name each identifier means. -/
namespace TagCheck

structure Binding where
  name : String
  kind : BindingKind
  pos : Position
  deriving DecidableEq, Repr, Inhabited

/-- What an identifier means. -/
structure Reference where
  binding : BindingId
  /-- The innermost scope of the identifier declares the name, and not as a parameter. -/
  isLocal : Bool
  deriving DecidableEq, Repr, Inhabited

structure Resolution where
  bindings : Array Binding
  /-- By node. -/
  refs : Array (Option Reference)
  /-- By function number. -/
  functions : Array (Option Func)

namespace Resolution

def empty (nodes funcs : Nat) : Resolution :=
  ⟨#[], Array.replicate nodes none, Array.replicate funcs none⟩

def reference? (r : Resolution) (n : NodeId) : Option Reference := r.refs[n]?.join

def bindingOf? (r : Resolution) (n : NodeId) : Option BindingId := (r.reference? n).map (·.binding)

def isLocalNonParam (r : Resolution) (n : NodeId) : Bool :=
  (r.reference? n).any (·.isLocal)

def function? (r : Resolution) (f : FuncId) : Option Func := r.functions[f]?.join

def isParam (r : Resolution) (b : BindingId) : Bool := r.bindings[b]?.any (·.kind == .param)

end Resolution

/-- The names that a scope declares. -/
abbrev Scope := List (String × BindingId)

/-- A resolution in the making and the scopes that are open, innermost first. -/
structure Resolving where
  scopes : List Scope
  resolution : Resolution

namespace Resolving

/-- A name that its scope has declared already is not declared again. -/
def declare (s : Resolving) (i : Ident) (kind : BindingKind) : Resolving :=
  match s.scopes with
  | [] => s
  | scope :: outer =>
    match scope.lookup i.name with
    | some _ => s
    | none =>
      let id := s.resolution.bindings.size
      { scopes := ((i.name, id) :: scope) :: outer
        resolution := { s.resolution with
          bindings := s.resolution.bindings.push ⟨i.name, kind, i.node.pos⟩ } }

/-- The binding of a name in the innermost scope that has one. -/
def lookup? (name : String) : List Scope → Option BindingId
  | [] => none
  | scope :: outer => scope.lookup name <|> lookup? name outer

def refer (s : Resolving) (i : Ident) : Resolving :=
  match lookup? i.name s.scopes with
  | none => s
  | some b =>
    let declaredHere := (s.scopes.head?.bind (·.lookup i.name)).isSome
    let ref : Reference := ⟨b, declaredHere && !s.resolution.isParam b⟩
    { s with resolution := { s.resolution with
        refs := s.resolution.refs.setIfInBounds i.node.id (some ref) } }

def step (s : Resolving) : ScopeEvent → Resolving
  | .enter => { s with scopes := [] :: s.scopes }
  | .leave => { s with scopes := s.scopes.tail }
  | .declare i kind => s.declare i kind
  | .refer i => s.refer i
  | .function f =>
    { s with resolution := { s.resolution with
        functions := s.resolution.functions.setIfInBounds f.func (some f) } }

end Resolving

def Program.resolve (p : Program) : Resolution :=
  (p.scopeEvents.foldl Resolving.step ⟨[], .empty p.nodeCount p.funcCount⟩).resolution

end TagCheck
