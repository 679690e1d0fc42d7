import TagCheck.Shape.Function

/-! The types and shapes found so far.

A write carries the number of its pass. Within a pass the first known type of a target stays, and
so does its first shape; a write of an earlier pass gives way to the first one of the current
pass. -/
namespace TagCheck

structure Marked (α : Type) where
  value : α
  pass : Nat
  deriving DecidableEq, Inhabited

/-- What carries a type and a shape. -/
inductive Target where
  | node (n : NodeId)
  | binding (b : BindingId)
  deriving DecidableEq, Repr, Inhabited

/-- What may be read before it is known: the type of a binding and the result of a function. -/
inductive Tracked where
  | binding (b : BindingId)
  | ret (id : FuncShapeId)
  deriving DecidableEq, Repr, Inhabited

structure Cell where
  ty : Option (Marked Ty) := none
  shape : Option (Marked Shape) := none
  deriving DecidableEq, Inhabited

structure Store where
  pass : Nat
  nodes : Array Cell
  bindings : Array Cell
  /-- The shapes of the functions of the program. -/
  byFunction : Array (Option FuncShapeId)
  /-- The shapes of the built-in constructors. -/
  natives : List (String × FuncShapeId)
  arena : Arena
  /-- What was read in this pass before it was known. -/
  touched : List Tracked
  /-- What became known in this pass. -/
  known : List Tracked
  deriving Inhabited

namespace Store

def new (nodes bindings funcs : Nat) : Store :=
  { pass := 0
    nodes := Array.replicate nodes {}
    bindings := Array.replicate bindings {}
    byFunction := Array.replicate funcs none
    natives := []
    arena := {}
    touched := []
    known := [] }

def beginPass (s : Store) : Store := { s with pass := s.pass + 1, touched := [], known := [] }

/-- A target out of range holds nothing. -/
def cell (s : Store) : Target → Cell
  | .node n => s.nodes[n]?.getD {}
  | .binding b => s.bindings[b]?.getD {}

def modifyCell (s : Store) (f : Cell → Cell) : Target → Store
  | .node n => { s with nodes := s.nodes.modify n f }
  | .binding b => { s with bindings := s.bindings.modify b f }

def ty? (s : Store) (t : Target) : Option Ty := (s.cell t).ty.map (·.value)

def shape? (s : Store) (t : Target) : Option Shape := (s.cell t).shape.map (·.value)

def tag (s : Store) (t : Target) : Tag := ((s.ty? t).map (·.tag)).getD .unknown

def isUntyped (s : Store) (t : Target) : Bool := !(s.tag t).isKnown

/-- A known type was written in this pass. -/
def hasTypeThisPass (s : Store) (t : Target) : Bool :=
  (s.cell t).ty.any fun m => m.pass == s.pass && m.value.isKnown

def hasShapeThisPass (s : Store) (t : Target) : Bool := (s.cell t).shape.any (·.pass == s.pass)

def forceType (s : Store) (t : Target) (ty : Ty) : Store :=
  s.modifyCell (fun c => { c with ty := some ⟨ty, s.pass⟩ }) t

/-- Writes a type unless a known one was written in this pass, and tells whether it did. -/
def markType (s : Store) (t : Target) (ty : Ty) : Bool × Store :=
  if s.hasTypeThisPass t then (false, s) else (true, s.forceType t ty)

/-- Replaces a type and leaves the pass of its write as it is. -/
def reimply (s : Store) (t : Target) (ty : Ty) : Store :=
  let write (c : Cell) : Cell :=
    match c.ty with
    | some m => { c with ty := some { m with value := ty } }
    | none => { c with ty := some ⟨ty, s.pass⟩ }
  s.modifyCell write t

def forceShape (s : Store) (t : Target) (shape : Shape) : Store :=
  s.modifyCell (fun c => { c with shape := some ⟨shape, s.pass⟩ }) t

/-- Writes a shape unless one was written in this pass, and tells whether it did. -/
def markShape (s : Store) (t : Target) : Option Shape → Bool × Store
  | none => (false, s)
  | some shape => if s.hasShapeThisPass t then (false, s) else (true, s.forceShape t shape)

def touch (s : Store) (x : Tracked) : Store := { s with touched := s.touched.insert x }

def markKnown (s : Store) (x : Tracked) : Store := { s with known := s.known.insert x }

def isTouched (s : Store) (x : Tracked) : Bool := x ∈ s.touched

/-- Something was read in this pass before it became known, so another pass may see more. -/
def needsAnotherPass (s : Store) : Bool := s.touched.any (· ∈ s.known)

def functionShape? (s : Store) (f : FuncId) : Option FuncShapeId := s.byFunction[f]?.join

/-- The place of the shape of a function, and whether the shape is still to be made. -/
def functionPlace (s : Store) (f : FuncId) : FuncShapeId × Bool :=
  match s.functionShape? f with
  | some id => (id, false)
  | none => (s.arena.size, true)

/-- Makes the shape of a function on first use. -/
def makeFunction (s : Store) (f : FuncId) : Store :=
  match s.functionShape? f with
  | some _ => s
  | none => { s with
      arena := s.arena.push (.ofFunction f)
      byFunction := s.byFunction.setIfInBounds f (some s.arena.size) }

def functionShape (s : Store) (f : FuncId) : (FuncShapeId × Bool) × Store :=
  (s.functionPlace f, s.makeFunction f)

/-- The place of the shape of a built-in constructor, or where it will be made. -/
def nativePlace (s : Store) (name : String) : FuncShapeId :=
  (s.natives.lookup name).getD s.arena.size

/-- Makes the shape of a built-in constructor on first use. -/
def makeNative (s : Store) (name : String) (result : Tag) : Store :=
  match s.natives.lookup name with
  | some _ => s
  | none => { s with
      arena := s.arena.push (.native result)
      natives := (name, s.arena.size) :: s.natives }

def native (s : Store) (name : String) (result : Tag) : FuncShapeId × Store :=
  (s.nativePlace name, s.makeNative name result)

def modifyFunc (s : Store) (id : FuncShapeId) (f : FuncShape → FuncShape) : Store :=
  { s with arena := s.arena.modify id f }

end Store
end TagCheck
