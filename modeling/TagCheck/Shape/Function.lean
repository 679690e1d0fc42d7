import TagCheck.Shape.Array
import TagCheck.Source

/-! Shapes of functions. They live in an arena and refer to each other by their place in it, also
in circles, since a function may take or return itself. -/
namespace TagCheck

inductive Shape where
  | func (id : FuncShapeId)
  | array (shape : ArrayShape)
  deriving DecidableEq, Inhabited

namespace Shape

def asFunc? : Shape → Option FuncShapeId
  | func id => some id
  | array _ => none

def asArray? : Shape → Option ArrayShape
  | func _ => none
  | array s => some s

end Shape

/-- A parameter of a function shape. -/
structure Slot where
  ty : Ty
  shape : Option Shape := none
  deriving DecidableEq, Inhabited

/-- What a function returns. It is `isDefault` while the body has given no known type in the
current pass, and `isExplicit` once a `return` was seen. -/
structure ReturnSlot where
  ty : Ty
  shape : Option Shape
  isDefault : Bool
  isExplicit : Bool
  deriving DecidableEq, Inhabited

structure FuncShape where
  params : List Slot
  hasRest : Bool
  ret : ReturnSlot
  /-- The function of the program with this shape; the built-in ones have none. -/
  origin : Option FuncId
  deriving DecidableEq, Inhabited

namespace FuncShape

def ofFunction (f : FuncId) : FuncShape :=
  ⟨[], false, ⟨.inferred .undef, none, true, false⟩, some f⟩

/-- A built-in constructor: one parameter of any type, and a fixed result. -/
def native (result : Tag) : FuncShape :=
  ⟨[⟨.tagged .any, none⟩], false, ⟨.inferred result, none, false, true⟩, none⟩

end FuncShape

/-- All function shapes of a run, by their ids. -/
structure Arena where
  shapes : Array FuncShape := #[]
  deriving Inhabited

namespace Arena

def size (a : Arena) : Nat := a.shapes.size

def get? (a : Arena) (id : FuncShapeId) : Option FuncShape := a.shapes[id]?

def push (a : Arena) (f : FuncShape) : Arena := ⟨a.shapes.push f⟩

def modify (a : Arena) (id : FuncShapeId) (f : FuncShape → FuncShape) : Arena :=
  ⟨a.shapes.modify id f⟩

theorem lt_size_of_get? {a : Arena} {id : FuncShapeId} {f : FuncShape}
    (h : a.get? id = some f) : id < a.size := by
  obtain ⟨h, _⟩ := Array.getElem?_eq_some_iff.1 h
  exact h

end Arena
end TagCheck
