import TagCheck.Check.State

/-! The shapes of array literals. -/
namespace TagCheck

/-- The types and the shapes of elements, each once, in the order of their first occurrence. -/
structure Gathered where
  tags : List Tag := []
  shapes : List ArrayShape := []

namespace Gathered

def addTag (g : Gathered) (t : Tag) : Gathered :=
  if t ∈ g.tags then g else { g with tags := g.tags ++ [t] }

/-- Shapes of one description count as one. -/
def addShape (g : Gathered) : Option ArrayShape → Gathered
  | none => g
  | some s =>
    if g.shapes.any (·.description == s.description) then g
    else { g with shapes := g.shapes ++ [s] }

/-- Gathers up to the first element of unknown type, which hides the types before it. -/
def elements (store : Store) (g : Gathered) : List Element → Gathered
  | [] => g
  | .hole :: es => (g.addTag .undef).elements store es
  | .spread _ _ :: _ => { g with tags := [.unknown] }
  | .item e :: es =>
    let t := store.tag (.node e.id)
    if t.isKnown then
      ((g.addTag t).addShape ((store.shape? (.node e.id)).bind Shape.asArray?)).elements store es
    else { g with tags := [.unknown] }

/-- One type gives an array of it, one shape an array of it. Several shapes give arrays of whatever
to the least of their depths, and several types give an array of whatever. -/
def toShape (g : Gathered) : ArrayShape :=
  match g.shapes, g.tags with
  | s :: t :: rest, _ => .nestedAny ((t :: rest).foldl (fun d s => min d s.depth) s.depth)
  | _, _ :: _ :: _ => .any
  | [s], _ => .arrayOf s
  | [], [t] => .ofElem (.builtin t)
  | [], [] => .any

end Gathered

def Store.inferArrayShape (store : Store) (es : List Element) : ArrayShape :=
  (({} : Gathered).elements store es).toShape

/-- Whether an element is of a type. Holes and spreads are of none. -/
def Store.elementHasType (store : Store) (name : ElemName) : Element → Bool
  | .item e => (ElemName.builtin (store.tag (.node e.id))).fits name
  | _ => false

mutual

/-- Whether the elements of a literal, and those of the literals among them, are as the shape
says. -/
def ArrayShape.admits (store : Store) : ArrayShape → List Element → Bool
  | ⟨contents, nonEmpty, _⟩, es => contents.admits store nonEmpty es

def Contents.admits (store : Store) (nonEmpty : Bool) : Contents → List Element → Bool
  | .simple name, es => !(nonEmpty && es.isEmpty) && es.all (store.elementHasType name)
  | .tuple members, es => es.length == members.length && Member.admitsList store members es
  | .nested inner, es =>
    !(nonEmpty && es.isEmpty) && es.all fun
      | .item (.array _ nested) => inner.admits store nested
      | .item e => store.arena.fits (store.shape? (.node e.id)) (some (.array inner))
      | _ => false

def Member.admits (store : Store) : Member → Element → Bool
  | .elem name, e => store.elementHasType name e
  | .shape inner, .item (.array _ nested) => inner.admits store nested
  | .shape inner, .item e => store.arena.fits (store.shape? (.node e.id)) (some (.array inner))
  | .shape _, _ => false

def Member.admitsList (store : Store) : List Member → List Element → Bool
  | m :: ms, e :: es => m.admits store e && Member.admitsList store ms es
  | _, _ => true

end

/-- Whether the value of an expression is of an array shape. A literal is looked at element by
element. -/
def Store.valueFits (store : Store) (shape : ArrayShape) : Expr → Bool
  | .array _ es => shape.admits store es
  | e => store.arena.fits (store.shape? (.node e.id)) (some (.array shape))

theorem Member.admits_shape (s : Store) (inner : ArrayShape) (e : Expr) :
    (Member.shape inner).admits s (.item e) = s.valueFits inner e := by
  cases e <;> simp [Member.admits, Store.valueFits]

theorem Contents.admits_nested (s : Store) (nonEmpty : Bool) (inner : ArrayShape)
    (es : List Element) : (Contents.nested inner).admits s nonEmpty es =
      (!(nonEmpty && es.isEmpty) && es.all ((Member.shape inner).admits s ·)) := by
  rw [Contents.admits]
  congr 2
  funext element
  cases element with
  | item e => cases e <;> simp [Member.admits]
  | _ => simp [Member.admits]

namespace Check

def arrayLiteral (n : Node) (es : List Element) : Check Unit := do
  markType (.node n.id) (.inferred .array)
  let shape := (← getStore).inferArrayShape es
  info .arrayShape ("Array literal shape: '" ++ shape.description ++ "'") n.pos
  put (.forceShape n.id (.array shape))

/-- A spread in an array or a call is to be an array, and in an object an object. -/
def spread (pos : Position) (argument : NodeId) (expected : Tag) : Check Unit := do
  let found ← tagOf (.node argument)
  let label := "Spread element type mismatch"
  if !found.isKnown then unexpected .spreadUnknownType label found expected.name pos
  else if !found.fits expected then unexpected .spreadType label found expected.name pos

end Check
end TagCheck
