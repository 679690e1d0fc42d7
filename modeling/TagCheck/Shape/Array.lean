import TagCheck.Tag

/-! Shapes of arrays and tuples, equality on them, and when an array of one shape may stand for an
array of another. -/
namespace TagCheck

/-- The type of an element: a tag, or a name that a registered validator explains. -/
inductive ElemName where
  | builtin (tag : Tag)
  | named (name : String)
  deriving DecidableEq, Repr, Inhabited

namespace ElemName

def ofName (s : String) : ElemName :=
  match Tag.ofName? s with
  | some t => .builtin t
  | none => .named s

def text : ElemName → String
  | builtin t => t.name
  | named s => s

def fits : ElemName → ElemName → Bool
  | .builtin .unknown, _ => false
  | _, .builtin .any => true
  | .builtin s, .builtin t => s.fits t
  | .named s, .named t => s == t
  | _, _ => false

end ElemName

mutual

structure ArrayShape where
  contents : Contents
  nonEmpty : Bool
  description : String

inductive Contents where
  /-- Any number of elements of one type. -/
  | simple (elem : ElemName)
  /-- Exactly these members, in order. -/
  | tuple (members : List Member)
  /-- Any number of arrays of one shape. -/
  | nested (inner : ArrayShape)

inductive Member where
  | elem (name : ElemName)
  | shape (inner : ArrayShape)

end

instance : Inhabited ArrayShape := ⟨⟨.tuple [], false, ""⟩⟩

mutual

def ArrayShape.beq : ArrayShape → ArrayShape → Bool
  | ⟨c, n, d⟩, ⟨c', n', d'⟩ => c.beq c' && n == n' && d == d'

def Contents.beq : Contents → Contents → Bool
  | .simple a, .simple b => a == b
  | .tuple ms, .tuple ms' => Member.beqList ms ms'
  | .nested s, .nested t => s.beq t
  | _, _ => false

def Member.beq : Member → Member → Bool
  | .elem a, .elem b => a == b
  | .shape s, .shape t => s.beq t
  | _, _ => false

def Member.beqList : List Member → List Member → Bool
  | [], [] => true
  | m :: ms, n :: ns => m.beq n && Member.beqList ms ns
  | _, _ => false

end

mutual

theorem ArrayShape.beq_iff : (s t : ArrayShape) → (s.beq t = true ↔ s = t)
  | ⟨c, n, d⟩, ⟨c', n', d'⟩ => by
    simp [ArrayShape.beq, Contents.beq_iff c c', and_assoc]

theorem Contents.beq_iff : (s t : Contents) → (s.beq t = true ↔ s = t)
  | .simple a, t => by cases t <;> simp [Contents.beq]
  | .tuple ms, t => by
    cases t with
    | tuple ms' => simp [Contents.beq, Member.beqList_iff ms ms']
    | _ => simp [Contents.beq]
  | .nested s, t => by
    cases t with
    | nested t => simp [Contents.beq, ArrayShape.beq_iff s t]
    | _ => simp [Contents.beq]

theorem Member.beq_iff : (s t : Member) → (s.beq t = true ↔ s = t)
  | .elem a, t => by cases t <;> simp [Member.beq]
  | .shape s, t => by
    cases t with
    | shape t => simp [Member.beq, ArrayShape.beq_iff s t]
    | _ => simp [Member.beq]

theorem Member.beqList_iff : (s t : List Member) → (Member.beqList s t = true ↔ s = t)
  | [], t => by cases t <;> simp [Member.beqList]
  | m :: ms, t => by
    cases t with
    | nil => simp [Member.beqList]
    | cons n ns => simp [Member.beqList, Member.beq_iff m n, Member.beqList_iff ms ns]

end

instance : DecidableEq ArrayShape := fun s t => decidable_of_iff _ (ArrayShape.beq_iff s t)

namespace ArrayShape

/-- Arrays of one element type. -/
def ofElem (e : ElemName) : ArrayShape := ⟨.simple e, false, e.text ++ "[]"⟩

/-- Arrays of whatever. -/
def any : ArrayShape := ofElem (.builtin .any)

/-- Arrays of arrays of a shape. -/
def arrayOf (inner : ArrayShape) : ArrayShape := ⟨.nested inner, false, inner.description ++ "[]"⟩

/-- Arrays of whatever, wrapped `depth` times more. -/
def nestedAny : Nat → ArrayShape
  | 0 => any
  | depth + 1 => arrayOf (nestedAny depth)

def isTuple (s : ArrayShape) : Bool :=
  match s.contents with
  | .tuple _ => true
  | _ => false

/-- The count of array brackets at the end of the description. -/
def depth : ArrayShape → Nat
  | ⟨.tuple _, _, _⟩ => 0
  | ⟨.simple _, _, _⟩ => 1
  | ⟨.nested inner, _, _⟩ => 1 + inner.depth

end ArrayShape

mutual

/-- Whether an array of the first shape may be used where one of the second is expected. -/
def ArrayShape.fits : ArrayShape → ArrayShape → Bool
  | ⟨c, n, d⟩, t => decide (⟨c, n, d⟩ = t) || c.fits t.contents

def Contents.fits : Contents → Contents → Bool
  | _, .simple (.builtin .any) => true
  | .simple s, .simple t => s.fits t
  | .tuple ms, .tuple ns => Member.fitsList ms ns
  | .nested s, .nested t => s.fits t
  | _, _ => false

def Member.fits : Member → Member → Bool
  | .elem s, .elem t => s.fits t
  | .shape s, .shape t => s.fits t
  | _, _ => false

def Member.fitsList : List Member → List Member → Bool
  | [], [] => true
  | m :: ms, n :: ns => m.fits n && Member.fitsList ms ns
  | _, _ => false

end

end TagCheck
