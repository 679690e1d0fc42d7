import TagCheck.Check.Run
import TagCheck.Proofs.Renaming.Visits

/-! What the rules read off the parts of a program, apart from names: which elements a literal has
and which shape they give it, which value a pattern takes, which name a parameter has. -/
namespace TagCheck

variable {f : Ident → Ident} (hf : ∀ i, (f i).node = i.node)

namespace Element

def renameItem (f : Ident → Ident) : Element → Element
  | .hole => .hole
  | .item e => .item (e.rename f)
  | .spread n e => .spread n (e.rename f)

theorem rename_eq_map (f : Ident → Ident) (es : List Element) :
    Element.rename f es = es.map (renameItem f) := by
  induction es with
  | nil => rfl
  | cons e es ih => cases e <;> simp [Element.rename, renameItem, ih]

theorem length_rename (f : Ident → Ident) (es : List Element) :
    (Element.rename f es).length = es.length := by
  rw [rename_eq_map, List.length_map]

theorem any_isSpread_rename (f : Ident → Ident) (es : List Element) :
    (Element.rename f es).any isSpread = es.any isSpread := by
  rw [rename_eq_map, List.any_map]
  congr 1
  funext e
  cases e <;> rfl

end Element

section

include hf

theorem Gathered.elements_rename (store : Store) (g : Gathered) (es : List Element) :
    g.elements store (Element.rename f es) = g.elements store es := by
  induction es generalizing g with
  | nil => rfl
  | cons e es ih =>
    cases e with
    | hole => simp only [Element.rename, Gathered.elements, ih]
    | item e => simp only [Element.rename, Gathered.elements, e.id_rename hf, ih]
    | spread n e => simp only [Element.rename, Gathered.elements]

theorem Store.inferArrayShape_rename (store : Store) (es : List Element) :
    store.inferArrayShape (Element.rename f es) = store.inferArrayShape es := by
  rw [inferArrayShape, inferArrayShape, Gathered.elements_rename hf]

theorem Store.elementHasType_rename (store : Store) (name : ElemName) (e : Element) :
    store.elementHasType name (e.renameItem f) = store.elementHasType name e := by
  cases e with
  | item e => simp only [Element.renameItem, elementHasType, e.id_rename hf]
  | _ => rfl

/-- A literal is looked at element by element, any other value by its own shape. -/
theorem Store.valueFits_rename_of_admits {store : Store} {shape : ArrayShape}
    (h : ∀ es, shape.admits store (Element.rename f es) = shape.admits store es) (e : Expr) :
    store.valueFits shape (e.rename f) = store.valueFits shape e := by
  cases e with
  | array n es => exact h es
  | ident i => simp [valueFits, Expr.rename, Expr.id, Expr.node, hf]
  | template n t | tagged n tag t => cases t; rfl
  | function g => cases g; rfl
  | _ => rfl

theorem Member.admits_rename_of_admits {store : Store} {shape : ArrayShape}
    (h : ∀ es, shape.admits store (Element.rename f es) = shape.admits store es) (e : Element) :
    (Member.shape shape).admits store (e.renameItem f) = (Member.shape shape).admits store e := by
  cases e with
  | item e =>
    rw [Element.renameItem, Member.admits_shape, Member.admits_shape,
      store.valueFits_rename_of_admits hf h]
  | _ => simp [Element.renameItem, Member.admits]

omit hf

mutual

theorem ArrayShape.admits_rename (hf : ∀ i, (f i).node = i.node) (store : Store) :
    (shape : ArrayShape) → ∀ es, shape.admits store (Element.rename f es) = shape.admits store es
  | ⟨contents, nonEmpty, _⟩, es => by
    rw [ArrayShape.admits, ArrayShape.admits, contents.admits_rename hf store nonEmpty es]

theorem Contents.admits_rename (hf : ∀ i, (f i).node = i.node) (store : Store) (nonEmpty : Bool) :
    (contents : Contents) → ∀ es,
    contents.admits store nonEmpty (Element.rename f es) = contents.admits store nonEmpty es
  | .simple name, es => by
    have htype : store.elementHasType name ∘ Element.renameItem f = store.elementHasType name :=
      funext fun e => store.elementHasType_rename hf name e
    simp [Contents.admits, Element.rename_eq_map, List.all_map, htype]
  | .tuple members, es => by
    rw [Contents.admits, Contents.admits, Element.length_rename,
      Member.admitsList_rename hf store members es]
  | .nested inner, es => by
    have hmember : (Member.shape inner).admits store ∘ Element.renameItem f =
        (Member.shape inner).admits store :=
      funext (Member.admits_rename_of_admits hf (inner.admits_rename hf store))
    simp [Contents.admits_nested, Element.rename_eq_map, List.all_map, hmember]

theorem Member.admits_rename (hf : ∀ i, (f i).node = i.node) (store : Store) :
    (m : Member) → ∀ e : Element, m.admits store (e.renameItem f) = m.admits store e
  | .elem name, e => by
    rw [Member.admits, Member.admits, store.elementHasType_rename hf name e]
  | .shape inner, e => Member.admits_rename_of_admits hf (inner.admits_rename hf store) e

theorem Member.admitsList_rename (hf : ∀ i, (f i).node = i.node) (store : Store) :
    (ms : List Member) → ∀ es,
    Member.admitsList store ms (Element.rename f es) = Member.admitsList store ms es
  | [], _ => by simp [Member.admitsList]
  | m :: ms, [] => rfl
  | m :: ms, e :: es => by
    rw [Element.rename_eq_map, List.map_cons, ← Element.rename_eq_map, Member.admitsList,
      Member.admitsList, m.admits_rename hf store e, Member.admitsList_rename hf store ms es]

end

include hf

theorem Store.valueFits_rename (store : Store) (shape : ArrayShape) (e : Expr) :
    store.valueFits shape (e.rename f) = store.valueFits shape e :=
  Store.valueFits_rename_of_admits hf (shape.admits_rename hf store) e

theorem Check.implied?_rename (p : Pattern) :
    Check.Parameter.implied? (p.rename f) =
      (Check.Parameter.implied? p).map fun x => (f x.1, x.2) := by
  cases p with
  | withDefault n target value => cases target <;> simp [Pattern.rename, Parameter.implied?, hf]
  | _ => rfl

end

theorem Pattern.renameList_eq (f : Ident → Ident) (ps : List Pattern) :
    Pattern.renameList f ps = ps.map (Pattern.rename f) := by
  induction ps with
  | nil => rfl
  | cons p ps ih => rw [Pattern.renameList, ih, List.map_cons]

theorem Pattern.simpleName?_rename (f : Ident → Ident) (p : Pattern) :
    (p.rename f).simpleName? = p.simpleName?.map f := by
  cases p with
  | withDefault n target value => exact target.asIdent?_rename f
  | _ => rfl

theorem Property.find?_rename (f : Ident → Ident) (name : String) (ps : List Property) :
    Property.find? name (Property.rename f ps) = (Property.find? name ps).map (Expr.rename f) := by
  induction ps with
  | nil => rfl
  | cons p ps ih =>
    cases p with
    | keyValue k v shorthand =>
      cases k with
      | name k =>
        simp only [Property.rename, Key.rename, Property.find?, ih]
        split <;> rfl
      | computed e => simp only [Property.rename, Key.rename, Property.find?, ih]
    | _ => simp only [Property.rename, Property.find?, ih]

namespace Check

theorem arrayElements?_rename (f : Ident → Ident) (e : Expr) :
    arrayElements? (e.rename f) = (arrayElements? e).map (Element.rename f) := by
  cases e with
  | template n t | tagged n tag t => cases t; rfl
  | _ => rfl

theorem objectProps?_rename (f : Ident → Ident) (e : Expr) :
    objectProps? (e.rename f) = (objectProps? e).map (Property.rename f) := by
  cases e with
  | template n t | tagged n tag t => cases t; rfl
  | _ => rfl

theorem rename_ne_object (f : Ident → Ident) {e : Expr} (h : ∀ n ps, e ≠ .object n ps) (n : Node)
    (ps : List Property) : e.rename f ≠ .object n ps := by
  cases e with
  | object m props => exact absurd rfl (h m props)
  | template m t | tagged m tag t => cases t; simp [Expr.rename]
  | _ => simp [Expr.rename]

end Check
end TagCheck
