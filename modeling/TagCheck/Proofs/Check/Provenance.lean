import TagCheck.Proofs.Check.Closed
import TagCheck.Proofs.Shape.Gathered
import TagCheck.Proofs.Shape.Rendering

/-! The shapes in a state. They come from the store, from functions, from descriptors and from the
elements of array literals. In a proper state all of them refer to places of the arena, and what
describes an array shape is read as that shape. -/
namespace TagCheck

inductive Store.HasShape (s : Store) : Shape → Prop
  | cell {t : Target} {x : Shape} (hx : s.shape? t = some x) : HasShape s x
  | param {id : FuncShapeId} {f : FuncShape} {p : Slot} {x : Shape}
    (hf : s.arena.get? id = some f) (hp : p ∈ f.params) (hx : p.shape = some x) : HasShape s x
  | result {id : FuncShapeId} {f : FuncShape} {x : Shape} (hf : s.arena.get? id = some f)
    (hx : f.ret.shape = some x) : HasShape s x

section

variable (P : Shape → Prop)

def Store.AllShapes (s : Store) : Prop := ∀ x, s.HasShape x → P x

/-- The shapes that a write brings with it are as `P` says. -/
def Write.Carries : Write → Prop
  | shape _ x => ∀ y ∈ x, P y
  | forceShape _ x => P x
  | func _ f => ∀ g : FuncShape, g.AllShapes P → (f g).AllShapes P
  | _ => True

end

variable {P : Shape → Prop}

namespace Store

variable {s : Store}

theorem AllShapes.shape? (h : s.AllShapes P) (t : Target) : ∀ x ∈ s.shape? t, P x :=
  fun x hx => h x (.cell hx)

theorem AllShapes.get? (h : s.AllShapes P) (id : FuncShapeId) :
    ∀ f ∈ s.arena.get? id, f.AllShapes P :=
  fun _ hf => ⟨fun _ hp x hx => h x (.param hf hp hx), fun x hx => h x (.result hf hx)⟩

theorem allShapes_of (hcells : ∀ t, ∀ x ∈ s.shape? t, P x)
    (hfuncs : ∀ id, ∀ f ∈ s.arena.get? id, f.AllShapes P) : s.AllShapes P := by
  intro x hx
  cases hx with
  | cell hx => exact hcells _ x hx
  | param hf hp hx => exact (hfuncs _ _ hf).params _ hp x hx
  | result hf hx => exact (hfuncs _ _ hf).ret x hx

end Store

namespace Write

/-- A target keeps its shape, or takes the one that is written to it. -/
theorem shape?_onStore (w : Write) (s : Store) (t : Target) :
    (w.onStore s).shape? t = s.shape? t ∨ ∃ x, (w = .shape t (some x) ∨
      ∃ n, t = .node n ∧ w = .forceShape n x) ∧ (w.onStore s).shape? t = some x := by
  have hforce (u : Target) (x : Shape) : (s.forceShape u x).shape? t = s.shape? t ∨
      u = t ∧ (s.forceShape u x).shape? t = some x := by
    simp only [Store.shape?, Store.shape_cell_forceShape]
    split
    · next hu => exact .inr ⟨hu.1, rfl⟩
    · exact .inl rfl
  cases w with
  | type u ty =>
    simp only [onStore, Store.markType]
    split
    · exact .inl rfl
    · exact .inl (by simp [Store.shape?, Store.shape_cell_forceType])
  | reimply b ty => exact .inl (by simp [onStore, Store.shape?, Store.shape_cell_reimply])
  | shape u x =>
    cases x with
    | none => exact .inl rfl
    | some x =>
      simp only [onStore, Store.markShape]
      split
      · exact .inl rfl
      · rcases hforce u x with hkeep | ⟨rfl, hnew⟩
        · exact .inl hkeep
        · exact .inr ⟨x, .inl rfl, hnew⟩
  | forceShape n x =>
    rcases hforce (.node n) x with hkeep | ⟨rfl, hnew⟩
    · exact .inl hkeep
    · exact .inr ⟨x, .inr ⟨n, rfl, rfl⟩, hnew⟩
  | function f =>
    simp only [onStore, Store.makeFunction]
    split <;> exact .inl rfl
  | native name result =>
    simp only [onStore, Store.makeNative]
    split <;> exact .inl rfl
  | _ => exact .inl rfl

/-- A function shape was there, is a changed one, or is new and has no shapes. -/
theorem of_get?_onStore {w : Write} {s : Store} {id : FuncShapeId} {f : FuncShape}
    (h : (w.onStore s).arena.get? id = some f) : s.arena.get? id = some f ∨
      (∃ g k, w = .func id g ∧ s.arena.get? id = some k ∧ f = g k) ∨
      (∃ k, f = .ofFunction k) ∨ ∃ result, f = .native result := by
  have hpush {g : FuncShape} (h : (s.arena.push g).get? id = some f) :
      s.arena.get? id = some f ∨ f = g := by
    simp only [Arena.get?, Arena.push, Array.getElem?_push] at h ⊢
    split at h
    · exact .inr (Option.some.inj h).symm
    · exact .inl h
  rcases arena_cases w s with ⟨hs, -⟩ | ⟨k, g, rfl⟩ | ⟨k, -, hs⟩ | ⟨name, result, -, hs⟩
  · exact .inl (hs ▸ h)
  · simp only [onStore, Store.modifyFunc, Arena.get?_modify] at h
    split at h
    · next hk =>
      obtain ⟨k', hk', rfl⟩ := Option.map_eq_some_iff.1 h
      exact .inr (.inl ⟨g, k', hk ▸ rfl, hk', rfl⟩)
    · exact .inl h
  · rw [hs] at h
    exact (hpush h).imp_right fun h => .inr (.inl ⟨k, h⟩)
  · rw [hs] at h
    exact (hpush h).imp_right fun h => .inr (.inr ⟨result, h⟩)

theorem Carries.allShapes {w : Write} {s : Store} (hw : w.Carries P) (hs : s.AllShapes P) :
    (w.onStore s).AllShapes P := by
  refine Store.allShapes_of (fun t x hx => ?_) fun id f hf => ?_
  · rcases w.shape?_onStore s t with hkeep | ⟨y, hy, hnew⟩
    · exact hs.shape? t x (hkeep ▸ hx)
    · obtain rfl : y = x := Option.some.inj (hnew.symm.trans hx)
      rcases hy with rfl | ⟨n, -, rfl⟩
      · exact hw y rfl
      · exact hw
  · rcases of_get?_onStore hf with hf | ⟨g, k, rfl, hk, rfl⟩ | ⟨k, rfl⟩ | ⟨result, rfl⟩
    · exact hs.get? id f hf
    · exact hw k (hs.get? id k hk)
    · exact .ofFunction k
    · exact .native result

end Write

def Shape.IsCanonical : Shape → Prop
  | func _ => True
  | array s => s.IsCanonical

namespace Gathered

/-- The shapes that are gathered from elements are shapes of the store. -/
theorem isCanonical_of_mem_elements {store : Store} (hstore : store.AllShapes Shape.IsCanonical)
    {g : Gathered} (hg : ∀ s ∈ g.shapes, s.IsCanonical) (es : List Element) :
    ∀ s ∈ (g.elements store es).shapes, s.IsCanonical := by
  fun_induction g.elements store es with
  | case1 => exact hg
  | case2 g es ih => exact ih (by rwa [shapes_addTag])
  | case3 | case5 => exact hg
  | case4 g e es t hknown ih =>
    refine ih fun s hs => ?_
    rcases of_mem_shapes_addShape hs with hs | hs
    · exact hg s (by rwa [shapes_addTag] at hs)
    · obtain ⟨x, hx, hs⟩ := Option.bind_eq_some_iff.1 hs
      have hcanonical := hstore.shape? _ x hx
      cases x with
      | func id => cases hs
      | array s' =>
        cases hs
        exact hcanonical

theorem isCanonical_toShape {g : Gathered} (h : ∀ s ∈ g.shapes, s.IsCanonical) :
    g.toShape.IsCanonical := by
  rcases g.toShape_cases with ⟨d, heq⟩ | ⟨s, hs, heq⟩ | ⟨t, -, heq⟩
  · exact heq ▸ ArrayShape.isCanonical_nestedAny d
  · exact heq ▸ (h s hs).arrayOf
  · exact heq ▸ ArrayShape.isCanonical_ofElem t

end Gathered

theorem Store.isCanonical_inferArrayShape {store : Store}
    (h : store.AllShapes Shape.IsCanonical) (es : List Element) :
    (store.inferArrayShape es).IsCanonical :=
  Gathered.isCanonical_toShape (Gathered.isCanonical_of_mem_elements h (by simp) es)

/-- A shape as it may be in a state whose arena has the places below the bound. -/
structure Shape.Proper (bound : Nat) (x : Shape) : Prop where
  below : x.Below bound
  isCanonical : x.IsCanonical

theorem Shape.Proper.mono {x : Shape} {bound bound' : Nat} (h : x.Proper bound)
    (hle : bound ≤ bound') : x.Proper bound' :=
  ⟨h.below.mono hle, h.isCanonical⟩

theorem Shape.Proper.isCanonical_of_asArray? {x : Shape} {bound : Nat} {s : ArrayShape}
    (h : x.Proper bound) (hs : x.asArray? = some s) : s.IsCanonical := by
  cases x with
  | func id => cases hs
  | array t =>
    cases hs
    exact h.isCanonical

/-- All shapes are as they may be, and all places that are referred to are places of the arena. -/
structure CheckState.Proper (s : CheckState) : Prop where
  shapes : s.store.AllShapes (Shape.Proper s.store.arena.size)
  functions : ∀ f id, s.store.functionShape? f = some id → id < s.store.arena.size
  natives : ∀ x ∈ s.store.natives, x.2 < s.store.arena.size
  frames : ∀ id ∈ s.frames, id < s.store.arena.size

theorem CheckState.Proper.closed {s : CheckState} (h : s.Proper) : s.Closed where
  store := {
    shapes t x hx := (h.shapes.shape? t x hx).below
    funcs id f hf := ⟨fun p hp x hx => ((h.shapes.get? id f hf).params p hp x hx).below,
      fun x hx => ((h.shapes.get? id f hf).ret x hx).below⟩
    functions := h.functions
    natives := h.natives }
  frames := h.frames

theorem CheckState.Proper.allShapes {s : CheckState} (h : s.Proper) :
    s.store.AllShapes Shape.IsCanonical :=
  fun x hx => (h.shapes x hx).isCanonical

end TagCheck
