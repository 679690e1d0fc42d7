import TagCheck.Check.Call
import TagCheck.Proofs.Check.Writes

/-! Function shapes are referred to by their places in the arena. A store is closed if all the
places that it refers to are there; what the rules write keeps it so. -/
namespace TagCheck

/-- The shape refers to no place from the bound on. -/
def Shape.Below (bound : Nat) : Shape → Prop
  | func id => id < bound
  | array _ => True

theorem Shape.Below.mono {x : Shape} {bound bound' : Nat} (h : x.Below bound)
    (hle : bound ≤ bound') : x.Below bound' := by
  cases x with
  | func id => exact Nat.lt_of_lt_of_le h hle
  | array s => trivial

structure FuncShape.AllShapes (P : Shape → Prop) (f : FuncShape) : Prop where
  params : ∀ p ∈ f.params, ∀ x ∈ p.shape, P x
  ret : ∀ x ∈ f.ret.shape, P x

theorem Shape.forall_orElse {P : Shape → Prop} {x y : Option Shape} (hx : ∀ z ∈ x, P z)
    (hy : ∀ z ∈ y, P z) : ∀ z ∈ (x <|> y), P z := by
  cases x with
  | none => simpa using hy
  | some x => simpa using hx

namespace FuncShape.AllShapes

variable {P : Shape → Prop} {f : FuncShape}

theorem ofFunction (k : FuncId) : (FuncShape.ofFunction k).AllShapes P :=
  ⟨by simp [FuncShape.ofFunction], by simp [FuncShape.ofFunction]⟩

theorem native (result : Tag) : (FuncShape.native result).AllShapes P :=
  ⟨by simp [FuncShape.native], by simp [FuncShape.native]⟩

theorem append (h : f.AllShapes P) {p : Slot} (hp : ∀ x ∈ p.shape, P x) :
    AllShapes P { f with params := f.params ++ [p] } :=
  ⟨List.forall_mem_append.2 ⟨h.params, by simpa using hp⟩, h.ret⟩

theorem modify (h : f.AllShapes P) (idx : Nat) {write : Slot → Slot}
    (hwrite : ∀ p : Slot, (∀ x ∈ p.shape, P x) → ∀ x ∈ (write p).shape, P x) :
    AllShapes P { f with params := f.params.modify idx write } := by
  refine ⟨fun p hp => ?_, h.ret⟩
  obtain ⟨i, hi⟩ := List.mem_iff_getElem?.1 hp
  rw [List.getElem?_modify] at hi
  obtain ⟨q, hq, rfl⟩ := Option.map_eq_some_iff.1 hi
  have hparam := h.params q (List.mem_of_getElem? hq)
  split
  · exact hwrite q hparam
  · exact hparam

theorem setParam (h : f.AllShapes P) (idx : Nat) (ty : Ty) {shape : Option Shape}
    (hshape : ∀ x ∈ shape, P x) : (f.setParam idx ty shape).AllShapes P := by
  unfold FuncShape.setParam
  split
  · exact h.modify idx fun _ hp => Shape.forall_orElse hshape hp
  · exact h.append hshape

theorem implyParam (h : f.AllShapes P) (idx : Nat) (ty : Ty) {shape : Option Shape}
    (hshape : ∀ x ∈ shape, P x) : (f.implyParam idx ty shape).AllShapes P :=
  h.modify idx fun _ hp => Shape.forall_orElse hshape hp

end FuncShape.AllShapes

structure FuncShape.Below (bound : Nat) (f : FuncShape) : Prop where
  params : ∀ p ∈ f.params, ∀ x ∈ p.shape, x.Below bound
  ret : ∀ x ∈ f.ret.shape, x.Below bound

/-! Closed stores. -/

/-- All places that the store refers to are places of its arena. -/
structure Store.Closed (s : Store) : Prop where
  shapes : ∀ t x, s.shape? t = some x → x.Below s.arena.size
  funcs : ∀ id f, s.arena.get? id = some f → f.Below s.arena.size
  functions : ∀ f id, s.functionShape? f = some id → id < s.arena.size
  natives : ∀ x ∈ s.natives, x.2 < s.arena.size

structure CheckState.Closed (s : CheckState) : Prop where
  store : s.store.Closed
  frames : ∀ id ∈ s.frames, id < s.store.arena.size

namespace Store

theorem of_functionShape?_makeFunction {s : Store} {f k : FuncId} {id : FuncShapeId}
    (h : (s.makeFunction f).functionShape? k = some id) :
    s.functionShape? k = some id ∨ k = f ∧ s.functionShape? f = none ∧ id = s.arena.size := by
  unfold Store.makeFunction at h
  split at h
  · exact .inl h
  · next hf =>
    rw [functionShape?, Array.getElem?_setIfInBounds] at h
    split at h
    · next hk =>
      split at h
      · exact .inr ⟨hk.symm, hf, (Option.some.inj h).symm⟩
      · cases h
    · exact .inl h

/-- The place that a function is given is one of the arena. -/
theorem Closed.functionPlace_lt {s : Store} (h : s.Closed) (f : FuncId) :
    (s.functionPlace f).1 < (s.makeFunction f).arena.size := by
  unfold functionPlace Store.makeFunction
  cases hid : s.functionShape? f with
  | none => simp
  | some id => exact h.functions f id hid

theorem Closed.nativePlace_lt {s : Store} (h : s.Closed) (name : String) (result : Tag) :
    s.nativePlace name < (s.makeNative name result).arena.size := by
  unfold nativePlace Store.makeNative
  cases hid : s.natives.lookup name with
  | none => simp
  | some id =>
    obtain ⟨before, after, hnatives, -⟩ := List.lookup_eq_some_iff.1 hid
    exact h.natives (name, id) (by simp [hnatives])

end Store

end TagCheck
