import TagCheck.Check.State
import TagCheck.Proofs.Store.Cells

/-! What a single write does to the store: which slots it can change and what it leaves there. All
that is said about runs rests on these facts and on what the rules write. -/
namespace TagCheck

@[simp] theorem Write.store_apply (w : Write) (s : CheckState) :
    (w.apply s).store = w.onStore s.store := by
  cases w <;> rfl

namespace Arena

theorem get?_push_of_lt {a : Arena} {f : FuncShape} {id : FuncShapeId} (h : id < a.size) :
    (a.push f).get? id = a.get? id := by
  simp only [get?, push, size] at h ⊢
  rw [Array.getElem?_push, if_neg (Nat.ne_of_lt h)]

theorem get?_modify {a : Arena} {f : FuncShape → FuncShape} {id k : FuncShapeId} :
    (a.modify k f).get? id = if k = id then (a.get? id).map f else a.get? id :=
  Array.getElem?_modify

@[simp] theorem size_push (a : Arena) (f : FuncShape) : (a.push f).size = a.size + 1 := by
  simp [push, size]

@[simp] theorem size_modify (a : Arena) (id : FuncShapeId) (f : FuncShape → FuncShape) :
    (a.modify id f).size = a.size := by
  simp [modify, size]

end Arena

namespace Write

/-- A write goes to one slot of one cell, or it leaves all cells alone. -/
theorem onStore_cases (w : Write) (s : Store) :
    (∃ t ty, w = .type t ty ∧ s.hasTypeThisPass t = false ∧ w.onStore s = s.forceType t ty) ∨
      (∃ b ty, w = .reimply b ty ∧ w.onStore s = s.reimply (.binding b) ty) ∨
      (∃ t x, w.onStore s = s.forceShape t x) ∨
      ((w.onStore s).nodes = s.nodes ∧ (w.onStore s).bindings = s.bindings ∧
        (w.onStore s).pass = s.pass) := by
  cases w with
  | type t ty =>
    cases h : s.hasTypeThisPass t
    · exact Or.inl ⟨t, ty, rfl, h, by simp [onStore, Store.markType, h]⟩
    · simp [onStore, Store.markType, h]
  | reimply b ty => exact Or.inr (Or.inl ⟨b, ty, rfl, rfl⟩)
  | shape t x =>
    cases x with
    | none => simp [onStore, Store.markShape]
    | some x =>
      cases h : s.hasShapeThisPass t
      · exact Or.inr (Or.inr (Or.inl ⟨t, x, by simp [onStore, Store.markShape, h]⟩))
      · simp [onStore, Store.markShape, h]
  | forceShape n x => exact Or.inr (Or.inr (Or.inl ⟨.node n, x, rfl⟩))
  | function f =>
    simp only [onStore, Store.makeFunction]
    split <;> simp
  | native name result =>
    simp only [onStore, Store.makeNative]
    split <;> simp
  | _ => simp [onStore, Store.touch, Store.markKnown, Store.modifyFunc]

variable {w : Write} {s : Store}

@[simp] theorem pass_onStore : (w.onStore s).pass = s.pass := by
  rcases onStore_cases w s with ⟨t, ty, -, -, h⟩ | ⟨b, ty, -, h⟩ | ⟨t, x, h⟩ | ⟨-, -, h⟩
  · rw [h, Store.forceType, Store.pass_modifyCell]
  · rw [h, Store.reimply, Store.pass_modifyCell]
  · rw [h, Store.forceShape, Store.pass_modifyCell]
  · exact h

@[simp] theorem has_onStore {t : Target} : (w.onStore s).Has t ↔ s.Has t := by
  rcases onStore_cases w s with ⟨u, ty, -, -, h⟩ | ⟨b, ty, -, h⟩ | ⟨u, x, h⟩ | ⟨hn, hb, -⟩
  · rw [h, Store.forceType, Store.has_modifyCell]
  · rw [h, Store.reimply, Store.has_modifyCell]
  · rw [h, Store.forceShape, Store.has_modifyCell]
  · cases t <;> simp [Store.Has, hn, hb]

/-- The type slot of a target changes when a type is written to it that was not typed in this
pass, and when its type is implied anew. -/
theorem ty_cell_onStore (w : Write) (s : Store) (t : Target) :
    ((w.onStore s).cell t).ty = (s.cell t).ty ∨
      (∃ ty, w = .type t ty ∧ s.hasTypeThisPass t = false ∧
        ((w.onStore s).cell t).ty = some ⟨ty, s.pass⟩) ∨
      ∃ b ty, w = .reimply b ty ∧ t = .binding b ∧
        ((w.onStore s).cell t).ty = some ⟨ty, ((s.cell t).ty.map (·.pass)).getD s.pass⟩ := by
  rcases onStore_cases w s with ⟨u, ty, hw, hopen, h⟩ | ⟨b, ty, hw, h⟩ | ⟨u, x, h⟩ | ⟨hn, hb, -⟩
  · rw [h, Store.ty_cell_forceType]
    split
    · rename_i hu
      exact Or.inr (Or.inl ⟨ty, hu.1 ▸ hw, hu.1 ▸ hopen, rfl⟩)
    · exact Or.inl rfl
  · rw [h, Store.ty_cell_reimply]
    split
    · rename_i hb
      exact Or.inr (Or.inr ⟨b, ty, hw, hb.1.symm, rfl⟩)
    · exact Or.inl rfl
  · rw [h, Store.ty_cell_forceShape]
    exact Or.inl rfl
  · rw [Store.cell_congr hn hb]
    exact Or.inl rfl

/-- A target that is given a known type is typed in this pass. -/
theorem hasTypeThisPass_onStore_type {t : Target} {ty : Ty} (hhas : s.Has t)
    (hty : ty.isKnown = true) : ((Write.type t ty).onStore s).hasTypeThisPass t = true := by
  cases h : s.hasTypeThisPass t
  · have hstore : (Write.type t ty).onStore s = s.forceType t ty := by
      simp [onStore, Store.markType, h]
    refine Store.hasTypeThisPass_iff.2 ⟨⟨ty, s.pass⟩, ?_, by rw [pass_onStore], hty⟩
    rw [hstore, Store.ty_cell_forceType, if_pos ⟨rfl, hhas⟩]
  · simp [onStore, Store.markType, h]

/-- A shape slot that is filled stays so. -/
theorem isSome_shape_cell_onStore {t : Target} (h : (s.cell t).shape.isSome = true) :
    ((w.onStore s).cell t).shape.isSome = true := by
  rcases onStore_cases w s with ⟨u, ty, -, -, hs⟩ | ⟨b, ty, -, hs⟩ | ⟨u, x, hs⟩ | ⟨hn, hb, -⟩
  · rw [hs, Store.shape_cell_forceType, h]
  · rw [hs, Store.shape_cell_reimply, h]
  · rw [hs, Store.shape_cell_forceShape]
    split
    · rfl
    · exact h
  · rw [Store.cell_congr hn hb, h]

/-- A write changes or makes one function shape, or it leaves the arena and its tables alone. -/
theorem arena_cases (w : Write) (s : Store) :
    ((w.onStore s).arena = s.arena ∧ (w.onStore s).byFunction = s.byFunction ∧
        (w.onStore s).natives = s.natives) ∨
      (∃ id f, w = .func id f) ∨
      (∃ f, w = .function f ∧ w.onStore s = { s with
        arena := s.arena.push (.ofFunction f)
        byFunction := s.byFunction.setIfInBounds f (some s.arena.size) }) ∨
      ∃ name result, w = .native name result ∧ w.onStore s = { s with
        arena := s.arena.push (.native result)
        natives := (name, s.arena.size) :: s.natives } := by
  cases w with
  | type t ty =>
    simp only [onStore, Store.markType, Store.forceType]
    split <;> simp
  | shape t x =>
    cases x <;> simp only [onStore, Store.markShape, Store.forceShape]
    · simp
    · split <;> simp
  | function f =>
    simp only [onStore, Store.makeFunction]
    split
    · simp
    · exact .inr (.inr (.inl ⟨f, rfl, rfl⟩))
  | native name result =>
    simp only [onStore, Store.makeNative]
    split
    · simp
    · exact .inr (.inr (.inr ⟨name, result, rfl, rfl⟩))
  | func id f => exact .inr (.inl ⟨id, f, rfl⟩)
  | _ => simp [onStore, Store.touch, Store.markKnown, Store.reimply, Store.forceShape]

/-- A function shape stays where it is, and changes only by a write that names its place. -/
theorem get?_onStore {id : FuncShapeId} {f : FuncShape} (h : s.arena.get? id = some f) :
    (w.onStore s).arena.get? id = some f ∨
      ∃ g, w = .func id g ∧ (w.onStore s).arena.get? id = some (g f) := by
  have hlt : id < s.arena.size := Arena.lt_size_of_get? h
  rcases arena_cases w s with ⟨hs, -⟩ | ⟨k, g, rfl⟩ | ⟨g, -, hs⟩ | ⟨name, result, -, hs⟩
  · exact Or.inl (by rw [hs, h])
  · simp only [onStore, Store.modifyFunc, Arena.get?_modify]
    by_cases hk : k = id
    · subst hk
      exact Or.inr ⟨g, rfl, by rw [if_pos rfl, h, Option.map_some]⟩
    · exact Or.inl (by rw [if_neg hk, h])
  all_goals exact Or.inl (by rw [hs, Arena.get?_push_of_lt hlt, h])

/-- The arena only grows. -/
theorem size_arena_le (w : Write) (s : Store) : s.arena.size ≤ (w.onStore s).arena.size := by
  rcases arena_cases w s with ⟨hs, -⟩ | ⟨k, g, rfl⟩ | ⟨g, -, hs⟩ | ⟨name, result, -, hs⟩
  · exact Nat.le_of_eq (by rw [hs])
  · simp [onStore, Store.modifyFunc]
  all_goals simp [hs]

theorem size_byFunction_onStore (w : Write) (s : Store) :
    (w.onStore s).byFunction.size = s.byFunction.size := by
  rcases arena_cases w s with ⟨-, hs, -⟩ | ⟨k, g, rfl⟩ | ⟨g, -, hs⟩ | ⟨name, result, -, hs⟩
  · rw [hs]
  · rfl
  all_goals simp [hs]

theorem functionShape?_onStore (hw : ∀ f, w ≠ .function f) (s : Store) (k : FuncId) :
    (w.onStore s).functionShape? k = s.functionShape? k := by
  rcases arena_cases w s with ⟨-, hs, -⟩ | ⟨id, f, rfl⟩ | ⟨f, rfl, -⟩ | ⟨name, result, -, hs⟩
  · rw [Store.functionShape?, hs, Store.functionShape?]
  · rfl
  · exact absurd rfl (hw f)
  · rw [hs, Store.functionShape?, Store.functionShape?]

/-- Only the writes that note something change what is noted. -/
theorem notes_onStore (w : Write) (s : Store) :
    ((w.onStore s).touched = match w with
      | .touch x => s.touched.insert x
      | _ => s.touched) ∧
    ((w.onStore s).known = match w with
      | .known x => s.known.insert x
      | _ => s.known) := by
  cases w with
  | type t ty =>
    simp only [onStore, Store.markType, Store.forceType]
    split <;> simp
  | shape t x =>
    cases x <;> simp only [onStore, Store.markShape, Store.forceShape]
    · simp
    · split <;> simp
  | function f =>
    simp only [onStore, Store.makeFunction]
    split <;> simp
  | native name result =>
    simp only [onStore, Store.makeNative]
    split <;> simp
  | _ =>
    simp [onStore, Store.touch, Store.markKnown, Store.reimply, Store.forceShape, Store.modifyFunc]

theorem mem_touched_onStore {x : Tracked} :
    x ∈ (w.onStore s).touched ↔ w = .touch x ∨ x ∈ s.touched := by
  rw [(notes_onStore w s).1]
  cases w <;> simp [eq_comm]

theorem mem_known_onStore {x : Tracked} :
    x ∈ (w.onStore s).known ↔ w = .known x ∨ x ∈ s.known := by
  rw [(notes_onStore w s).2]
  cases w <;> simp [eq_comm]

end Write
end TagCheck
