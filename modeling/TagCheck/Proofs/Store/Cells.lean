import TagCheck.Store

/-! What the operations of the store do to its cells. An operation on one target leaves the cells
of the others alone, and a target out of range is never written. -/
namespace TagCheck
namespace Store

def Has (s : Store) : Target → Prop
  | .node n => n < s.nodes.size
  | .binding b => b < s.bindings.size

instance (s : Store) : (t : Target) → Decidable (s.Has t)
  | .node n => inferInstanceAs (Decidable (n < s.nodes.size))
  | .binding b => inferInstanceAs (Decidable (b < s.bindings.size))

theorem cell_of_not_has {s : Store} {t : Target} (h : ¬ s.Has t) : s.cell t = {} := by
  cases t <;> simp_all [cell, Has]

theorem cell_congr {s s' : Store} (hn : s'.nodes = s.nodes) (hb : s'.bindings = s.bindings)
    (t : Target) : s'.cell t = s.cell t := by
  cases t <;> simp [cell, hn, hb]

/-- A new store holds nothing. -/
@[simp] theorem cell_new (nodes bindings funcs : Nat) (t : Target) :
    (new nodes bindings funcs).cell t = {} := by
  cases t <;> simp only [cell, new, Array.getElem?_replicate] <;> split <;> rfl

section

variable {s : Store} {f : Cell → Cell} {t : Target}

@[simp] theorem has_modifyCell {u : Target} : (s.modifyCell f t).Has u ↔ s.Has u := by
  cases t <;> cases u <;> simp [modifyCell, Has]

@[simp] theorem pass_modifyCell : (s.modifyCell f t).pass = s.pass := by cases t <;> rfl

@[simp] theorem arena_modifyCell : (s.modifyCell f t).arena = s.arena := by cases t <;> rfl

@[simp] theorem byFunction_modifyCell : (s.modifyCell f t).byFunction = s.byFunction := by
  cases t <;> rfl

@[simp] theorem natives_modifyCell : (s.modifyCell f t).natives = s.natives := by cases t <;> rfl

@[simp] theorem touched_modifyCell : (s.modifyCell f t).touched = s.touched := by cases t <;> rfl

@[simp] theorem known_modifyCell : (s.modifyCell f t).known = s.known := by cases t <;> rfl

end

theorem cell_modifyCell (s : Store) (f : Cell → Cell) (t u : Target) :
    (s.modifyCell f t).cell u = if t = u ∧ s.Has u then f (s.cell u) else s.cell u := by
  by_cases hhas : s.Has u
  · cases t <;> cases u <;> simp_all [modifyCell, cell, Has, Array.getElem_modify]
  · rw [if_neg fun h => hhas h.2, cell_of_not_has hhas, cell_of_not_has (mt has_modifyCell.1 hhas)]

/-! The three writes to cells. -/

section

variable (s : Store) (t : Target) (ty : Ty) (x : Shape) (u : Target)

theorem ty_cell_forceType : ((s.forceType t ty).cell u).ty =
    if t = u ∧ s.Has u then some ⟨ty, s.pass⟩ else (s.cell u).ty := by
  rw [forceType, cell_modifyCell]
  split <;> rfl

theorem ty_cell_reimply : ((s.reimply t ty).cell u).ty =
    if t = u ∧ s.Has u then some ⟨ty, ((s.cell u).ty.map (·.pass)).getD s.pass⟩
    else (s.cell u).ty := by
  rw [reimply, cell_modifyCell]
  split
  · cases (s.cell u).ty <;> rfl
  · rfl

@[simp] theorem ty_cell_forceShape : ((s.forceShape t x).cell u).ty = (s.cell u).ty := by
  rw [forceShape, cell_modifyCell]
  split <;> rfl

@[simp] theorem shape_cell_forceType : ((s.forceType t ty).cell u).shape = (s.cell u).shape := by
  rw [forceType, cell_modifyCell]
  split <;> rfl

@[simp] theorem shape_cell_reimply : ((s.reimply t ty).cell u).shape = (s.cell u).shape := by
  rw [reimply, cell_modifyCell]
  split
  · cases h : (s.cell u).ty <;> simp
  · rfl

theorem shape_cell_forceShape : ((s.forceShape t x).cell u).shape =
    if t = u ∧ s.Has u then some ⟨x, s.pass⟩ else (s.cell u).shape := by
  rw [forceShape, cell_modifyCell]
  split <;> rfl

end

theorem hasTypeThisPass_iff {s : Store} {t : Target} :
    s.hasTypeThisPass t = true ↔
      ∃ m, (s.cell t).ty = some m ∧ m.pass = s.pass ∧ m.value.isKnown = true := by
  simp [hasTypeThisPass, Option.any_eq_true]

theorem hasShapeThisPass_iff {s : Store} {t : Target} :
    s.hasShapeThisPass t = true ↔ ∃ m, (s.cell t).shape = some m ∧ m.pass = s.pass := by
  simp [hasShapeThisPass, Option.any_eq_true]

theorem isUntyped_eq_false_iff {s : Store} {t : Target} :
    s.isUntyped t = false ↔ ∃ m, (s.cell t).ty = some m ∧ m.value.isKnown = true := by
  cases h : (s.cell t).ty <;> simp [isUntyped, tag, ty?, h, Tag.isKnown, Ty.isKnown]

/-- What has a type has a cell. -/
theorem has_of_isUntyped_eq_false {s : Store} {t : Target} (h : s.isUntyped t = false) :
    s.Has t := by
  obtain ⟨m, hm, -⟩ := isUntyped_eq_false_iff.1 h
  refine Decidable.byContradiction fun hhas => ?_
  simp [cell_of_not_has hhas] at hm

theorem isUntyped_iff {s : Store} {t : Target} :
    s.isUntyped t = true ↔ (s.ty? t).filter Ty.isKnown = none := by
  cases h : s.ty? t <;> simp [isUntyped, tag, h, Tag.isKnown, Ty.isKnown]

theorem isUntyped_of_hasTypeThisPass {s : Store} {t : Target} (h : s.hasTypeThisPass t = true) :
    s.isUntyped t = false := by
  obtain ⟨m, hm, -, hknown⟩ := hasTypeThisPass_iff.1 h
  exact isUntyped_eq_false_iff.2 ⟨m, hm, hknown⟩

theorem functionShape?_new (nodes bindings funcs : Nat) (f : FuncId) :
    (new nodes bindings funcs).functionShape? f = none := by
  simp only [functionShape?, new, Array.getElem?_replicate]
  split <;> rfl

/-- The type of a target stays as it is, or a known one takes its place. -/
def Retypes (s s' : Store) (t : Target) : Prop :=
  (s'.cell t).ty = (s.cell t).ty ∨ ∃ m, (s'.cell t).ty = some m ∧ m.value.isKnown = true

namespace Retypes

variable {s s' : Store} {t : Target}

theorem isUntyped_eq_false (h : s.Retypes s' t) (ht : s.isUntyped t = false) :
    s'.isUntyped t = false := by
  rw [isUntyped_eq_false_iff] at ht ⊢
  rcases h with h | h
  · rwa [h]
  · exact h

theorem isKnown {ty : Ty} (h : s.Retypes s' t) (ht : ∀ ty, s.ty? t = some ty → ty.isKnown = true)
    (hty : s'.ty? t = some ty) : ty.isKnown = true := by
  rcases h with h | ⟨m, hm, hknown⟩
  · exact ht ty (by rwa [ty?, ← h])
  · obtain rfl : m.value = ty := by simpa [ty?, hm] using hty
    exact hknown

end Retypes

end Store
end TagCheck
