import Mathlib.Data.List.Induction
import TagCheck.Proofs.Store.Cells

/-! Sequences of operations on a store. Main statement: within a pass the first known type that is
marked on a target stays, and so does the first shape; what the target held before gives way to
them, and nothing else moves. -/
namespace TagCheck
namespace Store

inductive Operation where
  | beginPass
  | markType (t : Target) (ty : Ty)
  | forceType (t : Target) (ty : Ty)
  | reimply (t : Target) (ty : Ty)
  | markShape (t : Target) (x : Option Shape)
  | forceShape (t : Target) (x : Shape)
  | touch (x : Tracked)
  | markKnown (x : Tracked)
  | function (f : FuncId)
  | native (name : String) (result : Tag)
  /-- Writes a new signature into a function shape, which stays the shape of the same function. -/
  | setSignature (id : FuncShapeId) (params : List Slot) (hasRest : Bool) (ret : ReturnSlot)

def Operation.apply (s : Store) : Operation → Store
  | beginPass => s.beginPass
  | markType t ty => (s.markType t ty).2
  | forceType t ty => s.forceType t ty
  | reimply t ty => s.reimply t ty
  | markShape t x => (s.markShape t x).2
  | forceShape t x => s.forceShape t x
  | touch x => s.touch x
  | markKnown x => s.markKnown x
  | function f => (s.functionShape f).2
  | native name result => (s.native name result).2
  | setSignature id params hasRest ret => s.modifyFunc id fun x => { x with params, hasRest, ret }

def run (s : Store) (ops : List Operation) : Store := ops.foldl Operation.apply s

@[simp] theorem run_nil (s : Store) : s.run [] = s := rfl

theorem run_concat (s : Store) (ops : List Operation) (op : Operation) :
    s.run (ops ++ [op]) = op.apply (s.run ops) :=
  List.foldl_append

/-- The store comes from a new one by operations. -/
def Reachable (s : Store) : Prop :=
  ∃ nodes bindings funcs ops, s = (new nodes bindings funcs).run ops

/-! Stamps. -/

/-- Nothing was written in a pass that is still to come. -/
structure Stamped (s : Store) : Prop where
  ty : ∀ t m, (s.cell t).ty = some m → m.pass ≤ s.pass
  shape : ∀ t m, (s.cell t).shape = some m → m.pass ≤ s.pass

theorem Stamped.congr {s s' : Store} (h : s.Stamped) (hn : s'.nodes = s.nodes)
    (hb : s'.bindings = s.bindings) (hp : s.pass ≤ s'.pass) : s'.Stamped where
  ty t m hm := Nat.le_trans (h.ty t m (by rwa [← cell_congr hn hb])) hp
  shape t m hm := Nat.le_trans (h.shape t m (by rwa [← cell_congr hn hb])) hp

theorem Stamped.forceType {s : Store} (h : s.Stamped) (t : Target) (ty : Ty) :
    (s.forceType t ty).Stamped where
  ty u m hm := by
    rw [Store.forceType, pass_modifyCell]
    rw [ty_cell_forceType] at hm
    split at hm
    · cases hm
      exact Nat.le_refl _
    · exact h.ty u m hm
  shape u m hm := by
    rw [Store.forceType, pass_modifyCell]
    exact h.shape u m (by rwa [shape_cell_forceType] at hm)

theorem Stamped.reimply {s : Store} (h : s.Stamped) (t : Target) (ty : Ty) :
    (s.reimply t ty).Stamped where
  ty u m hm := by
    rw [Store.reimply, pass_modifyCell]
    rw [ty_cell_reimply] at hm
    split at hm
    · cases hm
      cases hold : (s.cell u).ty with
      | none => exact Nat.le_refl _
      | some old => exact h.ty u old hold
    · exact h.ty u m hm
  shape u m hm := by
    rw [Store.reimply, pass_modifyCell]
    exact h.shape u m (by rwa [shape_cell_reimply] at hm)

theorem Stamped.forceShape {s : Store} (h : s.Stamped) (t : Target) (x : Shape) :
    (s.forceShape t x).Stamped where
  ty u m hm := by
    rw [Store.forceShape, pass_modifyCell]
    exact h.ty u m (by rwa [ty_cell_forceShape] at hm)
  shape u m hm := by
    rw [Store.forceShape, pass_modifyCell]
    rw [shape_cell_forceShape] at hm
    split at hm
    · cases hm
      exact Nat.le_refl _
    · exact h.shape u m hm

theorem Stamped.apply {s : Store} (h : s.Stamped) (op : Operation) : (op.apply s).Stamped := by
  cases op with
  | beginPass => exact h.congr rfl rfl (Nat.le_succ _)
  | markType t ty =>
    rw [Operation.apply, markType]
    split
    · exact h
    · exact h.forceType t ty
  | forceType t ty => exact h.forceType t ty
  | reimply t ty => exact h.reimply t ty
  | markShape t x =>
    cases x with
    | none => exact h
    | some x =>
      rw [Operation.apply, markShape]
      split
      · exact h
      · exact h.forceShape t x
  | forceShape t x => exact h.forceShape t x
  | function f =>
    rw [Operation.apply, functionShape, makeFunction]
    split
    · exact h
    · exact h.congr rfl rfl (Nat.le_refl _)
  | native name result =>
    rw [Operation.apply, native, makeNative]
    split
    · exact h
    · exact h.congr rfl rfl (Nat.le_refl _)
  | touch | markKnown | setSignature => exact h.congr rfl rfl (Nat.le_refl _)

theorem Stamped.run {s : Store} (h : s.Stamped) (ops : List Operation) : (s.run ops).Stamped := by
  induction ops generalizing s with
  | nil => exact h
  | cons op ops ih => exact ih (h.apply op)

theorem Reachable.stamped {s : Store} (h : s.Reachable) : s.Stamped := by
  obtain ⟨nodes, bindings, funcs, ops, rfl⟩ := h
  exact Stamped.run ⟨by simp, by simp⟩ ops

/-! Marks. -/

/-- What is done within a pass: types and shapes are marked, something is noted as unknown or as
known, and the shapes of functions are asked for. -/
def Operation.isMark : Operation → Bool
  | markType .. | markShape .. | touch _ | markKnown _ | function _ | native .. => true
  | beginPass | forceType .. | reimply .. | forceShape .. | setSignature .. => false

def Operation.typeOn? (t : Target) : Operation → Option Ty
  | markType u ty => if u = t then some ty else none
  | _ => none

def Operation.shapeOn? (t : Target) : Operation → Option Shape
  | markShape u x => if u = t then x else none
  | _ => none

def typesMarked (t : Target) (ops : List Operation) : List Ty := ops.filterMap (·.typeOn? t)

def shapesMarked (t : Target) (ops : List Operation) : List Shape := ops.filterMap (·.shapeOn? t)

theorem typesMarked_concat (t : Target) (ops : List Operation) (op : Operation) :
    typesMarked t (ops ++ [op]) = typesMarked t ops ++ (op.typeOn? t).toList := by
  rw [typesMarked, List.filterMap_append]
  cases h : op.typeOn? t <;> simp [typesMarked, h]

theorem shapesMarked_concat (t : Target) (ops : List Operation) (op : Operation) :
    shapesMarked t (ops ++ [op]) = shapesMarked t ops ++ (op.shapeOn? t).toList := by
  rw [shapesMarked, List.filterMap_append]
  cases h : op.shapeOn? t <;> simp [shapesMarked, h]

/-- What the type slot of a target holds when types have been marked on it in a pass. -/
def typeSlot (pass : Nat) (old : Option (Marked Ty)) (tys : List Ty) : Option (Marked Ty) :=
  (((tys.find? Ty.isKnown).or tys.getLast?).map fun ty => ⟨ty, pass⟩).or old

/-- What the shape slot of a target holds when shapes have been marked on it in a pass. -/
def shapeSlot (pass : Nat) (old : Option (Marked Shape)) (shapes : List Shape) :
    Option (Marked Shape) :=
  (shapes.head?.map fun x => ⟨x, pass⟩).or old

/-- A mark that is neither of a type nor of a shape leaves all cells alone. -/
theorem Operation.apply_cases {op : Operation} (hop : op.isMark = true) (s : Store) :
    (∃ t ty, op = markType t ty) ∨ (∃ t x, op = markShape t x) ∨
      (∀ t, op.typeOn? t = none ∧ op.shapeOn? t = none) ∧ (op.apply s).nodes = s.nodes ∧
        (op.apply s).bindings = s.bindings ∧ (op.apply s).pass = s.pass := by
  cases op with
  | markType t ty => exact .inl ⟨t, ty, rfl⟩
  | markShape t x => exact .inr (.inl ⟨t, x, rfl⟩)
  | touch | markKnown => exact .inr (.inr ⟨fun _ => ⟨rfl, rfl⟩, rfl, rfl, rfl⟩)
  | function f =>
    refine .inr (.inr ⟨fun _ => ⟨rfl, rfl⟩, ?_⟩)
    rw [apply, functionShape, makeFunction]
    split <;> exact ⟨rfl, rfl, rfl⟩
  | native name result =>
    refine .inr (.inr ⟨fun _ => ⟨rfl, rfl⟩, ?_⟩)
    rw [apply, Store.native, makeNative]
    split <;> exact ⟨rfl, rfl, rfl⟩
  | beginPass | forceType | reimply | forceShape | setSignature => cases hop

section

variable {op : Operation} (hop : op.isMark = true) (s : Store)

include hop

theorem pass_apply : (op.apply s).pass = s.pass := by
  rcases op.apply_cases hop s with ⟨t, ty, rfl⟩ | ⟨t, x, rfl⟩ | ⟨-, -, -, h⟩
  · rw [Operation.apply, markType]
    split <;> simp [forceType]
  · cases x with
    | none => rfl
    | some x =>
      rw [Operation.apply, markShape]
      split <;> simp [forceShape]
  · exact h

theorem has_apply (t : Target) : (op.apply s).Has t ↔ s.Has t := by
  rcases op.apply_cases hop s with ⟨u, ty, rfl⟩ | ⟨u, x, rfl⟩ | ⟨-, hn, hb, -⟩
  · rw [Operation.apply, markType]
    split <;> simp [forceType]
  · cases x with
    | none => rfl
    | some x =>
      rw [Operation.apply, markShape]
      split <;> simp [forceShape]
  · cases t <;> simp [Has, hn, hb]

/-- A type that is marked goes to its target, unless that was typed in this pass. -/
theorem ty_cell_apply {t : Target} (ht : s.Has t) : ((op.apply s).cell t).ty =
    if s.hasTypeThisPass t then (s.cell t).ty
    else ((op.typeOn? t).map fun ty => ⟨ty, s.pass⟩).or (s.cell t).ty := by
  rcases op.apply_cases hop s with ⟨u, ty, rfl⟩ | ⟨u, x, rfl⟩ | ⟨hnone, hn, hb, -⟩
  · rw [Operation.apply, markType, Operation.typeOn?]
    by_cases hu : u = t
    · subst hu
      split
      · rfl
      · rw [ty_cell_forceType, if_pos ⟨rfl, ht⟩, if_pos rfl]
        rfl
    · rw [if_neg hu]
      split <;> simp [ty_cell_forceType, hu]
  · cases x with
    | none => simp [Operation.apply, markShape, Operation.typeOn?]
    | some x =>
      rw [Operation.apply, markShape]
      split <;> simp [Operation.typeOn?]
  · simp [cell_congr hn hb, hnone t]

/-- A shape that is marked goes to its target, unless that was given one in this pass. -/
theorem shape_cell_apply {t : Target} (ht : s.Has t) : ((op.apply s).cell t).shape =
    if s.hasShapeThisPass t then (s.cell t).shape
    else ((op.shapeOn? t).map fun x => ⟨x, s.pass⟩).or (s.cell t).shape := by
  rcases op.apply_cases hop s with ⟨u, ty, rfl⟩ | ⟨u, x, rfl⟩ | ⟨hnone, hn, hb, -⟩
  · rw [Operation.apply, markType]
    split <;> simp [Operation.shapeOn?]
  · cases x with
    | none => simp [Operation.apply, markShape, Operation.shapeOn?]
    | some x =>
      rw [Operation.apply, markShape, Operation.shapeOn?]
      by_cases hu : u = t
      · subst hu
        split
        · rfl
        · rw [shape_cell_forceShape, if_pos ⟨rfl, ht⟩, if_pos rfl]
          rfl
      · rw [if_neg hu]
        split <;> simp [shape_cell_forceShape, hu]
  · simp [cell_congr hn hb, hnone t]

end

/-! What a slot holds after marks. A type that is unknown gives way to the next one, a known one to
none, and a slot of an earlier pass to the first mark. -/

/-- A known type is among those that were marked. -/
theorem exists_typeSlot_iff {pass : Nat} {old : Option (Marked Ty)}
    (hold : ∀ m, old = some m → m.pass < pass) (tys : List Ty) :
    (∃ m, typeSlot pass old tys = some m ∧ m.pass = pass ∧ m.value.isKnown = true) ↔
      ∃ ty ∈ tys, ty.isKnown = true := by
  rw [typeSlot]
  cases hfind : tys.find? Ty.isKnown with
  | some ty =>
    have hty := List.find?_some hfind
    exact iff_of_true ⟨⟨ty, pass⟩, rfl, rfl, hty⟩ ⟨ty, List.mem_of_find?_eq_some hfind, hty⟩
  | none =>
    have hnone := List.find?_eq_none.1 hfind
    refine iff_of_false ?_ fun ⟨ty, hty, hknown⟩ => hnone ty hty hknown
    rintro ⟨m, hm, hpass, hknown⟩
    cases hlast : tys.getLast? with
    | some ty =>
      simp only [hlast, Option.none_or, Option.map_some, Option.some_or, Option.some.injEq] at hm
      exact hnone ty (List.mem_of_getLast? hlast) (by rwa [← hm] at hknown)
    | none =>
      simp only [hlast, Option.none_or, Option.map_none] at hm
      exact absurd hpass (Nat.ne_of_lt (hold m hm))

theorem typeSlot_concat (pass : Nat) (old : Option (Marked Ty)) (tys : List Ty) (ty : Ty) :
    typeSlot pass old (tys ++ [ty]) =
      if tys.any Ty.isKnown then typeSlot pass old tys else some ⟨ty, pass⟩ := by
  cases hfind : tys.find? Ty.isKnown with
  | some known =>
    rw [if_pos (List.any_eq_true.2 ⟨known, List.mem_of_find?_eq_some hfind, List.find?_some hfind⟩)]
    simp [typeSlot, hfind]
  | none =>
    rw [if_neg (by simpa using hfind), typeSlot, List.find?_append, hfind, List.getLast?_concat]
    cases h : [ty].find? Ty.isKnown with
    | none => rfl
    | some ty' =>
      obtain rfl := List.mem_singleton.1 (List.mem_of_find?_eq_some h)
      rfl

theorem shapeSlot_concat (pass : Nat) (old : Option (Marked Shape)) (shapes : List Shape)
    (x : Shape) : shapeSlot pass old (shapes ++ [x]) =
      if shapes.isEmpty then some ⟨x, pass⟩ else shapeSlot pass old shapes := by
  cases shapes <;> rfl

theorem exists_shapeSlot_iff {pass : Nat} {old : Option (Marked Shape)}
    (hold : ∀ m, old = some m → m.pass < pass) (shapes : List Shape) :
    (∃ m, shapeSlot pass old shapes = some m ∧ m.pass = pass) ↔ shapes ≠ [] := by
  cases shapes with
  | nil => exact iff_of_false (fun ⟨m, hm, hpass⟩ => Nat.ne_of_lt (hold m hm) hpass) (by simp)
  | cons x shapes => exact iff_of_true ⟨⟨x, pass⟩, rfl, rfl⟩ (by simp)

/-! Whole passes. -/

/-- Nothing was written in the current pass. -/
structure Fresh (s : Store) : Prop where
  ty : ∀ t m, (s.cell t).ty = some m → m.pass < s.pass
  shape : ∀ t m, (s.cell t).shape = some m → m.pass < s.pass

theorem cell_beginPass (s : Store) (t : Target) : s.beginPass.cell t = s.cell t :=
  cell_congr rfl rfl t

theorem Stamped.fresh_beginPass {s : Store} (h : s.Stamped) : s.beginPass.Fresh where
  ty t m hm := Nat.lt_succ_of_le (h.ty t m (by rwa [cell_beginPass] at hm))
  shape t m hm := Nat.lt_succ_of_le (h.shape t m (by rwa [cell_beginPass] at hm))

section

variable {s : Store} {ops : List Operation} (hops : ∀ op ∈ ops, op.isMark = true)

include hops

theorem pass_run : (s.run ops).pass = s.pass := by
  induction ops using List.reverseRecOn with
  | nil => rfl
  | append_singleton ops op ih =>
    rw [run_concat, pass_apply (hops op (by simp)), ih fun o ho => hops o (by simp [ho])]

theorem has_run (t : Target) : (s.run ops).Has t ↔ s.Has t := by
  induction ops using List.reverseRecOn with
  | nil => rfl
  | append_singleton ops op ih =>
    rw [run_concat, has_apply (hops op (by simp)), ih fun o ho => hops o (by simp [ho])]

theorem ty_cell_run (hs : s.Fresh) {t : Target} (ht : s.Has t) :
    ((s.run ops).cell t).ty = typeSlot s.pass (s.cell t).ty (typesMarked t ops) := by
  induction ops using List.reverseRecOn with
  | nil => rfl
  | append_singleton ops op ih =>
    have hbefore : ∀ o ∈ ops, o.isMark = true := fun o ho => hops o (by simp [ho])
    have hslot := ih hbefore
    have htyped : (s.run ops).hasTypeThisPass t = (typesMarked t ops).any Ty.isKnown := by
      rw [Bool.eq_iff_iff, hasTypeThisPass_iff, List.any_eq_true, hslot, pass_run hbefore]
      exact exists_typeSlot_iff (hs.ty t) _
    rw [run_concat, ty_cell_apply (hops op (by simp)) _ ((has_run hbefore t).2 ht), htyped, hslot,
      typesMarked_concat, pass_run hbefore]
    cases op.typeOn? t with
    | none => simp
    | some ty => rw [Option.toList_some, typeSlot_concat]; rfl

theorem hasTypeThisPass_run (hs : s.Fresh) {t : Target} :
    (s.run ops).hasTypeThisPass t = true ↔
      s.Has t ∧ ∃ ty ∈ typesMarked t ops, ty.isKnown = true := by
  by_cases ht : s.Has t
  · rw [hasTypeThisPass_iff, ty_cell_run hops hs ht, pass_run hops, exists_typeSlot_iff (hs.ty t)]
    exact (and_iff_right ht).symm
  · refine iff_of_false ?_ fun h => ht h.1
    simp [hasTypeThisPass, cell_of_not_has (mt (has_run hops t).1 ht)]

theorem shape_cell_run (hs : s.Fresh) {t : Target} (ht : s.Has t) :
    ((s.run ops).cell t).shape = shapeSlot s.pass (s.cell t).shape (shapesMarked t ops) := by
  induction ops using List.reverseRecOn with
  | nil => rfl
  | append_singleton ops op ih =>
    have hbefore : ∀ o ∈ ops, o.isMark = true := fun o ho => hops o (by simp [ho])
    have hslot := ih hbefore
    have hshaped : (s.run ops).hasShapeThisPass t = !(shapesMarked t ops).isEmpty := by
      rw [Bool.eq_iff_iff, hasShapeThisPass_iff, hslot, pass_run hbefore,
        exists_shapeSlot_iff (hs.shape t)]
      simp
    rw [run_concat, shape_cell_apply (hops op (by simp)) _ ((has_run hbefore t).2 ht), hshaped,
      hslot, shapesMarked_concat, pass_run hbefore]
    cases op.shapeOn? t with
    | none => simp
    | some x =>
      rw [Option.toList_some, shapeSlot_concat]
      cases (shapesMarked t ops).isEmpty <;> rfl

theorem hasShapeThisPass_run (hs : s.Fresh) {t : Target} :
    (s.run ops).hasShapeThisPass t = true ↔ s.Has t ∧ shapesMarked t ops ≠ [] := by
  by_cases ht : s.Has t
  · rw [hasShapeThisPass_iff, shape_cell_run hops hs ht, pass_run hops,
      exists_shapeSlot_iff (hs.shape t)]
    exact (and_iff_right ht).symm
  · refine iff_of_false ?_ fun h => ht h.1
    simp [hasShapeThisPass, cell_of_not_has (mt (has_run hops t).1 ht)]

end

theorem markType_eq_false_iff {s : Store} {t : Target} {ty : Ty} :
    (s.markType t ty).1 = false ↔ s.hasTypeThisPass t = true := by
  rw [markType]
  split <;> simp_all

theorem markShape_eq_false_iff {s : Store} {t : Target} {x : Option Shape} :
    (s.markShape t x).1 = false ↔ x = none ∨ s.hasShapeThisPass t = true := by
  cases x with
  | none => simp [markShape]
  | some x =>
    rw [markShape]
    split <;> simp_all

/-- Within a pass a target holds the first known type marked on it, or else the last one, or else
what it held before, and likewise the first shape. Later marks are refused. -/
theorem first_marks_win {s : Store} (hs : s.Reachable) {ops : List Operation}
    (hops : ∀ op ∈ ops, op.isMark = true) :
    (∀ t, s.Has t →
      (s.beginPass.run ops).ty? t =
        (((typesMarked t ops).find? Ty.isKnown).or (typesMarked t ops).getLast?).or (s.ty? t) ∧
      (s.beginPass.run ops).shape? t = (shapesMarked t ops).head?.or (s.shape? t)) ∧
    (∀ t ty, ((s.beginPass.run ops).markType t ty).1 = false ↔
      s.Has t ∧ ∃ known ∈ typesMarked t ops, known.isKnown = true) ∧
    (∀ t x, ((s.beginPass.run ops).markShape t x).1 = false ↔
      x = none ∨ s.Has t ∧ shapesMarked t ops ≠ []) ∧
    (∀ t, ¬ s.Has t → (s.beginPass.run ops).cell t = {}) ∧
    s.Stamped ∧ (s.beginPass.run ops).Stamped := by
  have hfresh : s.beginPass.Fresh := hs.stamped.fresh_beginPass
  have hhas (t : Target) : s.beginPass.Has t ↔ s.Has t := by cases t <;> rfl
  refine ⟨fun t ht => ⟨?_, ?_⟩, fun t ty => ?_, fun t x => ?_, fun t ht => ?_, hs.stamped, ?_⟩
  · rw [ty?, ty_cell_run hops hfresh ((hhas t).2 ht), typeSlot, Option.map_or, Option.map_map,
      cell_beginPass]
    exact congrArg (Option.or · _) Option.map_id'
  · rw [shape?, shape_cell_run hops hfresh ((hhas t).2 ht), shapeSlot, Option.map_or,
      Option.map_map, cell_beginPass]
    exact congrArg (Option.or · _) Option.map_id'
  · rw [markType_eq_false_iff, hasTypeThisPass_run hops hfresh, hhas]
  · rw [markShape_eq_false_iff, hasShapeThisPass_run hops hfresh, hhas]
  · exact cell_of_not_has (mt (has_run hops t).1 (mt (hhas t).1 ht))
  · exact hs.stamped.run (.beginPass :: ops)

/-- A type of an earlier pass gives way to an unknown one, that one to the first known type, and a
shape of an earlier pass stays where none is marked. -/
theorem first_marks_win_in_second_pass :
    let s := (new 1 1 1).run [.beginPass, .markType (.node 0) (.inferred .string),
      .markShape (.binding 0) (some (.func 7))]
    let ops := [.markType (.node 0) .unknown, .markType (.node 5) (.tagged .int),
      .markType (.node 0) (.tagged .int), .function 0, .markType (.node 0) (.inferred .bool),
      .markShape (.binding 0) none]
    s.Reachable ∧ (∀ op ∈ ops, op.isMark = true) ∧
      (s.beginPass.run ops).ty? (.node 0) = some (.tagged .int) ∧
      (s.beginPass.run ops).shape? (.binding 0) = some (.func 7) ∧
      ((s.beginPass.run ops).markType (.node 0) (.inferred .bool)).1 = false ∧
      (s.beginPass.run ops).cell (.node 5) = {} := by
  intro s ops
  have hs : s.Reachable := ⟨1, 1, 1, _, rfl⟩
  have hops : ∀ op ∈ ops, op.isMark = true := by simp [ops, Operation.isMark]
  obtain ⟨hheld, hrefused, -, hout, -⟩ := first_marks_win hs hops
  refine ⟨hs, hops, ?_, ?_, ?_, hout _ (by decide)⟩
  · rw [(hheld (.node 0) (by decide)).1]
    decide
  · rw [(hheld (.binding 0) (by decide)).2]
    decide
  · exact (hrefused _ _).2 ⟨by decide, .tagged .int, by decide, rfl⟩

end Store
end TagCheck
