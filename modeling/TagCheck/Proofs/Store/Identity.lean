import Mathlib.Data.List.Nodup
import TagCheck.Proofs.Check.Writes
import TagCheck.Proofs.Store.Operations

/-! The places of function shapes. A shape is made once for a function or for the name of a built-in
constructor and is found again at the same place whatever is done to the store. Main statement:
places never change, are not shared, and keep what they are the place of. -/
namespace TagCheck

theorem Arena.get?_push_size (a : Arena) (f : FuncShape) : (a.push f).get? a.size = some f :=
  Array.getElem?_push_size

namespace Store

def Operation.onShape (id : FuncShapeId) : Operation → FuncShape → FuncShape
  | setSignature i params hasRest ret, x => if i = id then { x with params, hasRest, ret } else x
  | _, x => x

theorem Operation.origin_onShape (op : Operation) (id : FuncShapeId) (x : FuncShape) :
    (op.onShape id x).origin = x.origin := by
  cases op with
  | setSignature i =>
    rw [onShape]
    split <;> rfl
  | _ => rfl

/-- An operation makes the shape of a function, or that of a built-in constructor, or it makes none
and changes the shapes where they are. -/
theorem Operation.places_cases (op : Operation) (s : Store) :
    (∃ f, op = function f ∧ s.functionShape? f = none ∧ op.apply s = { s with
      arena := s.arena.push (.ofFunction f)
      byFunction := s.byFunction.setIfInBounds f (some s.arena.size) }) ∨
    (∃ name result, op = native name result ∧ s.natives.lookup name = none ∧ op.apply s = { s with
      arena := s.arena.push (.native result)
      natives := (name, s.arena.size) :: s.natives }) ∨
    (op.apply s).byFunction = s.byFunction ∧ (op.apply s).natives = s.natives ∧
      ∀ id, (op.apply s).arena.get? id = (s.arena.get? id).map (op.onShape id) := by
  have hkeep {s' : Store} (hshape : ∀ id, op.onShape id = fun x => x)
      (h : s'.byFunction = s.byFunction ∧ s'.natives = s.natives ∧ s'.arena = s.arena) :
      s'.byFunction = s.byFunction ∧ s'.natives = s.natives ∧
        ∀ id, s'.arena.get? id = (s.arena.get? id).map (op.onShape id) := by
    refine ⟨h.1, h.2.1, fun id => ?_⟩
    rw [hshape, Option.map_id', h.2.2]
  have hmodify (g : Cell → Cell) (t : Target) : (s.modifyCell g t).byFunction = s.byFunction ∧
      (s.modifyCell g t).natives = s.natives ∧ (s.modifyCell g t).arena = s.arena := by
    cases t <;> exact ⟨rfl, rfl, rfl⟩
  cases op with
  | function f =>
    cases hf : s.functionShape? f with
    | none => exact .inl ⟨f, rfl, hf, by simp [apply, functionShape, makeFunction, hf]⟩
    | some id =>
      refine .inr (.inr (hkeep (fun _ => rfl) ?_))
      simp [apply, functionShape, makeFunction, hf]
  | native name result =>
    cases hname : s.natives.lookup name with
    | none =>
      exact .inr (.inl ⟨name, result, rfl, hname, by simp [apply, Store.native, makeNative, hname]⟩)
    | some id =>
      refine .inr (.inr (hkeep (fun _ => rfl) ?_))
      simp [apply, Store.native, makeNative, hname]
  | markType t ty =>
    refine .inr (.inr (hkeep (fun _ => rfl) ?_))
    rw [apply, Store.markType]
    split
    · exact ⟨rfl, rfl, rfl⟩
    · exact hmodify _ t
  | markShape t x =>
    refine .inr (.inr (hkeep (fun _ => rfl) ?_))
    cases x with
    | none => exact ⟨rfl, rfl, rfl⟩
    | some x =>
      rw [apply, Store.markShape]
      split
      · exact ⟨rfl, rfl, rfl⟩
      · exact hmodify _ t
  | forceType t | reimply t | forceShape t => exact .inr (.inr (hkeep (fun _ => rfl) (hmodify _ t)))
  | beginPass | touch | markKnown =>
    exact .inr (.inr (hkeep (fun _ => rfl) ⟨rfl, rfl, rfl⟩))
  | setSignature i params hasRest ret =>
    refine .inr (.inr ⟨rfl, rfl, fun id => ?_⟩)
    rw [apply, modifyFunc, Arena.get?_modify]
    split
    · rename_i hi
      cases s.arena.get? id <;> simp [onShape, hi]
    · rename_i hi
      cases s.arena.get? id <;> simp [onShape, hi]

/-- A function shape stays where it is. -/
theorem get?_apply {s : Store} {id : FuncShapeId} (op : Operation) (h : id < s.arena.size) :
    (op.apply s).arena.get? id = (s.arena.get? id).map (op.onShape id) := by
  rcases op.places_cases s with ⟨f, rfl, -, hs⟩ | ⟨name, result, rfl, -, hs⟩ | ⟨-, -, hget⟩
  · rw [hs, Arena.get?_push_of_lt h]
    exact Option.map_id'.symm
  · rw [hs, Arena.get?_push_of_lt h]
    exact Option.map_id'.symm
  · exact hget id

/-! What stands in the registers. -/

/-- Every registered place holds a shape of what it is registered for, and no two built-in
constructors have the same place. -/
structure Registered (s : Store) : Prop where
  function : ∀ f id, s.functionShape? f = some id →
    ∃ x, s.arena.get? id = some x ∧ x.origin = some f
  native : ∀ p ∈ s.natives, ∃ x, s.arena.get? p.2 = some x ∧ x.origin = none
  nodup : (s.natives.map Prod.snd).Nodup

theorem registered_new (nodes bindings funcs : Nat) : (new nodes bindings funcs).Registered where
  function f id h := by simp [functionShape?_new] at h
  native := by simp [new]
  nodup := List.nodup_nil

theorem join_getElem?_setIfInBounds (places : Array (Option FuncShapeId)) (f g : FuncId)
    (id : FuncShapeId) : (places.setIfInBounds f (some id))[g]?.join =
      if f = g ∧ g < places.size then some id else places[g]?.join := by
  rw [Array.getElem?_setIfInBounds]
  by_cases hfg : f = g
  · subst hfg
    by_cases hf : f < places.size <;> simp [hf]
  · simp [hfg]

/-- A place that is registered for a function stays so, and a new one is the next free place. -/
theorem functionShape?_apply (op : Operation) (s : Store) (f : FuncId) :
    (op.apply s).functionShape? f = s.functionShape? f ∨
      op = .function f ∧ f < s.byFunction.size ∧ s.functionShape? f = none ∧
        (op.apply s).functionShape? f = some s.arena.size := by
  rcases op.places_cases s with ⟨g, rfl, hg, hs⟩ | ⟨name, result, rfl, -, hs⟩ | ⟨hf, -, -⟩
  · rw [hs, functionShape?, join_getElem?_setIfInBounds]
    split
    · rename_i h
      obtain ⟨rfl, hlt⟩ := h
      exact .inr ⟨rfl, hlt, hg, rfl⟩
    · exact .inl rfl
  · rw [hs]
    exact .inl rfl
  · exact .inl (by rw [functionShape?, hf, functionShape?])

theorem natives_apply (op : Operation) (s : Store) : (op.apply s).natives = s.natives ∨
    ∃ name result, op = .native name result ∧ s.natives.lookup name = none ∧
      (op.apply s).natives = (name, s.arena.size) :: s.natives ∧
      (op.apply s).arena = s.arena.push (.native result) := by
  rcases op.places_cases s with ⟨g, rfl, -, hs⟩ | ⟨name, result, rfl, hname, hs⟩ | ⟨-, h, -⟩
  · exact .inl (by rw [hs])
  · exact .inr ⟨name, result, rfl, hname, by rw [hs], by rw [hs]⟩
  · exact .inl h

theorem arena_apply_function {s : Store} {f : FuncId} (h : s.functionShape? f = none) :
    ((Operation.function f).apply s).arena = s.arena.push (.ofFunction f) := by
  simp [Operation.apply, functionShape, makeFunction, h]

/-- A shape keeps what it is the shape of. -/
theorem exists_get?_apply {s : Store} {id : FuncShapeId} {origin : Option FuncId} (op : Operation)
    (h : ∃ x, s.arena.get? id = some x ∧ x.origin = origin) :
    ∃ x, (op.apply s).arena.get? id = some x ∧ x.origin = origin := by
  obtain ⟨x, hx, horigin⟩ := h
  refine ⟨op.onShape id x, ?_, by rw [op.origin_onShape, horigin]⟩
  rw [get?_apply op (Arena.lt_size_of_get? hx), hx, Option.map_some]

theorem Registered.apply {s : Store} (h : s.Registered) (op : Operation) :
    (op.apply s).Registered where
  function f id hid := by
    rcases functionShape?_apply op s f with hf | ⟨rfl, -, hnone, hf⟩
    · exact exists_get?_apply op (h.function f id (by rwa [hf] at hid))
    · cases hf.symm.trans hid
      exact ⟨.ofFunction f, by rw [arena_apply_function hnone, Arena.get?_push_size], rfl⟩
  native p hp := by
    rcases natives_apply op s with hn | ⟨name, result, -, -, hn, harena⟩
    · exact exists_get?_apply op (h.native p (by rwa [hn] at hp))
    · rw [hn, List.mem_cons] at hp
      rcases hp with rfl | hp
      · exact ⟨.native result, by rw [harena, Arena.get?_push_size], rfl⟩
      · exact exists_get?_apply op (h.native p hp)
  nodup := by
    rcases natives_apply op s with hn | ⟨name, result, -, -, hn, -⟩
    · rw [hn]
      exact h.nodup
    · rw [hn, List.map_cons, List.nodup_cons]
      refine ⟨fun hmem => ?_, h.nodup⟩
      obtain ⟨p, hp, hsize⟩ := List.mem_map.1 hmem
      obtain ⟨x, hx, -⟩ := h.native p hp
      exact absurd (Arena.lt_size_of_get? hx) (by simp [hsize])

theorem Registered.run {s : Store} (h : s.Registered) (ops : List Operation) :
    (s.run ops).Registered := by
  induction ops generalizing s with
  | nil => exact h
  | cons op ops ih => exact ih (h.apply op)

/-! Whole runs. -/

theorem functionShape?_run {s : Store} {f : FuncId} {id : FuncShapeId}
    (h : s.functionShape? f = some id) (ops : List Operation) :
    (s.run ops).functionShape? f = some id := by
  induction ops generalizing s with
  | nil => exact h
  | cons op ops ih =>
    rcases functionShape?_apply op s f with hf | ⟨-, -, hnone, -⟩
    · exact ih (hf.trans h)
    · cases h.symm.trans hnone

theorem lookup_natives_run {s : Store} {name : String} {id : FuncShapeId}
    (h : s.natives.lookup name = some id) (ops : List Operation) :
    (s.run ops).natives.lookup name = some id := by
  induction ops generalizing s with
  | nil => exact h
  | cons op ops ih =>
    refine ih ?_
    rcases natives_apply op s with hn | ⟨other, result, -, hnone, hn, -⟩
    · rw [hn, h]
    · have hne : name ≠ other := by
        rintro rfl
        cases h.symm.trans hnone
      rw [hn, List.lookup_cons, beq_false_of_ne hne, h]

theorem lt_size_of_lt_size_apply {s : Store} {id : FuncShapeId} (op : Operation)
    (h : id < s.arena.size) : id < (op.apply s).arena.size := by
  obtain ⟨x, hx⟩ : ∃ x, s.arena.get? id = some x := ⟨_, Array.getElem?_eq_getElem h⟩
  exact Arena.lt_size_of_get? (f := op.onShape id x) (by rw [get?_apply op h, hx, Option.map_some])

theorem get?_run {s : Store} {id : FuncShapeId} (h : id < s.arena.size) (ops : List Operation) :
    (s.run ops).arena.get? id =
      (s.arena.get? id).map fun x => ops.foldl (fun x op => op.onShape id x) x := by
  induction ops generalizing s with
  | nil => exact Option.map_id'.symm
  | cons op ops ih =>
    calc ((op.apply s).run ops).arena.get? id
      _ = ((s.arena.get? id).map (op.onShape id)).map
            fun x => ops.foldl (fun x op => op.onShape id x) x := by
          rw [ih (lt_size_of_lt_size_apply op h), get?_apply op h]
      _ = (s.arena.get? id).map fun x => (op :: ops).foldl (fun x op => op.onShape id x) x :=
          Option.map_map ..

@[simp] theorem size_byFunction_apply (op : Operation) (s : Store) :
    (op.apply s).byFunction.size = s.byFunction.size := by
  rcases op.places_cases s with ⟨f, -, -, hs⟩ | ⟨name, result, -, -, hs⟩ | ⟨hf, -, -⟩
  · rw [hs, Array.size_setIfInBounds]
  · rw [hs]
  · rw [hf]

/-- The place that is given for a function in range is its place from then on. -/
theorem functionShape?_functionShape {s : Store} {f : FuncId} (h : f < s.byFunction.size) :
    (s.functionShape f).2.functionShape? f = some (s.functionShape f).1.1 := by
  cases hf : s.functionShape? f with
  | some id => simp [functionShape, makeFunction, functionPlace, hf]
  | none =>
    simp only [functionShape, makeFunction, functionPlace, hf]
    rw [functionShape?, join_getElem?_setIfInBounds, if_pos ⟨rfl, h⟩]

/-- A function in range has a place when it was asked for. -/
theorem isSome_functionShape?_run {s : Store} {f : FuncId} (hlt : f < s.byFunction.size)
    (ops : List Operation) : ((s.run ops).functionShape? f).isSome = true ↔
      (s.functionShape? f).isSome = true ∨ .function f ∈ ops := by
  induction ops generalizing s with
  | nil => simp
  | cons op ops ih =>
    have hstep : ((op.apply s).functionShape? f).isSome = true ↔
        (s.functionShape? f).isSome = true ∨ op = .function f := by
      rcases functionShape?_apply op s f with hf | ⟨rfl, -, -, hf⟩
      · refine ⟨fun h => .inl (by rwa [hf] at h), ?_⟩
        rintro (h | rfl)
        · rwa [hf]
        · exact Option.isSome_iff_exists.2 ⟨_, functionShape?_functionShape hlt⟩
      · exact iff_of_true (by rw [hf]; rfl) (.inr rfl)
    rw [List.mem_cons, eq_comm (a := Operation.function f), ← or_assoc, ← hstep]
    exact ih (by rwa [size_byFunction_apply])

/-- The place that is given for a built-in constructor is its place from then on. -/
theorem lookup_natives_native (s : Store) (name : String) (result : Tag) :
    (s.native name result).2.natives.lookup name = some (s.native name result).1 := by
  cases h : s.natives.lookup name with
  | some id => simp [native, makeNative, nativePlace, h]
  | none => simp [native, makeNative, nativePlace, h]

/-- A built-in constructor has a place when it was asked for. -/
theorem isSome_lookup_natives_run (s : Store) (name : String) (ops : List Operation) :
    ((s.run ops).natives.lookup name).isSome = true ↔
      (s.natives.lookup name).isSome = true ∨ ∃ result, .native name result ∈ ops := by
  induction ops generalizing s with
  | nil => simp
  | cons op ops ih =>
    have hstep : ((op.apply s).natives.lookup name).isSome = true ↔
        (s.natives.lookup name).isSome = true ∨ ∃ result, op = .native name result := by
      constructor
      · intro h
        rcases natives_apply op s with hn | ⟨other, result, rfl, -, hn, -⟩
        · exact .inl (by rwa [hn] at h)
        · rw [hn, List.lookup_cons] at h
          cases hname : name == other with
          | true => exact .inr ⟨result, by rw [eq_of_beq hname]⟩
          | false => exact .inl (by rwa [hname] at h)
      · rintro (h | ⟨result, rfl⟩)
        · obtain ⟨id, hid⟩ := Option.isSome_iff_exists.1 h
          exact Option.isSome_iff_exists.2 ⟨id, lookup_natives_run hid [op]⟩
        · exact Option.isSome_iff_exists.2 ⟨_, lookup_natives_native s name result⟩
    have hasked : (∃ result, Operation.native name result ∈ op :: ops) ↔
        (∃ result, op = .native name result) ∨ ∃ result, .native name result ∈ ops := by
      simp only [List.mem_cons, exists_or, eq_comm (b := op)]
    rw [hasked, ← or_assoc, ← hstep]
    exact ih _

theorem size_byFunction_run (s : Store) (ops : List Operation) :
    (s.run ops).byFunction.size = s.byFunction.size := by
  induction ops generalizing s with
  | nil => rfl
  | cons op ops ih => exact (ih _).trans (size_byFunction_apply op s)

/-- No place is that of two functions, of two built-in constructors, or of one and the other. -/
structure Unshared (s : Store) : Prop where
  functions : ∀ f g id, s.functionShape? f = some id → s.functionShape? g = some id → f = g
  natives : ∀ name name' id, s.natives.lookup name = some id → s.natives.lookup name' = some id →
    name = name'
  apart : ∀ f name id, s.functionShape? f = some id → s.natives.lookup name ≠ some id

theorem mem_natives_of_lookup {s : Store} {name : String} {id : FuncShapeId}
    (h : s.natives.lookup name = some id) : (name, id) ∈ s.natives := by
  obtain ⟨before, after, hsplit, -⟩ := List.lookup_eq_some_iff.1 h
  simp [hsplit]

/-- A shape tells whose place it is at. -/
theorem Registered.unshared {s : Store} (h : s.Registered) : s.Unshared where
  functions f g id hf hg := by
    obtain ⟨x, hx, hxf⟩ := h.function f id hf
    obtain ⟨y, hy, hyg⟩ := h.function g id hg
    cases hx.symm.trans hy
    exact Option.some.inj (hxf.symm.trans hyg)
  natives name name' id hname hname' :=
    congrArg Prod.fst (List.inj_on_of_nodup_map h.nodup (mem_natives_of_lookup hname)
      (mem_natives_of_lookup hname') rfl)
  apart f name id hf hname := by
    obtain ⟨x, hx, hxf⟩ := h.function f id hf
    obtain ⟨y, hy, hyn⟩ := h.native _ (mem_natives_of_lookup hname)
    cases hx.symm.trans hy
    cases hxf.symm.trans hyn

/-- The shape of a function in range, or of a built-in constructor, is made when it is first asked
for and found at the same place ever after. No place is shared, no shape removed. -/
theorem function_places_stable (nodes bindings funcs : Nat) (ops : List Operation) :
    let s := (new nodes bindings funcs).run ops
    (∀ f < funcs, ((s.functionShape f).1.2 = true ↔ .function f ∉ ops) ∧
      (s.functionShape f).2.functionShape? f = some (s.functionShape f).1.1) ∧
    (∀ f id, s.functionShape? f = some id → ∀ more,
      (s.run more).functionShape? f = some id ∧ ((s.run more).functionShape f).1 = (id, false)) ∧
    (∀ name result, (s.natives.lookup name = none ↔ ∀ r, .native name r ∉ ops) ∧
      (s.native name result).2.natives.lookup name = some (s.native name result).1) ∧
    (∀ name id, s.natives.lookup name = some id → ∀ more result,
      (s.run more).natives.lookup name = some id ∧ ((s.run more).native name result).1 = id) ∧
    s.Unshared ∧ s.Registered ∧
    ∀ id < s.arena.size, ∀ more, (s.run more).arena.get? id =
      (s.arena.get? id).map fun x => more.foldl (fun x op => op.onShape id x) x := by
  intro s
  have hs : s.Registered := (registered_new nodes bindings funcs).run ops
  have hsize : (new nodes bindings funcs).byFunction.size = funcs := Array.size_replicate
  refine ⟨fun f hf => ⟨?_, ?_⟩, fun f id h more => ?_, fun name result => ⟨?_, ?_⟩,
    fun name id h more result => ?_, hs.unshared, hs, fun id hid => get?_run hid⟩
  · have hasked := isSome_functionShape?_run (hsize.symm ▸ hf) ops
    rw [functionShape?_new, Option.isSome_none, Bool.false_eq_true, false_or] at hasked
    rw [← hasked, functionShape, functionPlace]
    cases s.functionShape? f <;> simp
  · refine functionShape?_functionShape ?_
    rwa [size_byFunction_run, hsize]
  · have hplace := functionShape?_run h more
    exact ⟨hplace, by rw [functionShape, functionPlace, hplace]⟩
  · have hasked := isSome_lookup_natives_run (new nodes bindings funcs) name ops
    have hnone : (new nodes bindings funcs).natives.lookup name = none := rfl
    rw [hnone, Option.isSome_none, Bool.false_eq_true, false_or] at hasked
    rw [← not_exists, ← hasked]
    cases s.natives.lookup name <;> simp
  · exact lookup_natives_native s name result
  · have hplace := lookup_natives_run h more
    exact ⟨hplace, by rw [native, nativePlace, hplace, Option.getD_some]⟩

/-- Two functions and two constructors are asked for in turn, over two passes, and the signature of
one is changed in between. -/
theorem function_places_stable_interleaved :
    let ops : List Operation := [.function 1, .native "Date" .object, .beginPass,
      .setSignature 0 [] true ⟨.inferred .int, none, false, true⟩, .function 0]
    let s := (new 0 0 2).run ops
    s.functionShape? 1 = some 0 ∧ s.functionShape? 0 = some 2 ∧
      (s.native "Error" .object).1 = 3 ∧
      (s.native "Error" .object).2.natives.lookup "Error" = some 3 ∧
      ∀ more, (s.run more).functionShape? 1 = some 0 ∧
        (s.run more).natives.lookup "Date" = some 1 ∧ ((s.run more).functionShape 0).1 = (2, false) := by
  intro ops s
  obtain ⟨-, hfunctions, hnew, hnatives, -⟩ := function_places_stable 0 0 2 ops
  exact ⟨rfl, rfl, rfl, (hnew "Error" .object).2, fun more => ⟨(hfunctions 1 0 rfl more).1,
    (hnatives "Date" 1 rfl more .object).1, (hfunctions 0 2 rfl more).2⟩⟩

end Store
end TagCheck
