import TagCheck.Proofs.Check.Range
import TagCheck.Proofs.Check.Walk

/-! Function shapes along a walk. A function that is entered becomes the innermost one and is left
again, and in between the shapes of all functions stay as they are that are not entered, but for
the types and the shapes of their parameters. -/
namespace TagCheck

/-- The shape of a function is in the arena and says which function it is of. -/
def Store.Originates (s : Store) : Prop :=
  ∀ k id, s.functionShape? k = some id → ∃ g, s.arena.get? id = some g ∧ g.origin = some k

/-- What holds before and after every visit. -/
structure CheckState.InOrder (P : NodeId → Prop) (s : CheckState) : Prop where
  tells : s.store.Tells P
  originates : s.store.Originates

/-- The shape of a function says which one it is of. -/
theorem CheckState.InOrder.origin_eq {P : NodeId → Prop} {s : CheckState} (hs : s.InOrder P)
    {k : FuncId} {id : FuncShapeId} {g : FuncShape} (hid : s.store.functionShape? k = some id)
    (hg : s.store.arena.get? id = some g) : g.origin = some k := by
  obtain ⟨g', hg', hk⟩ := hs.originates k id hid
  rwa [Option.some.inj (hg'.symm.trans hg)] at hk

/-- The functions `ks` and the shapes `own` aside, all functions have the shapes that they had, and
these are the same apart from the types and the shapes of parameters. -/
structure CheckState.Spares (ks : FuncId → Prop) (own : FuncShapeId → Prop) (s t : CheckState) :
    Prop where
  size : t.store.byFunction.size = s.store.byFunction.size
  functionShape? (k : FuncId) (hk : ¬ ks k) : t.store.functionShape? k = s.store.functionShape? k
  agrees (id : FuncShapeId) (g : FuncShape) (hg : s.store.arena.get? id = some g) (hown : ¬ own id)
    (hks : ∀ k, ks k → g.origin ≠ some k) : ∃ g', t.store.arena.get? id = some g' ∧ g.Agrees g'

/-- A write that goes no further than the functions `ks` and the shapes `own`. -/
structure Write.Within (ks : FuncId → Prop) (own : FuncShapeId → Prop) (s : CheckState) (w : Write) :
    Prop where
  function (k : FuncId) (hw : w = .function k) : ks k
  func (id : FuncShapeId) (h : FuncShape → FuncShape) (hw : w = .func id h) (g : FuncShape)
    (hg : s.store.arena.get? id = some g) (hown : ¬ own id) (hks : ∀ k, ks k → g.origin ≠ some k) :
    g.Agrees (h g)

namespace CheckState.Spares

variable {ks ks' : FuncId → Prop} {own own' : FuncShapeId → Prop} {s t u : CheckState}

theorem refl (s : CheckState) : Spares ks own s s where
  size := rfl
  functionShape? _ _ := rfl
  agrees _ g hg _ _ := ⟨g, hg, .refl g⟩

theorem trans (h : Spares ks own s t) (h' : Spares ks own t u) : Spares ks own s u where
  size := h'.size.trans h.size
  functionShape? k hk := (h'.functionShape? k hk).trans (h.functionShape? k hk)
  agrees id g hg hown hks := by
    obtain ⟨g₁, hg₁, hagrees₁⟩ := h.agrees id g hg hown hks
    obtain ⟨g₂, hg₂, hagrees₂⟩ := h'.agrees id g₁ hg₁ hown (hagrees₁.origin ▸ hks)
    exact ⟨g₂, hg₂, hagrees₁.trans hagrees₂⟩

end CheckState.Spares

variable {P : NodeId → Prop} {B : BindingId → Prop} {ks ks' : FuncId → Prop}
  {own own' : FuncShapeId → Prop} {alters : FuncShapeId → FuncShape → FuncShape → Prop} {R : Prop}

theorem Store.functionShape?_makeFunction_of_ne {s : Store} {f k : FuncId} (hk : k ≠ f) :
    (s.makeFunction f).functionShape? k = s.functionShape? k := by
  unfold makeFunction
  split
  · rfl
  · simp [functionShape?, Ne.symm hk]

namespace Write

variable {w : Write}

theorem Steady.originates (hw : w.Steady P) {s : Store} (hs : s.Originates) :
    (w.onStore s).Originates := by
  intro k id hk
  have hkeep (hid : s.functionShape? k = some id) :
      ∃ g, (w.onStore s).arena.get? id = some g ∧ g.origin = some k := by
    obtain ⟨g, hg, horigin⟩ := hs k id hid
    rcases get?_onStore (w := w) hg with hkeep | ⟨f, rfl, hnew⟩
    · exact ⟨g, hkeep, horigin⟩
    · exact ⟨f g, hnew, (hw g).1.trans horigin⟩
  by_cases hnot : ∀ f, w ≠ .function f
  · exact hkeep (by rwa [functionShape?_onStore hnot] at hk)
  · simp only [ne_eq, not_forall, not_not] at hnot
    obtain ⟨f, rfl⟩ := hnot
    rcases Store.of_functionShape?_makeFunction hk with hk | ⟨rfl, hnone, rfl⟩
    · exact hkeep hk
    · exact ⟨.ofFunction k, by simp [onStore, Store.makeFunction, hnone, Arena.get?, Arena.push,
        Arena.size], rfl⟩

/-- A steady write keeps the functions apart and their shapes in place. -/
theorem Steady.inOrder (hw : w.Steady P) {s : CheckState} (hs : s.InOrder P) :
    (w.apply s).InOrder P := by
  refine ⟨?_, ?_⟩
  · rw [store_apply]
    exact hs.tells.onStore hw
  · rw [store_apply]
    exact hw.originates hs.originates

/-- A steady write keeps which function a shape is of. -/
theorem Steady.origin (hw : w.Steady P) {s : CheckState} {id : FuncShapeId} {k : Option FuncId}
    (h : ∃ g, s.store.arena.get? id = some g ∧ g.origin = k) :
    ∃ g, (w.apply s).store.arena.get? id = some g ∧ g.origin = k := by
  obtain ⟨g, hg, horigin⟩ := h
  rw [store_apply]
  rcases get?_onStore (w := w) hg with hkeep | ⟨f, rfl, hnew⟩
  · exact ⟨g, hkeep, horigin⟩
  · exact ⟨f g, hnew, (hw g).1.trans horigin⟩

namespace Within

variable {s : CheckState}

theorem mono (h : w.Within ks own s) (hks : ∀ k, ks k → ks' k) (hown : ∀ id, own id → own' id) :
    w.Within ks' own' s where
  function k hw := hks k (h.function k hw)
  func id f hw g hg hnot horigin :=
    h.func id f hw g hg (fun hid => hnot (hown id hid)) fun k hk => horigin k (hks k hk)

/-- Most writes are not about functions. -/
theorem of_ne (hfunction : ∀ k, w ≠ .function k) (hfunc : ∀ id f, w ≠ .func id f) :
    w.Within ks own s where
  function k hw := absurd hw (hfunction k)
  func id f hw := absurd hw (hfunc id f)

theorem spares (h : w.Within ks own s) : CheckState.Spares ks own s (w.apply s) where
  size := by rw [store_apply, size_byFunction_onStore]
  functionShape? k hk := by
    rw [store_apply]
    by_cases hw : ∀ f, w ≠ .function f
    · exact functionShape?_onStore hw _ k
    · simp only [ne_eq, not_forall, not_not] at hw
      obtain ⟨f, rfl⟩ := hw
      refine Store.functionShape?_makeFunction_of_ne ?_
      rintro rfl
      exact hk (h.function k rfl)
  agrees id g hg hown hks := by
    rw [store_apply]
    rcases get?_onStore (w := w) hg with hkeep | ⟨f, rfl, hnew⟩
    · exact ⟨g, hkeep, .refl g⟩
    · exact ⟨f g, hnew, h.func id f rfl g hg hown hks⟩

end Within

theorem Ordinary.within (hw : w.Ordinary True P B alters R) (hown : ∀ id g g', alters id g g' → own id)
    (s : CheckState) : w.Within ks own s where
  function k h := by
    subst h
    exact hw.elim
  func id f h g _ hnot _ := by
    subst h
    rcases (hw g).2 with hagrees | halters
    · exact hagrees
    · exact absurd (hown id g (f g) halters) hnot

theorem Ordinary.frames (hw : w.Ordinary True P B alters R) (s : CheckState) :
    (w.apply s).frames = s.frames := by
  cases w with
  | enter id => exact hw.elim
  | leave => exact hw.elim
  | _ => rfl

end Write

namespace Check

variable {env : CheckEnv} {vs vs' : List Visit} {s t : CheckState}

theorem moments_append (vs vs' : List Visit) (s : CheckState) :
    moments env (vs ++ vs') s = moments env vs s ++ moments env vs' (vs.foldl (visit env) s) := by
  induction vs generalizing s with
  | nil => rfl
  | cons v vs ih => rw [List.cons_append, moments, moments, ih, List.append_assoc, List.foldl_cons]

/-- What no moment destroys holds at each of them. -/
theorem Linked.forall_before {ms : List Moment} (h : Linked s ms t) {Q : CheckState → Prop}
    (hs : Q s) (hQ : ∀ m ∈ ms, Q m.before → Q m.after) : ∀ m ∈ ms, Q m.before := by
  intro m hm
  obtain ⟨ms₁, ms₂, rfl⟩ := List.append_of_mem hm
  exact h.split.1.lasts hs fun k hk => hQ k (List.mem_append_left _ hk)

/-- The visits go no further than the functions `ks` and the shapes `own`. -/
structure Local (P : NodeId → Prop) (ks : FuncId → Prop) (own : FuncShapeId → Prop) (env : CheckEnv)
    (vs : List Visit) (s : CheckState) : Prop where
  steady (m : Moment) (hm : m ∈ moments env vs s) : m.write.Steady P
  within (m : Moment) (hm : m ∈ moments env vs s) : m.write.Within ks own m.before

namespace Local

theorem nil : Local P ks own env [] s := ⟨by simp [moments], by simp [moments]⟩

theorem append (h : Local P ks own env vs s) (h' : Local P ks own env vs' (vs.foldl (visit env) s)) :
    Local P ks own env (vs ++ vs') s := by
  refine ⟨?_, ?_⟩
  · rw [moments_append]
    exact List.forall_mem_append.2 ⟨h.steady, h'.steady⟩
  · rw [moments_append]
    exact List.forall_mem_append.2 ⟨h.within, h'.within⟩

theorem mono (h : Local P ks own env vs s) (hks : ∀ k, ks k → ks' k) (hown : ∀ id, own id → own' id) :
    Local P ks' own' env vs s :=
  ⟨h.steady, fun m hm => (h.within m hm).mono hks hown⟩

theorem inOrder (h : Local P ks own env vs s) (hs : s.InOrder P) :
    (vs.foldl (visit env) s).InOrder P :=
  (linked_moments env vs s).lasts hs fun m hm => (h.steady m hm).inOrder

theorem spares (h : Local P ks own env vs s) :
    CheckState.Spares ks own s (vs.foldl (visit env) s) :=
  (linked_moments env vs s).lasts (.refl s) fun m hm hs => hs.trans (h.within m hm).spares

theorem origin (h : Local P ks own env vs s) {id : FuncShapeId} {k : Option FuncId}
    (hid : ∃ g, s.store.arena.get? id = some g ∧ g.origin = k) :
    ∃ g, (vs.foldl (visit env) s).store.arena.get? id = some g ∧ g.origin = k :=
  (linked_moments env vs s).lasts
    (P := fun t => ∃ g, t.store.arena.get? id = some g ∧ g.origin = k) hid
    fun m hm => (h.steady m hm).origin

/-- What happens to the shape of a function happens to the function. -/
theorem forget {id : FuncShapeId} {k : FuncId} (h : Local P ks (· = id) env vs s)
    (hid : ∃ g, s.store.arena.get? id = some g ∧ g.origin = some k) :
    Local P (fun j => j = k ∨ ks j) own env vs s := by
  refine ⟨h.steady, fun m hm => ⟨fun k' hw => ?_, fun id' f hw g hg _ horigin => ?_⟩⟩
  · exact .inr ((h.within m hm).function k' hw)
  · have hkeep := (linked_moments env vs s).forall_before
      (Q := fun t => ∃ g, t.store.arena.get? id = some g ∧ g.origin = some k) hid
      fun m hm => (h.steady m hm).origin
    by_cases hid' : id' = id
    · obtain ⟨g', hg', hk⟩ := hkeep m hm
      subst hid'
      obtain rfl : g' = g := Option.some.inj (hg'.symm.trans hg)
      exact absurd hk (horigin k (.inl rfl))
    · exact (h.within m hm).func id' f hw g hg hid' fun k' hk' => horigin k' (.inr hk')

end Local

structure Stays (P : NodeId → Prop) (ks : FuncId → Prop) (own : FuncShapeId → Prop) (env : CheckEnv)
    (vs : List Visit) (s : CheckState) : Prop extends Local P ks own env vs s where
  frames : (vs.foldl (visit env) s).frames = s.frames

namespace Stays

theorem nil : Stays P ks own env [] s := ⟨.nil, rfl⟩

theorem append (h : Stays P ks own env vs s)
    (h' : Stays P ks own env vs' (vs.foldl (visit env) s)) : Stays P ks own env (vs ++ vs') s := by
  refine ⟨h.toLocal.append h'.toLocal, ?_⟩
  rw [List.foldl_append, h'.frames, h.frames]

theorem mono (h : Stays P ks own env vs s) (hks : ∀ k, ks k → ks' k) (hown : ∀ id, own id → own' id) :
    Stays P ks' own' env vs s :=
  ⟨h.toLocal.mono hks hown, h.frames⟩

end Stays

theorem local_of_ensures {v : Visit} {Q : Unit → CheckState → Prop}
    (h : (v.apply env).Ensures (fun s w => w.Steady P ∧ w.Within ks own s) Q s) :
    Local P ks own env [v] s := by
  have htrace := (ensures_iff_trace.1 h).1
  have hmoments (m : Moment) (hm : m ∈ moments env [v] s) :
      m.write.Steady P ∧ m.write.Within ks own m.before := by
    rw [moments, moments, List.append_nil] at hm
    obtain ⟨x, hx, rfl⟩ := List.mem_map.1 hm
    exact htrace x hx
  exact ⟨fun m hm => (hmoments m hm).1, fun m hm => (hmoments m hm).2⟩

/-- A rule whose writes are ordinary enters and leaves no function. -/
theorem ensures_of_ordinary {m : Check α} {Q : α → CheckState → Prop}
    (h : m.Ensures (fun _ w => w.Ordinary True P B alters R) Q s)
    (hown : ∀ id g g', alters id g g' → own id) :
    m.Ensures (fun s w => w.Steady P ∧ w.Within ks own s) (fun _ t => t.frames = s.frames) s := by
  have hframes := h.invariant (I := fun t => t.frames = s.frames) rfl fun t w ht hw =>
    (hw.frames t).trans ht
  exact hframes.mono (fun t w hw => ⟨hw.2.steady trivial, hw.2.within hown t⟩) fun _ _ ht => ht.1

end Check

def Visit.Own (s : CheckState) (v : Visit) (id : FuncShapeId) : Prop :=
  v.isOwn = true ∧ s.frames.head? = some id

theorem Check.stays_visit {env : CheckEnv}
    (himplies : ∀ param i, env.ImpliesAt param i → P param.id ∧ P i.node.id) {v : Visit}
    (hv : v.Regular P) (hbracket : v.isBracket = false) {s : CheckState} (hs : s.InOrder P) :
    Stays P ks (v.Own s) env [v] s := by
  have hrun : (v.apply env).Ensures (fun t w => w.Steady P ∧ w.Within ks (v.Own s) t)
      (fun _ t => t.frames = s.frames) s :=
    ensures_of_ordinary (v.ensures_ordinary hv hbracket himplies hs.tells)
      fun id g g' h => ⟨Visit.isOwn_of_alters h.2, h.1⟩
  exact ⟨local_of_ensures hrun, (ensures_iff_trace.1 hrun).2⟩

/-! Functions that are entered and left. -/

namespace Store

variable {s : Store}

theorem functionShape?_makeFunction {f : FuncId} (hf : f < s.byFunction.size) :
    (s.makeFunction f).functionShape? f = some (s.functionPlace f).1 :=
  Write.InRange.takesEffect (w := .function f) hf

theorem get?_makeFunction {f : FuncId} {id : FuncShapeId} {g : FuncShape}
    (hg : s.arena.get? id = some g) : (s.makeFunction f).arena.get? id = some g := by
  unfold makeFunction
  split
  · exact hg
  · exact (Arena.get?_push_of_lt (Arena.lt_size_of_get? hg)).trans hg

/-- The shape of a function is the one that it has, or a new one. -/
theorem get?_functionPlace (hs : s.Originates) (f : FuncId) :
    (s.functionPlace f).2 = false ∧ s.functionShape? f = some (s.functionPlace f).1 ∧
        (∃ g, s.arena.get? (s.functionPlace f).1 = some g ∧ g.origin = some f ∧
          (s.makeFunction f).arena.get? (s.functionPlace f).1 = some g) ∨
      (s.functionPlace f).2 = true ∧ s.functionShape? f = none ∧
        (s.functionPlace f).1 = s.arena.size ∧
        (s.makeFunction f).arena.get? (s.functionPlace f).1 = some (.ofFunction f) := by
  cases hid : s.functionShape? f with
  | some id =>
    have hplace : s.functionPlace f = (id, false) := by simp [functionPlace, hid]
    obtain ⟨g, hg, horigin⟩ := hs f id hid
    rw [hplace]
    exact .inl ⟨rfl, rfl, g, hg, horigin, get?_makeFunction hg⟩
  | none =>
    have hplace : s.functionPlace f = (s.arena.size, true) := by simp [functionPlace, hid]
    rw [hplace]
    refine .inr ⟨rfl, rfl, rfl, ?_⟩
    simp [makeFunction, hid, Arena.get?, Arena.push, Arena.size]

end Store

/-- What is left where a function has been entered: its shape is the innermost one and its result is
open. -/
structure CheckState.Entered (f : FuncId) (id : FuncShapeId) (g : FuncShape)
    (s t : CheckState) : Prop where
  frames : t.frames = id :: s.frames
  size : t.store.byFunction.size = s.store.byFunction.size
  shape : t.store.functionShape? f = some id
  others (k : FuncId) (hk : k ≠ f) : t.store.functionShape? k = s.store.functionShape? k
  /-- The shape is the one that the function had, or a new one. -/
  source : s.store.functionShape? f = some id ∧ s.store.arena.get? id = some g ∨
    s.store.functionShape? f = none ∧ s.store.arena.get? id = none ∧ g = .ofFunction f
  get? : t.store.arena.get? id = some { g with ret := { g.ret with isDefault := true } }
  get?_of_ne (id' : FuncShapeId) (g' : FuncShape) (hne : id' ≠ id)
    (hg : s.store.arena.get? id' = some g') : t.store.arena.get? id' = some g'

/-- A write to a cell leaves the function shapes as they are. -/
theorem Write.functions_onStore {w : Write} (s : Store)
    (hw : (∃ t ty, w = .type t ty) ∨ ∃ t x, w = .shape t x) :
    (w.onStore s).arena = s.arena ∧ (w.onStore s).byFunction = s.byFunction := by
  rcases hw with ⟨t, ty, rfl⟩ | ⟨t, x, rfl⟩
  · simp only [onStore, Store.markType, Store.forceType]
    split <;> simp
  · cases x with
    | none => exact ⟨rfl, rfl⟩
    | some x =>
      simp only [onStore, Store.markShape, Store.forceShape]
      split <;> simp

namespace CheckState

variable {f : FuncId} {id : FuncShapeId} {g : FuncShape} {s t : CheckState}

/-- The steps by which a function is entered, once its node has its type. -/
def enterSteps (n : NodeId) (f : FuncId) (s : CheckState) : CheckState :=
  let place := s.store.functionPlace f
  let made := (Write.function f).apply s
  let opened :=
    if place.2 = true then made
    else (Write.func place.1 fun g => { g with ret := { g.ret with isDefault := true } }).apply made
  (Write.enter place.1).apply ((Write.shape (.node n) (some (.func place.1))).apply opened)

theorem enterSteps_eq (env : CheckEnv) (n : NodeId) (f : FuncId) (s : CheckState) :
    Check.visit env s (.enterFunction n f) =
      enterSteps n f ((Write.type (.node n) (.inferred .func)).apply s) := by
  let s' := (Write.type (.node n) (.inferred .func)).apply s
  have hrun : (Check.enterFunction n f).Ensures (fun _ _ => True)
      (fun _ t => t = enterSteps n f s') s := by
    simp only [Check.enterFunction, Check.markType, Check.functionShape, Check.modifyReturn,
      Check.modifyFunc, Check.markShape, Check.ensures_bind, Check.ensures_put,
      Check.ensures_getStore, Check.ensures_pure, Check.ensures_ite, true_and]
    refine ⟨fun hcreated => ?_, fun hcreated => ?_⟩
    · simp only [enterSteps, s', if_pos hcreated]
    · simp only [enterSteps, s', if_neg hcreated]
  exact (Check.ensures_iff_trace.1 hrun).2

theorem entered_enterSteps (n : NodeId) (hs : s.store.Originates) (hf : f < s.store.byFunction.size) :
    ∃ id g, Entered f id g s (enterSteps n f s) := by
  let id := (s.store.functionPlace f).1
  let open_ (g : FuncShape) : FuncShape := { g with ret := { g.ret with isDefault := true } }
  let made := s.store.makeFunction f
  -- The shape in its place after the function has been opened.
  obtain ⟨store, g, hstore, hfunctions, hsource, hget, hothers⟩ :
      ∃ store g, enterSteps n f s = (Write.enter id).apply
          ((Write.shape (.node n) (some (.func id))).apply { s with store := store }) ∧
        store.byFunction = made.byFunction ∧
        (s.store.functionShape? f = some id ∧ s.store.arena.get? id = some g ∨
          s.store.functionShape? f = none ∧ s.store.arena.get? id = none ∧ g = .ofFunction f) ∧
        store.arena.get? id = some (open_ g) ∧
        ∀ id' g', id' ≠ id → s.store.arena.get? id' = some g' → store.arena.get? id' = some g' := by
    rcases s.store.get?_functionPlace hs f with
      ⟨hcreated, hshape, g, hg, -, hmade⟩ | ⟨hcreated, hshape, hid, hmade⟩
    · refine ⟨made.modifyFunc id open_, g, ?_, rfl, .inl ⟨hshape, hg⟩, ?_, fun id' g' hne hg' => ?_⟩
      · simp only [enterSteps, hcreated]
        rfl
      · simp [Store.modifyFunc, Arena.get?_modify, made, id, hmade]
      · rw [Store.modifyFunc, Arena.get?_modify, if_neg (Ne.symm hne)]
        exact Store.get?_makeFunction hg'
    · refine ⟨made, .ofFunction f, ?_, rfl, .inr ⟨hshape, ?_, rfl⟩, hmade, fun id' g' _ hg' => ?_⟩
      · simp only [enterSteps, hcreated]
        rfl
      · simp [id, hid, Arena.get?, Arena.size]
      · exact Store.get?_makeFunction hg'
  have hcells := Write.functions_onStore (w := .shape (.node n) (some (.func id))) store
    (.inr ⟨_, _, rfl⟩)
  have htable (k : FuncId) :
      (enterSteps n f s).store.functionShape? k = made.functionShape? k := by
    simp only [hstore, Store.functionShape?, Write.store_apply, Write.onStore] at hcells ⊢
    rw [hcells.2, hfunctions]
  have harena : (enterSteps n f s).store.arena = store.arena := by
    simpa [hstore, Write.onStore] using hcells.1
  refine ⟨id, g, ?_, ?_, ?_, fun k hk => ?_, hsource, ?_, fun id' g' hne hg' => ?_⟩
  · rw [hstore]
    rfl
  · have hsize := Write.size_byFunction_onStore (.function f) s.store
    simp only [hstore, Write.store_apply, Write.onStore] at hcells hsize ⊢
    rw [hcells.2, hfunctions, hsize]
  · rw [htable]
    exact Store.functionShape?_makeFunction hf
  · rw [htable]
    exact Store.functionShape?_makeFunction_of_ne hk
  · rw [harena, hget]
  · rw [harena]
    exact hothers id' g' hne hg'

end CheckState

namespace Check

variable (env : CheckEnv) {n : NodeId} {f : FuncId} {s : CheckState}

theorem entered_enterFunction (hs : s.InOrder P) (hf : f < s.store.byFunction.size) :
    ∃ id g, CheckState.Entered f id g s (visit env s (.enterFunction n f)) := by
  let s' := (Write.type (.node n) (.inferred .func)).apply s
  obtain ⟨harena, htable⟩ : s'.store.arena = s.store.arena ∧
      s'.store.byFunction = s.store.byFunction :=
    Write.functions_onStore s.store (.inl ⟨.node n, .inferred .func, rfl⟩)
  have hshape (k : FuncId) : s'.store.functionShape? k = s.store.functionShape? k := by
    rw [Store.functionShape?, htable, Store.functionShape?]
  have horiginates : s'.store.Originates := by
    intro k id hk
    rw [hshape] at hk
    rw [harena]
    exact hs.originates k id hk
  rw [CheckState.enterSteps_eq]
  obtain ⟨id, g, h⟩ := CheckState.entered_enterSteps n horiginates (by rwa [htable])
  refine ⟨id, g, h.frames, ?_, h.shape, fun k hk => ?_, ?_, h.get?, fun id' g' hne hg => ?_⟩
  · rw [h.size, htable]
  · rw [h.others k hk, hshape]
  · simpa only [hshape, harena] using h.source
  · exact h.get?_of_ne id' g' hne (by rwa [harena])

theorem local_enterFunction (hn : P n) (hs : s.InOrder P) (hf : f < s.store.byFunction.size) :
    Local P (· = f) (fun _ => False) env [.enterFunction n f] s := by
  refine local_of_ensures (Q := fun _ _ => True) ?_
  let s₁ := (Write.type (.node n) (.inferred .func)).apply s
  have htype : (Write.type (.node n) (.inferred .func)).Steady P := Ty.suits_of_isRest hn rfl
  have hs₁ : s₁.InOrder P := htype.inOrder hs
  have hs₂ : ((Write.function f).apply s₁).InOrder P :=
    Write.Steady.inOrder (w := .function f) trivial hs₁
  have hf₁ : f < s₁.store.byFunction.size := by
    rwa [Write.store_apply, Write.size_byFunction_onStore]
  have hopen : (Write.func (s₁.store.functionPlace f).1 fun g =>
      { g with ret := { g.ret with isDefault := true } }).Within (· = f) (fun _ => False)
        ((Write.function f).apply s₁) := by
    refine ⟨by simp, fun id h hw g hg _ horigin => ?_⟩
    cases hw
    obtain ⟨g', hg', hk⟩ := hs₂.originates f _ (Store.functionShape?_makeFunction hf₁)
    obtain rfl : g' = g := Option.some.inj (hg'.symm.trans hg)
    exact absurd hk (horigin f rfl)
  have hfunction : (Write.function f).Within (· = f) (fun _ => False) s₁ :=
    ⟨fun k hw => (Write.function.inj hw).symm, by simp⟩
  simp only [Visit.apply, enterFunction, markType, functionShape, modifyReturn, modifyFunc, markShape,
    ensures_bind, ensures_put, ensures_getStore, ensures_pure, ensures_ite]
  refine ⟨⟨htype, .of_ne (by simp) (by simp)⟩, ⟨trivial, hfunction⟩, fun _ => ?_, fun _ => ?_⟩
  · exact ⟨⟨trivial, .of_ne (by simp) (by simp)⟩, ⟨trivial, .of_ne (by simp) (by simp)⟩, trivial⟩
  · refine ⟨⟨fun g => ⟨rfl, fun h => h⟩, hopen⟩, ?_⟩
    exact ⟨⟨trivial, .of_ne (by simp) (by simp)⟩, ⟨trivial, .of_ne (by simp) (by simp)⟩, trivial⟩

/-- The function that is entered does not have the shape of another one. -/
theorem ne_of_enterFunction (hn : P n) (hs : s.InOrder P) (hf : f < s.store.byFunction.size)
    {id id' : FuncShapeId} {k : FuncId}
    (hid : ∃ g, s.store.arena.get? id = some g ∧ g.origin = some k) (hk : k ≠ f)
    (hid' : (visit env s (.enterFunction n f)).store.functionShape? f = some id') : id ≠ id' := by
  have hlocal := local_enterFunction env hn hs hf
  rintro rfl
  obtain ⟨g, hg, horigin⟩ : ∃ g, (visit env s (.enterFunction n f)).store.arena.get? id = some g ∧
      g.origin = some k := hlocal.origin hid
  obtain ⟨g', hg', horigin'⟩ := (hlocal.inOrder hs).originates f id hid'
  obtain rfl : g = g' := Option.some.inj (hg.symm.trans hg')
  exact hk (Option.some.inj (horigin.symm.trans horigin'))

theorem local_leaveFunction {id : FuncShapeId} (hid : s.frames.head? = some id) (pos : Position)
    (name : String) {result : Option NodeId} (hresult : ∀ n ∈ result, P n) (hs : s.InOrder P) :
    Local P ks (· = id) env [.leaveFunction pos name result] s ∧
      (visit env s (.leaveFunction pos name result)).frames = s.frames.tail := by
  have hordinary : (settleResult id result).Ordinary True P (fun _ => False)
      (fun k _ _ => k = id) False :=
    ordinary_settleResult (fun _ _ => rfl) fun n hn _ => hresult n hn
  have hsettle : (settleResult id result).Ensures (fun t w => w.Steady P ∧ w.Within ks (· = id) t)
      (fun _ t => t.frames = s.frames) s :=
    ensures_of_ordinary (hordinary s fun _ => hs.tells) fun _ _ _ h => h
  have hrun : (leaveFunction pos name result).Ensures
      (fun s w => w.Steady P ∧ w.Within ks (· = id) s) (fun _ t => t.frames = s.frames.tail) s := by
    refine ensures_bind.2 ?_
    rw [ensures_frame?, hid]
    refine ensures_bind.2 (hsettle.imp fun _ t ht => ?_)
    refine ⟨⟨trivial, .of_ne (by simp) (by simp)⟩, ⟨trivial, .of_ne (by simp) (by simp)⟩, ?_⟩
    change t.frames.tail = s.frames.tail
    rw [ht]
  exact ⟨local_of_ensures hrun, (ensures_iff_trace.1 hrun).2⟩

end Check

section

variable {env : CheckEnv} (himplies : ∀ param i, env.ImpliesAt param i → P param.id ∧ P i.node.id)

include himplies

/-- A walk goes no further than the functions that are entered and the innermost one. -/
theorem Walk.stays {fs : List Func} {noted : Bool} {rs : List Return} {vs : List Visit}
    (h : Walk P fs noted rs vs) {s : CheckState} (hs : s.InOrder P)
    (hsize : ∀ f ∈ fs, f.func < s.store.byFunction.size) :
    Check.Stays P (· ∈ fs.map (·.func)) (fun id => s.frames.head? = some id) env vs s := by
  induction h generalizing s with
  | nil => exact .nil
  | append _ _ ih ih' =>
    rw [List.forall_mem_append] at hsize
    have hfirst := ih hs hsize.1
    have hsecond := ih' (hfirst.inOrder hs) (by rw [hfirst.spares.size]; exact hsize.2)
    rw [hfirst.frames] at hsecond
    simp only [List.map_append, List.mem_append]
    exact (hfirst.mono (fun _ => .inl) fun _ h => h).append
      (hsecond.mono (fun _ => .inr) fun _ h => h)
  | visit hv =>
    exact (Check.stays_visit himplies hv.regular hv.isBracket hs).mono (fun _ h => h) fun _ h => h.2
  | parameters params =>
    exact (Check.stays_visit himplies (v := .parameters params) trivial rfl hs).mono (fun _ h => h)
      fun _ h => h.2
  | return_ pos hargument =>
    exact (Check.stays_visit himplies (v := .return_ pos _) hargument rfl hs).mono (fun _ h => h)
      fun _ h => h.2
  | @function f place fs hnode _ hresult ih =>
    rw [List.forall_mem_cons] at hsize
    have henter := Check.local_enterFunction env hnode hs hsize.1
    obtain ⟨id, g, hentered⟩ := Check.entered_enterFunction env (n := f.node.id) hs hsize.1
    have hinOrder : (Check.visit env s (.enterFunction f.node.id f.func)).InOrder P :=
      henter.inOrder hs
    have hframes : (Check.visit env s (.enterFunction f.node.id f.func)).frames.head? = some id := by
      rw [hentered.frames, List.head?_cons]
    have hinner : Check.Stays P (· ∈ fs.map (·.func)) (· = id) env f.innerVisits
        (Check.visit env s (.enterFunction f.node.id f.func)) := by
      refine (ih hinOrder (by rw [hentered.size]; exact hsize.2)).mono (fun _ h => h) fun id' h => ?_
      exact Option.some.inj (h.symm.trans hframes)
    have horigin := hinOrder.originates f.func id hentered.shape
    have hhead := (congrArg List.head? hinner.frames).trans hframes
    obtain ⟨hleave, htail⟩ := Check.local_leaveFunction env hhead f.node.pos
      (Func.reportName f.name place) hresult (hinner.inOrder hinOrder)
    rw [Func.visits_eq]
    simp only [List.map_cons, List.mem_cons]
    refine ⟨((henter.mono (fun _ => .inl) fun id hid => hid.elim).append
      (hinner.forget horigin)).append ?_, ?_⟩
    · rw [List.foldl_append]
      exact hleave.forget (hinner.origin horigin)
    · rw [List.foldl_append, List.foldl_append]
      exact htail.trans (by rw [hinner.frames]; exact congrArg List.tail hentered.frames)

end

end TagCheck
