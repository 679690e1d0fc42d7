import Mathlib.Data.List.Chain
import TagCheck.Proofs.Check.Permits
import TagCheck.Proofs.Scope.Range

/-! The moments of a run, one for each write, and the states between them. What every permitted
write does to a state is here made into what holds along a pass and along all passes. -/
namespace TagCheck

/-- A visit is about to write to a state. -/
structure Moment where
  visit : Visit
  before : CheckState
  write : Write

def Moment.after (m : Moment) : CheckState := m.write.apply m.before

namespace Check

def moments (env : CheckEnv) : List Visit → CheckState → List Moment
  | [], _ => []
  | v :: vs, s =>
    ((v.apply env).trace s).map (fun x => ⟨v, x.1, x.2⟩) ++ moments env vs (visit env s v)

/-- Each moment begins with the state that the one before it leaves. -/
def Linked (s : CheckState) : List Moment → CheckState → Prop
  | [], t => s = t
  | m :: ms, t => m.before = s ∧ Linked m.after ms t

namespace Linked

variable {s t u : CheckState} {ms ms' : List Moment} {m : Moment}

theorem append (h : Linked s ms t) (h' : Linked t ms' u) : Linked s (ms ++ ms') u := by
  induction ms generalizing s with
  | nil =>
    obtain rfl : s = t := h
    exact h'
  | cons m ms ih => exact ⟨h.1, ih h.2⟩

/-- What comes before a moment leads up to it, and what comes after it starts from what it
leaves. -/
theorem split (h : Linked s (ms ++ m :: ms') t) : Linked s ms m.before ∧ Linked m.after ms' t := by
  induction ms generalizing s with
  | nil => exact ⟨h.1.symm, h.2⟩
  | cons k ms ih => exact ⟨⟨h.1, (ih h.2).1⟩, (ih h.2).2⟩

/-- What no moment destroys lasts to the end. -/
theorem lasts {P : CheckState → Prop} (h : Linked s ms t) (hs : P s)
    (hP : ∀ m ∈ ms, P m.before → P m.after) : P t := by
  induction ms generalizing s with
  | nil =>
    obtain rfl : s = t := h
    exact hs
  | cons m ms ih =>
    obtain ⟨rfl, htail⟩ := h
    exact ih htail (hP m (List.mem_cons_self ..) hs) fun k hk => hP k (List.mem_cons_of_mem m hk)

/-- No write makes or removes a cell. -/
theorem has_iff (h : Linked s ms t) (x : Target) : t.store.Has x ↔ s.store.Has x := by
  refine h.lasts (P := fun u => u.store.Has x ↔ s.store.Has x) Iff.rfl fun m _ hm => ?_
  rw [Moment.after, Write.store_apply, Write.has_onStore, hm]

theorem pass_eq (h : Linked s ms t) : t.store.pass = s.store.pass :=
  h.lasts (P := fun u => u.store.pass = s.store.pass) rfl fun m _ hm => by
    rwa [Moment.after, Write.store_apply, Write.pass_onStore]

/-- What has a type keeps having one. -/
theorem isSome_ty (h : Linked s ms t) {x : Target} (hs : (s.store.cell x).ty.isSome = true) :
    (t.store.cell x).ty.isSome = true := by
  refine h.lasts (P := fun u => (u.store.cell x).ty.isSome = true) hs fun m _ hm => ?_
  rw [Moment.after, Write.store_apply]
  rcases m.write.ty_cell_onStore m.before.store x with h | ⟨ty, -, -, h⟩ | ⟨b, ty, -, -, h⟩
  · rw [h, hm]
  · rw [h, Option.isSome_some]
  · rw [h, Option.isSome_some]

theorem isChain {R : CheckState → CheckState → Prop} (h : Linked s ms t)
    (hR : ∀ m ∈ ms, R m.before m.after) : (s :: ms.map Moment.after).IsChain R := by
  induction ms generalizing s with
  | nil => exact .singleton s
  | cons m ms ih =>
    obtain ⟨rfl, htail⟩ := h
    refine List.isChain_cons_cons.2 ⟨hR m (List.mem_cons_self ..), ?_⟩
    exact ih htail fun k hk => hR k (List.mem_cons_of_mem m hk)

theorem getLast?_eq (h : Linked s ms t) : (s :: ms.map Moment.after).getLast? = some t := by
  induction ms generalizing s with
  | nil => exact congrArg some h
  | cons m ms ih => exact ih h.2

end Linked

theorem linked_trace (v : Visit) (c : Check α) (s : CheckState) :
    Linked s ((c.trace s).map fun x => ⟨v, x.1, x.2⟩) (c.run s).2 := by
  induction c generalizing s with
  | done a => rfl
  | read next ih => exact ih s.store s.frames s
  | write w next ih => exact ⟨rfl, ih (w.apply s)⟩

theorem linked_moments (env : CheckEnv) (vs : List Visit) (s : CheckState) :
    Linked s (moments env vs s) (vs.foldl (visit env) s) := by
  induction vs generalizing s with
  | nil => rfl
  | cons v vs ih => exact (linked_trace v (v.apply env) s).append (ih (visit env s v))

theorem permits_of_mem_moments {env : CheckEnv} {vs : List Visit} {s : CheckState} {m : Moment}
    (h : m ∈ moments env vs s) : m.visit ∈ vs ∧ m.visit.Permits env m.before m.write := by
  induction vs generalizing s with
  | nil => cases h
  | cons v vs ih =>
    rcases List.mem_append.1 h with h | h
    · obtain ⟨x, hx, rfl⟩ := List.mem_map.1 h
      exact ⟨List.mem_cons_self .., (ensures_iff_trace.1 (v.permits_apply env s)).1 x hx⟩
    · exact ⟨List.mem_cons_of_mem v (ih h).1, (ih h).2⟩

/-- What each rule guarantees of its writes, given what holds between the visits. -/
theorem forall_moments {env : CheckEnv} {visits : List Visit} {G : CheckState → Write → Prop}
    {I : CheckState → Prop}
    (h : ∀ v ∈ visits, ∀ s, I s → (v.apply env).Ensures G (fun _ s => I s) s) {s : CheckState}
    (hs : I s) : (∀ m ∈ moments env visits s, G m.before m.write) ∧
      I (visits.foldl (visit env) s) := by
  induction visits generalizing s with
  | nil => exact ⟨by simp [moments], hs⟩
  | cons v vs ih =>
    rw [List.forall_mem_cons] at h
    have hvisit := ensures_iff_trace.1 (h.1 s hs)
    obtain ⟨hmoments, hend⟩ := ih h.2 hvisit.2
    refine ⟨List.forall_mem_append.2 ⟨fun m hm => ?_, hmoments⟩, hend⟩
    obtain ⟨x, hx, rfl⟩ := List.mem_map.1 hm
    exact hvisit.1 x hx

def passMoments (env : CheckEnv) (visits : List Visit) (s : CheckState) : List Moment :=
  moments env visits s.beginPass

def passStates (env : CheckEnv) (visits : List Visit) (s : CheckState) : List CheckState :=
  s.beginPass :: (passMoments env visits s).map Moment.after

theorem linked_passMoments (env : CheckEnv) (visits : List Visit) (s : CheckState) :
    Linked s.beginPass (passMoments env visits s) (pass env visits s) :=
  linked_moments env visits s.beginPass

def starts (env : CheckEnv) (visits : List Visit) : Nat → CheckState → List CheckState
  | 0, _ => []
  | limit + 1, s =>
    s ::
      if (pass env visits s).store.needsAnotherPass then
        starts env visits limit (pass env visits s)
      else []

def history (env : CheckEnv) (visits : List Visit) (limit : Nat) (s : CheckState) :
    List CheckState :=
  s :: (starts env visits limit s).flatMap (passStates env visits)

section

variable {env : CheckEnv} {visits : List Visit}

/-- A pass ends in the state that the next one starts from. -/
theorem exists_passStates_eq (env : CheckEnv) (visits : List Visit) (s : CheckState) :
    ∃ states, passStates env visits s = states ++ [pass env visits s] :=
  List.getLast?_eq_some_iff.1 (linked_passMoments env visits s).getLast?_eq

theorem isChain_passStates {R : CheckState → CheckState → Prop} {s : CheckState}
    (hR : ∀ m ∈ passMoments env visits s, R m.before m.after) :
    (passStates env visits s).IsChain R :=
  (linked_passMoments env visits s).isChain hR

/-- What holds between the states around each moment, and across the start of each pass, holds
all along a run. -/
theorem isChain_history {R : CheckState → CheckState → Prop} (hbegin : ∀ s, R s s.beginPass)
    (hR : ∀ s, ∀ m ∈ passMoments env visits s, R m.before m.after) (limit : Nat) (s : CheckState) :
    (history env visits limit s).IsChain R := by
  induction limit generalizing s with
  | zero => exact .singleton s
  | succ limit ih =>
    have hpass : (s :: passStates env visits s).IsChain R :=
      List.isChain_cons_cons.2 ⟨hbegin s, isChain_passStates (hR s)⟩
    obtain ⟨states, hstates⟩ := exists_passStates_eq env visits s
    rw [hstates] at hpass
    rw [history, starts, List.flatMap_cons, hstates, List.append_assoc, List.singleton_append,
      ← List.cons_append]
    refine List.isChain_split.2 ⟨hpass, ?_⟩
    split
    · exact ih (pass env visits s)
    · exact .singleton _

/-- A run ends with the last state of its history. -/
theorem getLast?_history (limit : Nat) (s : CheckState) :
    (history env visits limit s).getLast? = some (passes env visits limit s).2 := by
  induction limit generalizing s with
  | zero => rfl
  | succ limit ih =>
    obtain ⟨states, hstates⟩ := exists_passStates_eq env visits s
    rw [history, starts, List.flatMap_cons, hstates, List.append_assoc, List.singleton_append,
      ← List.cons_append, List.getLast?_append_of_ne_nil _ (List.cons_ne_nil _ _), passes]
    split
    · exact ih (pass env visits s)
    · rfl

/-- A run that ends in time ends with one of its passes. -/
theorem exists_start_of_passes {limit : Nat} {s t : CheckState}
    (h : passes env visits limit s = (true, t)) :
    ∃ s' ∈ starts env visits limit s, t = pass env visits s' := by
  induction limit generalizing s with
  | zero => simp [passes] at h
  | succ limit ih =>
    rw [passes] at h
    rw [starts]
    split at h
    · rename_i hagain
      obtain ⟨s', hs', rfl⟩ := ih h
      rw [if_pos hagain]
      exact ⟨s', List.mem_cons_of_mem s hs', rfl⟩
    · exact ⟨s, List.mem_cons_self .., (congrArg Prod.snd h).symm⟩

theorem forall_starts {P : CheckState → Prop} (hP : ∀ s, P s → P (pass env visits s)) {limit : Nat}
    {s : CheckState} (hs : P s) : ∀ t ∈ starts env visits limit s, P t := by
  induction limit generalizing s with
  | zero =>
    intro t ht
    cases ht
  | succ limit ih =>
    rw [starts, List.forall_mem_cons]
    refine ⟨hs, ?_⟩
    split
    · exact ih (hP s hs)
    · intro t ht
      cases ht

/-- What holds at the first start and is handed on by a pass holds at each start, of the starts
before it. -/
theorem starts_induction {R : List CheckState → CheckState → Prop}
    (hpass : ∀ earlier s, R earlier s → R (earlier ++ [s]) (pass env visits s)) {limit : Nat}
    {before : List CheckState} {s₀ : CheckState} (hs₀ : R before s₀)
    {earlier later : List CheckState} {s : CheckState}
    (h : starts env visits limit s₀ = earlier ++ s :: later) : R (before ++ earlier) s := by
  induction limit generalizing before s₀ earlier with
  | zero => simp [starts] at h
  | succ limit ih =>
    rw [starts] at h
    cases earlier with
    | nil =>
      rw [List.nil_append, List.cons.injEq] at h
      rwa [List.append_nil, ← h.1]
    | cons t earlier =>
      rw [List.cons_append, List.cons.injEq] at h
      obtain ⟨rfl, hrest⟩ := h
      split at hrest
      · rw [List.append_cons]
        exact ih (hpass before s₀ hs₀) hrest
      · simp at hrest

/-- A pass starts where the one before it ended. -/
theorem eq_pass_of_starts {limit : Nat} {s₀ s s' : CheckState} {earlier later : List CheckState}
    (h : starts env visits limit s₀ = earlier ++ s :: s' :: later) : s' = pass env visits s := by
  have hlast : ∀ t ∈ ([] ++ (earlier ++ [s])).getLast?, s' = pass env visits t := by
    rw [List.append_cons] at h
    refine starts_induction (R := fun earlier s' => ∀ t ∈ earlier.getLast?, s' = pass env visits t)
      (fun earlier s _ t ht => ?_) (by simp) h
    rw [List.getLast?_concat] at ht
    rw [Option.some.inj ht]
  exact hlast s (by simp)

/-- What every pass begins with and every write of a rule keeps holds all along a run. -/
theorem forall_history {I : CheckState → Prop} (hbegin : ∀ s, I s → I s.beginPass)
    (h : ∀ v ∈ visits, ∀ s, I s →
      (v.apply env).Ensures (fun s w => I (w.apply s)) (fun _ s => I s) s) {limit : Nat}
    {s : CheckState} (hs : I s) : ∀ t ∈ history env visits limit s, I t := by
  have hpass (s : CheckState) (hs : I s) := forall_moments h (hbegin s hs)
  refine List.forall_mem_cons.2 ⟨hs, fun t ht => ?_⟩
  obtain ⟨s', hs', ht⟩ := List.mem_flatMap.1 ht
  have hstart : I s' := forall_starts (fun s hs => (hpass s hs).2) hs s' hs'
  rcases List.mem_cons.1 ht with rfl | ht
  · exact hbegin s' hstart
  · obtain ⟨m, hm, rfl⟩ := List.mem_map.1 ht
    exact (hpass s' hstart).1 m hm

end

end Check

namespace Program

def passStarts (p : Program) (config : Config) : List CheckState :=
  Check.starts (p.checkEnv config) p.visits config.limit (p.initialState p.resolve)

/-- There is at least one pass. -/
theorem exists_passStarts_eq (p : Program) (config : Config) :
    ∃ later, p.passStarts config = p.initialState p.resolve :: later := by
  obtain ⟨n, hn⟩ : ∃ n, config.limit = n + 1 :=
    Nat.exists_eq_add_one.2 (Nat.lt_of_lt_of_le Nat.one_pos (Nat.le_max_left 1 config.passLimit))
  rw [passStarts, hn, Check.starts]
  exact ⟨_, rfl⟩

theorem initialState_mem_passStarts (p : Program) (config : Config) :
    p.initialState p.resolve ∈ p.passStarts config := by
  obtain ⟨later, hstarts⟩ := p.exists_passStarts_eq config
  rw [hstarts]
  exact List.mem_cons_self ..

theorem has_node_of_mem_passStarts {p : Program} {config : Config} {s : CheckState}
    (hs : s ∈ p.passStarts config) {k : NodeId} (hk : k < p.nodeCount) : s.store.Has (.node k) := by
  refine Check.forall_starts (P := fun s => s.store.Has (.node k)) (fun s hs => ?_) ?_ s hs
  · exact ((Check.linked_passMoments _ p.visits s).has_iff (.node k)).2 hs
  · simpa [Store.Has, initialState, Store.new] using hk

def history (p : Program) (config : Config) : List CheckState :=
  Check.history (p.checkEnv config) p.visits config.limit (p.initialState p.resolve)

/-- A source whose program passes a test. -/
theorem exists_of_any (source : String) (test : Program → Bool)
    (h : (Program.ofSource source).toOption.any test = true) :
    ∃ p, Program.ofSource source = .ok p ∧ test p = true := by
  cases hp : Program.ofSource source with
  | error e => simp [hp, Except.toOption] at h
  | ok p => exact ⟨p, rfl, by simpa [hp, Except.toOption] using h⟩

theorem store_check (p : Program) (config : Config) :
    (p.history config).getLast?.map (·.store) = some (p.check config).store := by
  rw [history, Check.getLast?_history]
  rfl

end Program

/-- An identifier that means a binding has a cell, and so has the binding. -/
def CheckEnv.HasCells (env : CheckEnv) (s : CheckState) : Prop :=
  ∀ i b, env.bindingOf? i = some b → s.store.Has (.binding b) ∧ s.store.Has (.node i.node.id)

theorem Check.Linked.hasCells {env : CheckEnv} {s t : CheckState} {ms : List Moment}
    (h : Linked s ms t) (hs : env.HasCells s) : env.HasCells t :=
  fun i b hb => ⟨(h.has_iff _).2 (hs i b hb).1, (h.has_iff _).2 (hs i b hb).2⟩

theorem Program.hasCells_initialState (p : Program) (config : Config) :
    (p.checkEnv config).HasCells (p.initialState p.resolve) := by
  intro i b hb
  obtain ⟨hlt, hnode⟩ := Program.lt_of_bindingOf? (p := p) hb
  exact ⟨by simpa [Store.Has, initialState, Store.new] using hlt,
    by simpa [Store.Has, initialState, Store.new] using hnode⟩

theorem Program.hasCells_of_mem_passStarts {p : Program} {config : Config} {s : CheckState}
    (h : s ∈ p.passStarts config) : (p.checkEnv config).HasCells s :=
  Check.forall_starts
    (fun s hs => (Check.linked_passMoments _ p.visits s).hasCells (s := s.beginPass) hs)
    (p.hasCells_initialState config) s h

end TagCheck
