import TagCheck.Proofs.Check.Orderly
import TagCheck.Proofs.Check.Ownership
import TagCheck.Proofs.Scope.Nesting

/-! Nothing that a run refers to is out of range. Main statement: in every state of a run, whatever
is visited writes to nodes, bindings, functions and function shapes that the store has, each write
takes effect, and what is out of range is never looked at. -/
namespace TagCheck

/-! Writes in range take effect. -/

/-- What is noted is a binding or the result of a function that the store has. -/
def Tracked.InRange (s : Store) : Tracked → Prop
  | binding b => s.Has (.binding b)
  | ret id => id < s.arena.size

namespace Write

def InRange (s : Store) : Write → Prop
  | type t _ | shape t _ => s.Has t
  | reimply b _ => s.Has (.binding b)
  | forceShape n _ => s.Has (.node n)
  | touch x | known x => x.InRange s
  | function f => f < s.byFunction.size
  | func id _ | enter id => id < s.arena.size
  | native .. | report .. | leave => True

/-- The store holds what was written. The first known type and the first shape of a pass stay, so
a later one is not expected to be there. -/
def TakesEffect (s : Store) (w : Write) : Prop :=
  match w with
  | type t ty =>
    s.hasTypeThisPass t = false → ((w.onStore s).cell t).ty = some ⟨ty, s.pass⟩
  | reimply b ty => (w.onStore s).ty? (.binding b) = some ty
  | shape t x =>
    s.hasShapeThisPass t = false → ∀ y ∈ x, ((w.onStore s).cell t).shape = some ⟨y, s.pass⟩
  | forceShape n x => ((w.onStore s).cell (.node n)).shape = some ⟨x, s.pass⟩
  | touch x => x ∈ (w.onStore s).touched
  | known x => x ∈ (w.onStore s).known
  | function f => (w.onStore s).functionShape? f = some (s.functionPlace f).1
  | native name _ => (w.onStore s).natives.lookup name = some (s.nativePlace name)
  | func id f => ∃ g, s.arena.get? id = some g ∧ (w.onStore s).arena.get? id = some (f g)
  | report .. | enter _ | leave => True

theorem InRange.takesEffect {s : Store} {w : Write} (h : w.InRange s) : w.TakesEffect s := by
  cases w with
  | type t ty =>
    intro hopen
    simp only [onStore, Store.markType, hopen, Bool.false_eq_true, if_false]
    rw [Store.ty_cell_forceType, if_pos ⟨rfl, h⟩]
  | reimply b ty =>
    simp only [TakesEffect, onStore, Store.ty?]
    rw [Store.ty_cell_reimply, if_pos ⟨rfl, h⟩, Option.map_some]
  | shape t x =>
    rintro hopen y ⟨⟩
    simp only [onStore, Store.markShape, hopen, Bool.false_eq_true, if_false]
    rw [Store.shape_cell_forceShape, if_pos ⟨rfl, h⟩]
  | forceShape n x =>
    simp only [TakesEffect, onStore]
    rw [Store.shape_cell_forceShape, if_pos ⟨rfl, h⟩]
  | touch x => exact mem_touched_onStore.2 (.inl rfl)
  | known x => exact mem_known_onStore.2 (.inl rfl)
  | function f =>
    simp only [TakesEffect, onStore, Store.makeFunction, Store.functionPlace]
    cases hf : s.functionShape? f with
    | some id => exact hf
    | none => simp [Store.functionShape?, show f < _ from h]
  | native name result =>
    simp only [TakesEffect, onStore, Store.makeNative, Store.nativePlace]
    cases hid : s.natives.lookup name with
    | some id => exact hid
    | none => simp
  | func id f =>
    obtain ⟨g, hg⟩ : ∃ g, s.arena.get? id = some g := ⟨_, Array.getElem?_eq_getElem h⟩
    refine ⟨g, hg, ?_⟩
    simp [onStore, Store.modifyFunc, Arena.get?_modify, hg]
  | _ => trivial

end Write

/-- Something has been gathered once there is an element. -/
theorem Gathered.tags_ne_nil (store : Store) {g : Gathered} {es : List Element}
    (h : g.tags ≠ [] ∨ es ≠ []) : (g.elements store es).tags ≠ [] := by
  have haddTag (g : Gathered) (t : Tag) : (g.addTag t).tags ≠ [] := by
    unfold addTag
    split
    · exact List.ne_nil_of_mem ‹_›
    · simp
  fun_induction g.elements store es with
  | case1 => simpa using h
  | case2 g es ih => exact ih (.inl (haddTag g .undef))
  | case3 | case5 => simp
  | case4 g e es t hknown ih =>
    refine ih (.inl ?_)
    unfold addShape
    split
    · exact haddTag g t
    · split <;> exact haddTag g t

/-- The store has a place for every node, binding and function of the program. -/
structure Store.Holds (p : Program) (s : Store) : Prop where
  node : ∀ n < p.nodeCount, s.Has (.node n)
  binding : ∀ b < p.resolve.bindings.size, s.Has (.binding b)
  func : ∀ f < p.funcCount, f < s.byFunction.size

theorem Store.Holds.apply {p : Program} {s : CheckState} (h : s.store.Holds p) (w : Write) :
    (w.apply s).store.Holds p := by
  rw [Write.store_apply]
  exact ⟨fun n hn => Write.has_onStore.2 (h.node n hn),
    fun b hb => Write.has_onStore.2 (h.binding b hb),
    fun f hf => by rw [w.size_byFunction_onStore]; exact h.func f hf⟩

namespace Program

def range (p : Program) : Region :=
  ⟨fun n => n.id < p.nodeCount, fun f => f < p.funcCount, fun _ => True⟩

variable {p : Program} {config : Config}

theorem WellFormed.has_range (hp : p.WellFormed) : p.range.Has p.nodes p.returns where
  nodes x hx := show x.node.id < p.nodeCount from x.id_node ▸ hp.id_lt hx
  funcs _ hx _ hf := hp.func_lt hx hf
  returns _ _ := trivial

/-- The nodes that a visit writes to are nodes of the program. -/
theorem WellFormed.lt_of_footprint (hp : p.WellFormed) {v : Visit} (hv : v ∈ p.visits) {k : NodeId}
    (hk : k ∈ v.footprint ∨ (p.checkEnv config).Implies k) : k < p.nodeCount := by
  rcases hk with hk | hk
  · obtain ⟨x, hx, rfl, -⟩ := (p.tidy.owned v hv k hk).resolve_left (by simp)
    exact hp.id_lt hx
  · obtain ⟨q, hq, rfl⟩ := pattern_of_implies hk
    exact hp.id_lt hq

theorem inRange_of_orderly {s : CheckState} (hs : s.store.Holds p) {w : Write}
    (hw : w.Orderly (p.checkEnv config) (p.range.scene _) s)
    (hnode : ∀ k, w.node? = some k → k < p.nodeCount) : w.InRange s.store := by
  have hbinding {b : BindingId} (hb : (p.checkEnv config).Binds b) : s.store.Has (.binding b) := by
    obtain ⟨i, hi⟩ := hb
    exact hs.binding b (lt_of_bindingOf? hi).1
  have htarget {t : Target} (ht : t.IsBound (p.checkEnv config))
      (hnode : ∀ n, t = .node n → n < p.nodeCount) : s.store.Has t := by
    cases t with
    | node n => exact hs.node n (hnode n rfl)
    | binding b => exact hbinding ht
  have htracked {x : Tracked} (hx : x.IsBound (p.checkEnv config) s.store.arena.size) :
      x.InRange s.store := by
    cases x with
    | binding b => exact hbinding hx
    | ret id => exact hx
  cases w with
  | type t ty => exact htarget hw fun n ht => hnode n (by simp [ht, Write.node?])
  | reimply b ty => exact hbinding hw
  | shape t x => exact htarget hw.1 fun n ht => hnode n (by simp [ht, Write.node?])
  | forceShape n x => exact hs.node n (hnode n rfl)
  | touch x | known x => exact htracked hw
  | function f => exact hs.func f hw
  | func id f => exact hw.1
  | enter id => exact hw
  | _ => trivial

/-- A visit that starts where all shapes are in order writes and looks where the store has places. -/
theorem WellFormed.visit_inRange (hp : p.WellFormed) {v : Visit} (hv : v ∈ p.visits)
    {s : CheckState} (hs : s.Proper) (hholds : s.store.Holds p) :
    (v.apply (p.checkEnv config)).Ensures
        (fun s w => w.InRange s.store ∧ w.TakesEffect s.store) (fun _ _ => True) s ∧
      (v.apply (p.checkEnv config)).LooksWithin (p.checkEnv config) p.range s := by
  obtain ⟨horderly, hlooks⟩ := Visit.orderly_of_proper
    (visits_on hp.has_range (p.checkEnv config) v hv) hs
  have hrule := (horderly.and (v.confined_apply (p.checkEnv config) s)).invariant
    (I := fun s => s.store.Holds p) hholds fun s w hs _ => hs.apply w
  refine ⟨hrule.mono (fun s w h => ?_) fun _ _ _ => trivial, hlooks⟩
  obtain ⟨hs, hw, hnode⟩ := h
  have hrange := inRange_of_orderly hs hw fun k hk => hp.lt_of_footprint hv (hnode k hk)
  exact ⟨hrange, hrange.takesEffect⟩

theorem holds_initialState (p : Program) : (p.initialState p.resolve).store.Holds p where
  node n hn := by simpa [Store.Has, initialState, Store.new] using hn
  binding b hb := by simpa [Store.Has, initialState, Store.new] using hb
  func f hf := by simpa [initialState, Store.new] using hf

theorem holds_of_mem_history (p : Program) : ∀ s ∈ p.history config, s.store.Holds p := by
  refine Check.forall_history (I := fun s => s.store.Holds p)
    (fun s hs => ⟨hs.node, hs.binding, hs.func⟩) (fun v _ s hs => ?_) p.holds_initialState
  have hwrites : (v.apply (p.checkEnv config)).Ensures (fun _ _ => True) (fun _ _ => True) s :=
    Check.ensures_iff_trace.2 ⟨fun _ _ => trivial, trivial⟩
  exact (hwrites.invariant hs fun s w hs _ => hs.apply w).mono (fun s w h => h.1.apply w)
    fun _ _ h => h.1

/-- Whatever is read from a text and however it is checked, nothing that is referred to is out of
range, at any moment of the resolution and of the run. -/
theorem references_in_range {source : String} (h : Program.ofSource source = .ok p)
    (config : Config) :
    (∀ before e after, p.scopeEvents = before ++ e :: after →
      (p.resolving before).InRange p.nodeCount ∧ (p.resolving before).Ready e) ∧
    (∀ i b, p.resolve.bindingOf? i = some b → b < p.resolve.bindings.size) ∧
    (∀ s ∈ p.history config, s.Closed ∧ ∀ v ∈ p.visits,
      (v.apply (p.checkEnv config)).Ensures
        (fun s w => w.InRange s.store ∧ w.TakesEffect s.store) (fun _ _ => True) s ∧
      (v.apply (p.checkEnv config)).LooksWithin (p.checkEnv config) p.range s) ∧
    ∀ store es, es ≠ [] → (({} : Gathered).elements store es).tags ≠ [] := by
  obtain ⟨tokens, -, hp⟩ := exists_of_ofSource h
  have hp := wellFormed_of_ofTokens hp
  refine ⟨fun before e after hes => ⟨p.inRange_resolving before, hp.ready hes⟩,
    fun i b hb => (lt_of_bindingOf? hb).1, fun s hs => ?_,
    fun store es hes => Gathered.tags_ne_nil store (.inr hes)⟩
  have hproper := proper_of_mem_history hs
  refine ⟨hproper.closed, fun v hv => ?_⟩
  exact hp.visit_inRange hv hproper (p.holds_of_mem_history s hs)

/-- Closures that a second pass looks at again, and a built-in constructor. -/
theorem references_in_range_of_closures : ∃ p,
    Program.ofSource "var g = (x) => a; g(Number(1)); var a = (y) => [y]; a(g);" = .ok p ∧
    (p.check ⟨3, .error, true, .json⟩).passes = 2 ∧
    (p.check ⟨3, .error, true, .json⟩).store.arena.size = 3 ∧
    ∀ s ∈ p.history ⟨3, .error, true, .json⟩, s.Closed ∧ ∀ v ∈ p.visits,
      (v.apply (p.checkEnv ⟨3, .error, true, .json⟩)).Ensures
        (fun s w => w.InRange s.store ∧ w.TakesEffect s.store) (fun _ _ => True) s ∧
      (v.apply (p.checkEnv ⟨3, .error, true, .json⟩)).LooksWithin
        (p.checkEnv ⟨3, .error, true, .json⟩) p.range s := by
  obtain ⟨p, hp, htest⟩ := Program.exists_of_any
    "var g = (x) => a; g(Number(1)); var a = (y) => [y]; a(g);"
    (fun p => (p.check ⟨3, .error, true, .json⟩).passes == 2 &&
      (p.check ⟨3, .error, true, .json⟩).store.arena.size == 3) (by decide +kernel)
  simp only [Bool.and_eq_true, beq_iff_eq] at htest
  obtain ⟨-, -, hstates, -⟩ := references_in_range hp ⟨3, .error, true, .json⟩
  exact ⟨p, hp, htest.1, htest.2, hstates⟩

end Program
end TagCheck
