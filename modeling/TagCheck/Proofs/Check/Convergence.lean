import Mathlib.Data.Finset.Card
import Mathlib.Data.Finset.Range
import TagCheck.Proofs.Check.PlainVisits
import TagCheck.Proofs.Check.Retention

/-! A program without calls and default values needs at most one pass more than it has bindings:
a pass that asks for another one has given a type to a binding that had none before it. -/
namespace TagCheck

namespace Visit.Permits

variable {env : CheckEnv} {v : Visit} {s : CheckState} {seen : List Visit}

theorem of_type_node {n : NodeId} {ty : Ty} (h : v.Permits env s (.type (.node n) ty))
    (hv : v.MayFollow seen) (hnodes : s.store.NodesKnown) : ty.isKnown = true := by
  rcases h with h | h
  · exact h hnodes
  · cases h with
    | infer => exact absurd rfl hv
    | result => exact False.elim hv

/-- In a plain program only bindings are noted as unknown: those without a type, and parameters
whose identifier has none although it was visited. -/
theorem of_touch {x : Tracked} (h : v.Permits env s (.touch x)) (hv : v.MayFollow seen) :
    ∃ b, x = .binding b ∧ (s.store.isUntyped (.binding b) = true ∨
      ∃ i, .identifier i .plain ∈ seen ∧ env.bindingOf? i = some b ∧
        s.store.isUntyped (.node i.node.id) = true) := by
  rcases h with h | h
  · cases x with
    | binding b => exact ⟨b, rfl, Or.inl h⟩
    | ret id => cases h
  · cases h with
    | openResult | callee | default => exact False.elim hv
    | @parameter params p b hp hb huntyped =>
      obtain ⟨i, hi, hb⟩ := Option.bind_eq_some_iff.1 hb
      obtain ⟨rfl, hseen⟩ := hv p hp i hi
      exact ⟨b, rfl, Or.inr ⟨i, hseen, hb, huntyped⟩⟩

/-- A write to the type slot of a node leaves a known type there. -/
theorem retypes_node {w : Write} (h : v.Permits env s w) (hv : v.MayFollow seen)
    (hnodes : s.store.NodesKnown) (n : NodeId) :
    s.store.Retypes (w.onStore s.store) (.node n) := by
  rcases w.ty_cell_onStore s.store (.node n) with hty | ⟨ty, rfl, -, hty⟩ | ⟨b, ty, -, ht, -⟩
  · exact Or.inl hty
  · exact Or.inr ⟨_, hty, h.of_type_node hv hnodes⟩
  · cases ht

end Visit.Permits

namespace Check

/-- An identifier of a binding that has a type is typed by its visit. -/
theorem ensures_identifier {env : CheckEnv} {i : Ident} {b : BindingId} {s : CheckState}
    (hb : env.bindingOf? i = some b) (hhas : s.store.Has (.node i.node.id))
    (htyped : s.store.isUntyped (.binding b) = false) :
    (identifier env i .plain).Ensures (fun _ _ => True)
      (fun _ s' => s'.store.isUntyped (.node i.node.id) = false) s := by
  have hmark {ty : Ty} (hty : ty.isKnown = true) :
      ((Write.type (.node i.node.id) ty).onStore s.store).isUntyped (.node i.node.id) = false :=
    Store.isUntyped_of_hasTypeThisPass (Write.hasTypeThisPass_onStore_type hhas hty)
  cases htag : Tag.ofName? i.name with
  | some t => simpa [identifier, htag, tagIdentifier] using hmark rfl
  | none =>
    obtain ⟨m, hm, hknown⟩ := Store.isUntyped_eq_false_iff.1 htyped
    have hty : (s.store.ty? (.binding b)).filter Ty.isKnown = some m.value := by
      simp [Store.ty?, hm, hknown]
    simp only [identifier, htag, readIdentifier.eq_def, hb, knownType?, ty?, ensures_bind,
      ensures_getStore, ensures_pure, hty, markType, markShape, shape?, ensures_put, true_and,
      Write.store_apply]
    have hshape (s' : Store) (x : Option Shape) :
        s'.Retypes ((Write.shape (.node i.node.id) x).onStore s') (.node i.node.id) := by
      rcases Write.ty_cell_onStore (.shape (.node i.node.id) x) s' (.node i.node.id) with
        h | ⟨ty, h, -⟩ | ⟨b, ty, h, -⟩
      · exact Or.inl h
      all_goals cases h
    exact (hshape _ _).isUntyped_eq_false (hmark hknown)

def Declares (env : CheckEnv) (v : Visit) (b : BindingId) : Prop :=
  ∃ i, v = .declare i ∧ env.bindingOf? i = some b

/-- What a pass over a plain program has done to the state that it started from, after some
visits. The pending bindings may be noted as known before they have a type. -/
structure Progress (env : CheckEnv) (start : CheckState) (seen : List Visit)
    (pending : BindingId → Prop) (s : CheckState) : Prop where
  cells : env.HasCells s
  nodes : s.store.NodesKnown
  typed (b : BindingId) : start.store.isUntyped (.binding b) = false →
    s.store.isUntyped (.binding b) = false
  touched (x : Tracked) : x ∈ s.store.touched →
    ∃ b, x = .binding b ∧ start.store.isUntyped (.binding b) = true
  known (b : BindingId) : .binding b ∈ s.store.known →
    s.store.isUntyped (.binding b) = false ∨ pending b
  read (i : Ident) (b : BindingId) : .identifier i .plain ∈ seen → env.bindingOf? i = some b →
    start.store.isUntyped (.binding b) = false → s.store.isUntyped (.node i.node.id) = false

namespace Progress

variable {env : CheckEnv} {start s : CheckState} {seen : List Visit} {v : Visit}

theorem untyped_of_touch {pending : BindingId → Prop} {x : Tracked}
    (h : Progress env start seen pending s) (hv : v.MayFollow seen)
    (hw : v.Permits env s (.touch x)) :
    ∃ b, x = .binding b ∧ start.store.isUntyped (.binding b) = true := by
  obtain ⟨b, rfl, huntyped⟩ := hw.of_touch hv
  refine ⟨b, rfl, ?_⟩
  cases hb : start.store.isUntyped (.binding b) with
  | true => rfl
  | false =>
    -- A parameter is noted without a look at its binding, but the visit of its identifier has
    -- handed down the type of the binding.
    rcases huntyped with huntyped | ⟨i, hseen, hi, huntyped⟩
    · simp [h.typed b hb] at huntyped
    · simp [h.read i b hseen hi hb] at huntyped

/-- One write of a visit. -/
theorem write {w : Write} (h : Progress env start seen (Declares env v) s)
    (hv : v.MayFollow seen) (hw : v.Permits env s w) :
    Progress env start seen (Declares env v) (w.apply s) where
  cells i b hb := by simpa using h.cells i b hb
  nodes n ty hty := by
    rw [Write.store_apply] at hty
    exact (hw.retypes_node hv h.nodes n).isKnown (h.nodes n) hty
  typed b hb := by
    rw [Write.store_apply]
    exact hw.keeps.binding b (h.typed b hb)
  touched x hx := by
    rw [Write.store_apply, Write.mem_touched_onStore] at hx
    rcases hx with rfl | hx
    · exact h.untyped_of_touch hv hw
    · exact h.touched x hx
  known b hb := by
    rw [Write.store_apply, Write.mem_known_onStore] at hb
    rw [Write.store_apply]
    rcases hb with rfl | hb
    · rcases hw.of_known with ⟨⟨i, hi⟩, htyped⟩ | ⟨hdeclare, -⟩
      · exact Or.inl (hw.keeps.binding b (htyped (h.cells i b hi).1))
      · exact Or.inr hdeclare
    · exact (h.known b hb).imp_left (hw.keeps.binding b)
  read i b hseen hi hb := by
    rw [Write.store_apply]
    exact (hw.retypes_node hv h.nodes _).isUntyped_eq_false (h.read i b hseen hi hb)

/-- One visit. -/
theorem visit (h : Progress env start seen (fun _ => False) s) (hv : v.MayFollow seen) :
    Progress env start (v :: seen) (fun _ => False) (Check.visit env s v) := by
  have hpending : Progress env start seen (Declares env v) s :=
    { h with known := fun b hb => (h.known b hb).imp_right False.elim }
  have hend : Progress env start seen (Declares env v) (Check.visit env s v) :=
    (ensures_iff_trace.1 ((v.permits_apply env s).invariant hpending
      fun _ _ hs hw => hs.write hv hw)).2.1
  refine { hend with known := fun b hb => ?_, read := fun i b hseen hi hb => ?_ }
  · rcases hend.known b hb with htyped | ⟨i, rfl, hi⟩
    · exact Or.inl htyped
    · have hdeclared := (ensures_iff_trace.1 (permits_declare env i s)).2
      exact Or.inl (hdeclared b hi (hend.cells i b hi).1)
  · rcases List.mem_cons.1 hseen with rfl | hseen
    · have hread := ensures_identifier hi (h.cells i b hi).2 (h.typed b hb)
      exact (ensures_iff_trace.1 hread).2
    · exact hend.read i b hseen hi hb

theorem foldl {vs : List Visit} (h : Progress env start seen (fun _ => False) s)
    (hvs : Visit.Ordered seen vs) :
    ∃ seen', Progress env start seen' (fun _ => False) (vs.foldl (Check.visit env) s) := by
  induction vs generalizing seen s with
  | nil => exact ⟨seen, h⟩
  | cons v vs ih => exact ih (h.visit hvs.1) hvs.2

end Progress

/-- A state that a pass over a plain program can start from, with a number of bindings. -/
structure Ready (env : CheckEnv) (bindings : Nat) (s : CheckState) : Prop where
  cells : env.HasCells s
  nodes : s.store.NodesKnown
  has_iff (b : BindingId) : s.store.Has (.binding b) ↔ b < bindings

def typedBindings (bindings : Nat) (s : CheckState) : Finset Nat :=
  (Finset.range bindings).filter fun b => s.store.isUntyped (.binding b) = false

theorem card_typedBindings_le (bindings : Nat) (s : CheckState) :
    (typedBindings bindings s).card ≤ bindings := by
  simpa [typedBindings] using Finset.card_filter_le (Finset.range bindings) _

section

variable {env : CheckEnv} {visits : List Visit} {bindings : Nat} {s : CheckState}

theorem Ready.progress (h : Ready env bindings s) (hvisits : Visit.Ordered [] visits) :
    ∃ seen, Progress env s seen (fun _ => False) (pass env visits s) := by
  have hbegin : Progress env s [] (fun _ => False) s.beginPass :=
    ⟨h.cells, h.nodes, fun _ hb => hb, fun _ hx => absurd hx List.not_mem_nil,
      fun _ hb => absurd hb List.not_mem_nil, fun _ _ hi => absurd hi List.not_mem_nil⟩
  exact hbegin.foldl hvisits

theorem Ready.pass (h : Ready env bindings s) (hvisits : Visit.Ordered [] visits) :
    Ready env bindings (pass env visits s) := by
  obtain ⟨seen, hprogress⟩ := h.progress hvisits
  refine ⟨hprogress.cells, hprogress.nodes, fun b => ?_⟩
  rw [(linked_passMoments env visits s).has_iff]
  exact h.has_iff b

/-- Bindings keep their types, and a pass that asks for another one has typed one more. -/
theorem Ready.card_typedBindings (h : Ready env bindings s) (hvisits : Visit.Ordered [] visits) :
    (typedBindings bindings s).card ≤ (typedBindings bindings (Check.pass env visits s)).card ∧
      ((Check.pass env visits s).store.needsAnotherPass = true → (typedBindings bindings s).card <
        (typedBindings bindings (Check.pass env visits s)).card) := by
  obtain ⟨seen, hprogress⟩ := h.progress hvisits
  have hsubset : typedBindings bindings s ⊆ typedBindings bindings (Check.pass env visits s) := by
    intro b hb
    simp only [typedBindings, Finset.mem_filter] at hb ⊢
    exact ⟨hb.1, hprogress.typed b hb.2⟩
  refine ⟨Finset.card_le_card hsubset, fun hneeds => Finset.card_lt_card ?_⟩
  obtain ⟨x, hx, hknown⟩ : ∃ x ∈ (Check.pass env visits s).store.touched,
      x ∈ (Check.pass env visits s).store.known := by
    simpa [Store.needsAnotherPass] using hneeds
  obtain ⟨b, rfl, huntyped⟩ := hprogress.touched x hx
  have htyped := (hprogress.known b hknown).resolve_right id
  have hlt := ((h.pass hvisits).has_iff b).1 (Store.has_of_isUntyped_eq_false htyped)
  refine (Finset.ssubset_iff_of_subset hsubset).2 ⟨b, ?_, ?_⟩
  · simp [typedBindings, hlt, htyped]
  · simp [typedBindings, huntyped]

/-- Passes over a plain program, as long as the limit allows for a pass per untyped binding and
one more. -/
theorem Ready.passes {limit : Nat} (h : Ready env bindings s) (hvisits : Visit.Ordered [] visits)
    (hlimit : bindings < limit + (typedBindings bindings s).card) :
    (Check.passes env visits limit s).1 = true ∧
      (Check.passes env visits limit s).2.store.pass + (typedBindings bindings s).card ≤
        s.store.pass + bindings + 1 := by
  induction limit generalizing s with
  | zero =>
    have hle := card_typedBindings_le bindings s
    omega
  | succ limit ih =>
    obtain ⟨hle, hlt⟩ := h.card_typedBindings hvisits
    have hbound := card_typedBindings_le bindings s
    have hpass : (Check.pass env visits s).store.pass = s.store.pass + 1 :=
      (linked_passMoments env visits s).pass_eq
    rw [Check.passes]
    split
    · rename_i hneeds
      have hmore := hlt hneeds
      obtain ⟨hconverged, hpasses⟩ := ih (h.pass hvisits) (by omega)
      exact ⟨hconverged, by omega⟩
    · exact ⟨rfl, by simp only; omega⟩

end

end Check

theorem Program.ready_initialState (p : Program) (config : Config) :
    Check.Ready (p.checkEnv config) p.resolve.bindings.size (p.initialState p.resolve) where
  cells := p.hasCells_initialState config
  nodes n ty hty := by simp [initialState, Store.ty?] at hty
  has_iff b := by simp [initialState, Store.new, Store.Has]

/-- A program without calls and default values converges within one pass more than it has
bindings, if the limit lets it. -/
theorem Program.plain_converges {p : Program} {config : Config} (hplain : p.isPlain = true)
    (hlimit : p.resolve.bindings.size < config.passLimit) :
    (p.check config).converged = true ∧
      (p.check config).passes ≤ p.resolve.bindings.size + 1 := by
  have hordered : Visit.Ordered [] p.visits := Stmt.ordered_visitsList p.body hplain []
  have hlimit : p.resolve.bindings.size < config.limit :=
    Nat.lt_of_lt_of_le hlimit (Nat.le_max_right 1 config.passLimit)
  have hlimit := Nat.lt_of_lt_of_le hlimit (Nat.le_add_right config.limit
    (Check.typedBindings p.resolve.bindings.size (p.initialState p.resolve)).card)
  obtain ⟨hconverged, hpasses⟩ := (p.ready_initialState config).passes hordered hlimit
  refine ⟨hconverged, Nat.le_trans (Nat.le_add_right _ _) (Nat.le_trans hpasses ?_)⟩
  simp [initialState, Store.new]

/-- A function, closures, destructuring, a tagged template and reads of names that are declared
later. -/
theorem Program.plain_converges_closures : ∃ p,
    Program.ofSource
      "function f([p], q) \x7b return () => \x7b y = x; return p; \x7d; \x7d
      var g = () => y; var x = int`1`; var y = x;" = .ok p ∧
    p.isPlain = true ∧ p.resolve.bindings.size < ({} : Config).passLimit ∧
    (p.check {}).passes = 2 ∧
    (p.check {}).converged = true ∧ (p.check {}).passes ≤ p.resolve.bindings.size + 1 := by
  obtain ⟨p, hp, htest⟩ := Program.exists_of_any
      "function f([p], q) \x7b return () => \x7b y = x; return p; \x7d; \x7d
      var g = () => y; var x = int`1`; var y = x;"
    (fun p => p.isPlain && decide (p.resolve.bindings.size < ({} : Config).passLimit) &&
      (p.check {}).passes == 2) (by decide +kernel)
  simp only [Bool.and_eq_true, decide_eq_true_eq, beq_iff_eq] at htest
  exact ⟨p, hp, htest.1.1, htest.1.2, htest.2, Program.plain_converges htest.1.1 htest.1.2⟩

end TagCheck
