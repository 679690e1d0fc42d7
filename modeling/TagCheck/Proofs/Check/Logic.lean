import TagCheck.Check.State

/-! Reasoning about a rule write by write: from a state on, every write meets a guarantee at its own
moment, and a condition holds in the end. The guarantee may speak of the state that is written to,
so it says what a rule relies on when it writes. -/
namespace TagCheck
namespace Check

/-- The writes of a rule in order, each with the state that it meets. -/
def trace : Check α → CheckState → List (CheckState × Write)
  | done _, _ => []
  | read next, s => (next s.store s.frames).trace s
  | write w next, s => (s, w) :: next.trace (w.apply s)

/-- Every write is as `G` says of the state that it meets, and the result is as `Q` says. -/
def Ensures (G : CheckState → Write → Prop) (Q : α → CheckState → Prop) :
    Check α → CheckState → Prop
  | done a, s => Q a s
  | read next, s => (next s.store s.frames).Ensures G Q s
  | write w next, s => G s w ∧ next.Ensures G Q (w.apply s)

theorem ensures_iff_trace {G : CheckState → Write → Prop} {Q : α → CheckState → Prop}
    {m : Check α} {s : CheckState} :
    m.Ensures G Q s ↔ (∀ x ∈ m.trace s, G x.1 x.2) ∧ Q (m.run s).1 (m.run s).2 := by
  induction m generalizing s with
  | done a => simp [Ensures, trace, run]
  | read next ih => exact ih s.store s.frames
  | write w next ih => simp [Ensures, trace, run, ih, and_assoc]

theorem Ensures.mono {G H : CheckState → Write → Prop} {Q R : α → CheckState → Prop} {m : Check α}
    {s : CheckState} (h : m.Ensures G Q s) (hG : ∀ s w, G s w → H s w)
    (hQ : ∀ a s, Q a s → R a s) : m.Ensures H R s := by
  induction m generalizing s with
  | done a => exact hQ a s h
  | read next ih => exact ih s.store s.frames h
  | write w next ih => exact ⟨hG s w h.1, ih h.2⟩

theorem Ensures.imp {G : CheckState → Write → Prop} {Q R : α → CheckState → Prop} {m : Check α}
    {s : CheckState} (h : m.Ensures G Q s) (hQ : ∀ a s, Q a s → R a s) : m.Ensures G R s :=
  h.mono (fun _ _ hG => hG) hQ

theorem Ensures.and {G H : CheckState → Write → Prop} {Q R : α → CheckState → Prop} {m : Check α}
    {s : CheckState} (h : m.Ensures G Q s) (h' : m.Ensures H R s) :
    m.Ensures (fun s w => G s w ∧ H s w) (fun a s => Q a s ∧ R a s) s := by
  induction m generalizing s with
  | done a => exact ⟨h, h'⟩
  | read next ih => exact ih s.store s.frames h h'
  | write w next ih => exact ⟨⟨h.1, h'.1⟩, ih h.2 h'.2⟩

/-- A condition that every guaranteed write keeps holds at every write and in the end. -/
theorem Ensures.invariant {G : CheckState → Write → Prop} {Q : α → CheckState → Prop}
    {I : CheckState → Prop} {m : Check α} {s : CheckState} (h : m.Ensures G Q s) (hs : I s)
    (hI : ∀ s w, I s → G s w → I (w.apply s)) :
    m.Ensures (fun s w => I s ∧ G s w) (fun a s => I s ∧ Q a s) s := by
  induction m generalizing s with
  | done a => exact ⟨hs, h⟩
  | read next ih => exact ih s.store s.frames h hs
  | write w next ih => exact ⟨⟨hs, h.1⟩, ih h.2 (hI s w hs h.1)⟩

section

variable {G : CheckState → Write → Prop} {s : CheckState}

@[simp] theorem ensures_pure {Q : α → CheckState → Prop} {a : α} :
    (pure a : Check α).Ensures G Q s ↔ Q a s := Iff.rfl

@[simp] theorem ensures_bind {Q : β → CheckState → Prop} {m : Check α} {f : α → Check β} :
    (m >>= f).Ensures G Q s ↔ m.Ensures G (fun a s => (f a).Ensures G Q s) s := by
  change (m.bind f).Ensures G Q s ↔ _
  induction m generalizing s with
  | done a => rfl
  | read next ih => exact ih s.store s.frames
  | write w next ih => simp [Check.bind, Ensures, ih]

@[simp] theorem ensures_ite {Q : α → CheckState → Prop} {c : Prop} [Decidable c] {m m' : Check α} :
    (if c then m else m').Ensures G Q s ↔ (c → m.Ensures G Q s) ∧ (¬ c → m'.Ensures G Q s) := by
  split <;> simp_all

/-- A rule applied to each item of a list, with a condition that holds before each of them. -/
theorem ensures_forM {I : CheckState → Prop} {f : α → Check PUnit} {l : List α}
    (h : ∀ a ∈ l, ∀ s, I s → (f a).Ensures G (fun _ s => I s) s) (hs : I s) :
    (l.forM f).Ensures G (fun _ s => I s) s := by
  induction l generalizing s with
  | nil => exact hs
  | cons a l ih =>
    refine ensures_bind.2 ((h a (List.mem_cons_self ..) s hs).imp ?_)
    exact fun _ s' hs' => ih (fun b hb => h b (List.mem_cons_of_mem a hb)) hs'

@[simp] theorem ensures_put {Q : Unit → CheckState → Prop} {w : Write} :
    (put w).Ensures G Q s ↔ G s w ∧ Q () (w.apply s) := Iff.rfl

@[simp] theorem ensures_getStore {Q : Store → CheckState → Prop} :
    getStore.Ensures G Q s ↔ Q s.store s := Iff.rfl

@[simp] theorem ensures_frame? {Q : Option FuncShapeId → CheckState → Prop} :
    frame?.Ensures G Q s ↔ Q s.frames.head? s := Iff.rfl

end

-- The other primitives are opened where they are met: each is one write or one look at the store.
attribute [simp] markType markShape touch markKnown modifyFunc modifyReturn functionShape
  nativeShape report info error unexpected mismatched ty? tyOf knownType? tagOf shape? func?
  shapeFits describe

end Check
end TagCheck
