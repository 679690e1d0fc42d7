import TagCheck.Proofs.Check.Moments

/-! The type slot of a binding along a pass. Once it holds a known type of the pass it is settled,
and it stays as it is, except that an `undef` gives way to another type at most once. -/
namespace TagCheck

/-- A known type of this pass. -/
def Marked.IsSettled (pass : Nat) (m : Marked Ty) : Prop := m.pass = pass ∧ m.value.isKnown = true

/-- What a type slot may hold from state to state of a pass: nothing settled for a while, then one
settled type, and after an `undef` another one. -/
inductive SlotRun (pass : Nat) : List (Option (Marked Ty)) → Prop
  | nil : SlotRun pass []
  | unsettled {x : Option (Marked Ty)} {xs : List (Option (Marked Ty))}
    (hx : ∀ m, x = some m → ¬ m.IsSettled pass) (hxs : SlotRun pass xs) : SlotRun pass (x :: xs)
  | settled {m : Marked Ty} (n : Nat) (hm : m.IsSettled pass) :
    SlotRun pass (List.replicate n (some m))
  | replaced {m m' : Marked Ty} (n k : Nat) (hm : m.IsSettled pass) (htag : m.value.tag = .undef)
    (hm' : m'.IsSettled pass) (htag' : m'.value.tag ≠ .undef) :
    SlotRun pass (List.replicate n (some m) ++ List.replicate k (some m'))

def SlotStep (pass : Nat) (x y : Option (Marked Ty)) : Prop :=
  ∀ m, x = some m → m.IsSettled pass →
    y = x ∨ m.value.tag = .undef ∧ ∃ m', y = some m' ∧ m'.IsSettled pass ∧ m'.value.tag ≠ .undef

theorem Visit.Permits.slotStep {env : CheckEnv} {v : Visit} {s : CheckState} {w : Write}
    (h : v.Permits env s w) (b : BindingId) : SlotStep s.store.pass
      (s.store.cell (.binding b)).ty ((w.onStore s.store).cell (.binding b)).ty := by
  intro m hm hsettled
  have hthis : s.store.hasTypeThisPass (.binding b) = true :=
    Store.hasTypeThisPass_iff.2 ⟨m, hm, hsettled⟩
  rcases w.ty_cell_onStore s.store (.binding b) with
    hty | ⟨ty, -, hopen, -⟩ | ⟨b', ty, rfl, hb, hty⟩
  · exact Or.inl hty
  · exact absurd hthis (by simp [hopen])
  · obtain rfl : b = b' := by simpa using hb
    obtain ⟨-, hundef, hknown, htag⟩ := h.of_reimply
    refine Or.inr ⟨?_, ⟨ty, m.pass⟩, by rw [hty, hm]; rfl, ⟨hsettled.1, hknown⟩, htag⟩
    simpa [Store.tag, Store.ty?, hm] using hundef

namespace SlotRun

variable {pass : Nat} {m : Marked Ty} {xs : List (Option (Marked Ty))}

/-- A settled type that is not `undef` stays. -/
theorem eq_replicate (hm : m.IsSettled pass) (htag : m.value.tag ≠ .undef)
    (h : (some m :: xs).IsChain (SlotStep pass)) : xs = List.replicate xs.length (some m) := by
  induction xs with
  | nil => rfl
  | cons x xs ih =>
    obtain ⟨hstep, htail⟩ := List.isChain_cons_cons.1 h
    rcases hstep m rfl hm with rfl | ⟨hundef, -⟩
    · rw [List.length_cons, List.replicate_succ, ← ih htail]
    · exact absurd hundef htag

/-- A settled type stays for a while, and what comes after it stays to the end. -/
theorem of_settled (hm : m.IsSettled pass) (h : (some m :: xs).IsChain (SlotStep pass)) :
    ∃ n ys, some m :: xs = List.replicate n (some m) ++ ys ∧ (ys = [] ∨ m.value.tag = .undef ∧
      ∃ m' k, m'.IsSettled pass ∧ m'.value.tag ≠ .undef ∧ ys = List.replicate k (some m')) := by
  induction xs with
  | nil => exact ⟨1, [], rfl, Or.inl rfl⟩
  | cons x xs ih =>
    obtain ⟨hstep, htail⟩ := List.isChain_cons_cons.1 h
    rcases hstep m rfl hm with rfl | ⟨htag, m', rfl, hm', htag'⟩
    · obtain ⟨n, ys, hys, hend⟩ := ih htail
      exact ⟨n + 1, ys, by rw [hys, List.replicate_succ, List.cons_append], hend⟩
    · refine ⟨1, some m' :: xs, rfl, Or.inr ⟨htag, m', xs.length + 1, hm', htag', ?_⟩⟩
      rw [List.replicate_succ, ← eq_replicate hm' htag' htail]

theorem of_isChain (h : xs.IsChain (SlotStep pass)) : SlotRun pass xs := by
  induction xs with
  | nil => exact .nil
  | cons x xs ih =>
    by_cases hx : ∀ m, x = some m → ¬ m.IsSettled pass
    · exact .unsettled hx (ih h.of_cons)
    · simp only [not_forall, not_not] at hx
      obtain ⟨m, rfl, hm⟩ := hx
      obtain ⟨n, ys, hys, rfl | ⟨htag, m', k, hm', htag', rfl⟩⟩ := of_settled hm h
      · rw [hys, List.append_nil]
        exact .settled n hm
      · rw [hys]
        exact .replaced n k hm htag hm' htag'

end SlotRun

theorem Check.pass_of_mem_passMoments {env : CheckEnv} {visits : List Visit} {s : CheckState}
    {m : Moment} (hm : m ∈ passMoments env visits s) : m.before.store.pass = s.store.pass + 1 := by
  obtain ⟨ms, ms', hsplit⟩ := List.append_of_mem hm
  have hlinked := linked_passMoments env visits s
  rw [hsplit] at hlinked
  exact hlinked.split.1.pass_eq

/-- In every pass of a run the type slot of a binding settles at most once, and a settled `undef`
is replaced at most once, by a known type that is not `undef`. -/
theorem Program.binding_type_settles (p : Program) (config : Config) (b : BindingId) :
    ∀ s ∈ p.passStarts config, SlotRun (s.store.pass + 1)
      ((Check.passStates (p.checkEnv config) p.visits s).map
        fun t => (t.store.cell (.binding b)).ty) := by
  intro s _
  refine SlotRun.of_isChain ((List.isChain_map _).2 (Check.isChain_passStates fun m hm => ?_))
  have hstep := (Check.permits_of_mem_moments hm).2.slotStep b
  rwa [Check.pass_of_mem_passMoments hm, ← Write.store_apply] at hstep

/-- The declaration settles `x`, and the assignment replaces its type. -/
theorem Program.binding_type_settles_reimplied :
    ∃ p, Program.ofSource "var x; x = 1;" = .ok p ∧ ∃ s ∈ p.passStarts {}, ∃ slots,
      slots = (Check.passStates (p.checkEnv {}) p.visits s).map
        (fun t => (t.store.cell (.binding 0)).ty) ∧ SlotRun (s.store.pass + 1) slots ∧
      slots = none :: (List.replicate 6 (some ⟨.inferred .undef, 1⟩) ++
        List.replicate 2 (some ⟨.inferred .int, 1⟩)) := by
  obtain ⟨p, hp, hslots⟩ := Program.exists_of_any "var x; x = 1;"
    (fun p => (Check.passStates (p.checkEnv {}) p.visits (p.initialState p.resolve)).map
        (fun t => (t.store.cell (.binding 0)).ty) =
      none :: (List.replicate 6 (some ⟨.inferred .undef, 1⟩) ++
        List.replicate 2 (some ⟨.inferred .int, 1⟩))) (by decide +kernel)
  have hs := p.initialState_mem_passStarts {}
  exact ⟨p, hp, _, hs, _, rfl, p.binding_type_settles {} 0 _ hs, by simpa using hslots⟩

end TagCheck
