import TagCheck.Proofs.Check.Retention

/-! Why a pass asks for another one: something was noted as unknown in it, and as known. For a
binding that was noted because it had no type this means that the type came later. But some rules
note what they read without a look at its type, and then the order is open. -/
namespace TagCheck
namespace Check

section

variable {s t : CheckState} {ms : List Moment} {x : Tracked}

/-- What is noted in the end was noted before, or is noted at some moment. -/
theorem Linked.mem_notes_iff {notes : Store → List Tracked} {note : Write}
    (hnote : ∀ (w : Write) (s : Store), x ∈ notes (w.onStore s) ↔ w = note ∨ x ∈ notes s)
    (h : Linked s ms t) :
    x ∈ notes t.store ↔ x ∈ notes s.store ∨ ∃ m ∈ ms, m.write = note := by
  induction ms generalizing s with
  | nil =>
    obtain rfl : s = t := h
    simp
  | cons m ms ih =>
    obtain ⟨rfl, htail⟩ := h
    rw [ih htail, Moment.after, Write.store_apply, hnote]
    simp only [List.mem_cons, exists_eq_or_imp]
    tauto

theorem Linked.mem_touched_iff (h : Linked s ms t) :
    x ∈ t.store.touched ↔ x ∈ s.store.touched ∨ ∃ m ∈ ms, m.write = .touch x :=
  h.mem_notes_iff fun _ _ => Write.mem_touched_onStore

theorem Linked.mem_known_iff (h : Linked s ms t) :
    x ∈ t.store.known ↔ x ∈ s.store.known ∨ ∃ m ∈ ms, m.write = .known x :=
  h.mem_notes_iff fun _ _ => Write.mem_known_onStore

/-- A first moment of a kind. -/
theorem exists_first_moment {P : Moment → Prop} (h : ∃ m ∈ ms, P m) :
    ∃ before m after, ms = before ++ m :: after ∧ P m ∧ ∀ k ∈ before, ¬ P k := by
  induction ms with
  | nil => simp at h
  | cons k ms ih =>
    by_cases hk : P k
    · exact ⟨[], k, ms, rfl, hk, by simp⟩
    · obtain ⟨before, m, after, rfl, hm, hbefore⟩ := ih (by simpa [hk] using h)
      exact ⟨k :: before, m, after, rfl, hm, List.forall_mem_cons.2 ⟨hk, hbefore⟩⟩

end

/-- At some moment it is noted as unknown and is unknown, and at a later one it is noted as
known. -/
def ReadTooEarly (ms : List Moment) (x : Tracked) : Prop :=
  ∃ before m after, ms = before ++ m :: after ∧ m.write = .touch x ∧
    m.before.store.isUnknown x = true ∧ ∃ k ∈ after, k.write = .known x

/-- The result of a function is noted as unknown while it is open, and as known before or after. -/
def ReadOpen (ms : List Moment) (id : FuncShapeId) : Prop :=
  (∃ m ∈ ms, m.write = .touch (.ret id) ∧ m.before.store.isUnknown (.ret id) = true) ∧
    ∃ k ∈ ms, k.write = .known (.ret id)

/-- A binding is noted as unknown by one of the rules that do not ask whether it has a type, and
as known before or after. -/
def ReadUnasked (env : CheckEnv) (ms : List Moment) (b : BindingId) : Prop :=
  (∃ m ∈ ms, m.write = .touch (.binding b) ∧
    m.visit.Excuses env m.before.store (.touch (.binding b))) ∧
    ∃ k ∈ ms, k.write = .known (.binding b)

/-- Why something is noted both as unknown and as known. -/
def Misread (env : CheckEnv) (ms : List Moment) (x : Tracked) : Prop :=
  ReadTooEarly ms x ∨ (∃ id, x = .ret id ∧ ReadOpen ms id) ∨
    ∃ b, x = .binding b ∧ ReadUnasked env ms b

section

variable {env : CheckEnv} {visits : List Visit} {s : CheckState} {b : BindingId}

/-- A binding that had no type when it was first noted as unknown was not noted as known before. -/
theorem not_known_of_isUntyped {before after : List Moment} {m : Moment}
    (hcells : env.HasCells s) (hsplit : passMoments env visits s = before ++ m :: after)
    (huntyped : m.before.store.isUntyped (.binding b) = true)
    (hfirst : ∀ k ∈ before, k.write ≠ .touch (.binding b)) :
    ∀ k ∈ before, k.write ≠ .known (.binding b) := by
  intro k hk hwrite
  obtain ⟨pre, post, rfl⟩ := List.append_of_mem hk
  have hlinked := linked_passMoments env visits s
  have hpermits (j : Moment) (hj : j ∈ passMoments env visits s) := (permits_of_mem_moments hj).2
  rw [hsplit] at hlinked hpermits
  obtain ⟨hpre, hpost⟩ := hlinked.split.1.split
  have hk := hpermits k (by simp)
  rw [hwrite] at hk
  rcases hk.of_known with ⟨⟨i, hb⟩, htyped⟩ | ⟨-, htouched⟩
  · -- It had a type when it was noted as known, and then it has one at the later moment too.
    have hk : k.before.store.isUntyped (.binding b) = false :=
      htyped (hpre.hasCells (s := s.beginPass) hcells i b hb).1
    have hm : m.before.store.isUntyped (.binding b) = false :=
      Linked.typed (show Linked k.before (k :: post) m.before from ⟨rfl, hpost⟩)
        (fun j hj => hpermits j (List.mem_append_left _ (List.mem_append_right _ hj))) hk
    simp [hm] at huntyped
  · -- Or else it was noted as unknown before.
    rcases hpre.mem_touched_iff.1 htouched with hnil | ⟨j, hj, hjwrite⟩
    · exact absurd hnil List.not_mem_nil
    · exact hfirst j (by simp [hj]) hjwrite

theorem noted_both_iff (hcells : env.HasCells s) (x : Tracked) :
    (x ∈ (pass env visits s).store.touched ∧ x ∈ (pass env visits s).store.known) ↔
      Misread env (passMoments env visits s) x := by
  have hlinked := linked_passMoments env visits s
  have htouched : x ∈ (pass env visits s).store.touched ↔
      ∃ m ∈ passMoments env visits s, m.write = .touch x :=
    hlinked.mem_touched_iff.trans (or_iff_right List.not_mem_nil)
  have hknown : x ∈ (pass env visits s).store.known ↔
      ∃ m ∈ passMoments env visits s, m.write = .known x :=
    hlinked.mem_known_iff.trans (or_iff_right List.not_mem_nil)
  rw [htouched, hknown]
  constructor
  · rintro ⟨htouch, k, hk, hkwrite⟩
    obtain ⟨before, m, after, hsplit, hwrite, hfirst⟩ := exists_first_moment htouch
    have hm : m ∈ passMoments env visits s := by simp [hsplit]
    have hpermits := (permits_of_mem_moments hm).2
    rw [hwrite] at hpermits
    cases x with
    | ret id =>
      exact Or.inr (Or.inl ⟨id, rfl, ⟨m, hm, hwrite, hpermits.of_touch_ret⟩, k, hk, hkwrite⟩)
    | binding b =>
      rcases hpermits with huntyped | hexcuse
      · have hnot := not_known_of_isUntyped hcells hsplit huntyped hfirst
        refine Or.inl ⟨before, m, after, hsplit, hwrite, huntyped, k, ?_, hkwrite⟩
        rw [hsplit] at hk
        rcases List.mem_append.1 hk with hk | hk
        · exact absurd hkwrite (hnot k hk)
        rcases List.mem_cons.1 hk with rfl | hk
        · rw [hwrite] at hkwrite
          cases hkwrite
        · exact hk
      · exact Or.inr (Or.inr ⟨b, rfl, ⟨m, hm, hwrite, hexcuse⟩, k, hk, hkwrite⟩)
  · rintro (⟨before, m, after, hsplit, hwrite, -, k, hk, hkwrite⟩ |
      ⟨id, rfl, ⟨m, hm, hwrite, -⟩, hk⟩ | ⟨b, rfl, ⟨m, hm, hwrite, -⟩, hk⟩)
    · rw [hsplit]
      exact ⟨⟨m, by simp, hwrite⟩, k, by simp [hk], hkwrite⟩
    · exact ⟨⟨m, hm, hwrite⟩, hk⟩
    · exact ⟨⟨m, hm, hwrite⟩, hk⟩

end

end Check

/-- A pass asks for another one if something was read before it was known, and also if the result of
an open function was read, or a binding without asking for its type. -/
theorem Program.needs_another_pass_iff (p : Program) (config : Config) :
    ∀ s ∈ p.passStarts config,
      ((Check.pass (p.checkEnv config) p.visits s).store.needsAnotherPass = true ↔
        ∃ x, Check.Misread (p.checkEnv config)
          (Check.passMoments (p.checkEnv config) p.visits s) x) := by
  intro s hs
  simp only [← Check.noted_both_iff (Program.hasCells_of_mem_passStarts hs)]
  simp [Store.needsAnotherPass]

theorem Program.needs_another_pass_of_closure :
    ∃ p, Program.ofSource "var f = () => x; var x = 1;" = .ok p ∧ ∃ s ∈ p.passStarts {},
      (Check.pass (p.checkEnv {}) p.visits s).store.needsAnotherPass = true ∧
        ∃ x, Check.Misread (p.checkEnv {}) (Check.passMoments (p.checkEnv {}) p.visits s) x := by
  obtain ⟨p, hp, hneeds⟩ := Program.exists_of_any "var f = () => x; var x = 1;"
    (fun p => (Check.pass (p.checkEnv {}) p.visits
      (p.initialState p.resolve)).store.needsAnotherPass) (by decide +kernel)
  have hs := p.initialState_mem_passStarts {}
  exact ⟨p, hp, _, hs, hneeds, (p.needs_another_pass_iff {} _ hs).1 hneeds⟩

def Write.touched? : Write → Option Tracked
  | .touch x => some x
  | _ => none

/-- A call of something that is no function asks for another pass although its type is known
whenever it is read. -/
theorem Program.call_of_known_value_needs_another_pass :
    ∃ p, Program.ofSource "var f = 1; f();" = .ok p ∧ ∃ s ∈ p.passStarts {},
      (Check.pass (p.checkEnv {}) p.visits s).store.needsAnotherPass = true ∧
      ∀ m ∈ Check.passMoments (p.checkEnv {}) p.visits s, ∀ x,
        m.write = .touch x → m.before.store.isUnknown x = false := by
  obtain ⟨p, hp, htest⟩ := Program.exists_of_any "var f = 1; f();"
    (fun p =>
      (Check.pass (p.checkEnv {}) p.visits (p.initialState p.resolve)).store.needsAnotherPass &&
      (Check.passMoments (p.checkEnv {}) p.visits (p.initialState p.resolve)).all fun m =>
        m.write.touched?.all fun x => !m.before.store.isUnknown x) (by decide +kernel)
  simp only [Bool.and_eq_true, List.all_eq_true] at htest
  refine ⟨p, hp, _, p.initialState_mem_passStarts {}, htest.1, fun m hm x hx => ?_⟩
  simpa [hx, Write.touched?] using htest.2 m hm

end TagCheck
