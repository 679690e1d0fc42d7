import TagCheck.Proofs.Check.Alike
import TagCheck.Proofs.Check.Moments

/-! What a configuration can change. The weight of a strict comparison enters nothing but the
reports of that one code, and a limit that was enough is as good as any higher one, so two
configurations find the same types and shapes and report the same besides. -/
namespace TagCheck

namespace Reporter

def without (c : Code) (r : Reporter) : List Diagnostic := r.entries.filter (·.code != c)

theorem without_emit_self (r : Reporter) (severity : Severity) (c : Code) (message : String)
    (pos : Option Position) : (r.emit severity c message pos).without c = r.without c := by
  unfold emit
  split
  · rfl
  · simp [without]

/-- Entries of one code are no obstacle to a report of another. -/
theorem any_states_without {r : Reporter} {c code : Code} (h : code ≠ c) (message : String)
    (pos : Option Position) :
    (r.without c).any (·.states code message pos) = r.entries.any (·.states code message pos) := by
  unfold without
  rw [List.any_filter]
  congr 1
  funext d
  by_cases hd : d.code = code
  · simp [hd, h]
  · simp [Diagnostic.states, hd]

theorem without_emit_of_ne {r : Reporter} {c code : Code} (h : code ≠ c) (severity : Severity)
    (message : String) (pos : Option Position) :
    (r.emit severity code message pos).without c =
      (emit ⟨r.without c, r.pass⟩ severity code message pos).entries := by
  unfold emit
  rw [any_states_without h]
  split
  · rfl
  · simp [without, h]

theorem pass_emit (r : Reporter) (severity : Severity) (code : Code) (message : String)
    (pos : Option Position) : (r.emit severity code message pos).pass = r.pass := by
  unfold emit
  split <;> rfl

theorem without_beginPass (r : Reporter) (c : Code) (pass : Nat) :
    (r.beginPass pass).without c = (r.without c).filter (·.severity == .info) := by
  simp [without, beginPass, List.filter_filter, Bool.and_comm]

def AgreeWithout (c : Code) (r r' : Reporter) : Prop :=
  r.without c = r'.without c ∧ r.pass = r'.pass

theorem keeps_agreeWithout (c : Code) :
    Keeps (fun code _ x y => x = y ∨ code = c) (AgreeWithout c) where
  emit := by
    intro r r' severity severity' code message message' pos h hM
    refine ⟨?_, by rw [pass_emit, pass_emit, h.2]⟩
    by_cases hcode : code = c
    · subst hcode
      rw [without_emit_self, without_emit_self, h.1]
    · obtain ⟨rfl, rfl⟩ := Prod.mk.inj (hM.resolve_right hcode)
      rw [without_emit_of_ne hcode, without_emit_of_ne hcode, h.1, h.2]
  beginPass := by
    intro r r' pass h
    refine ⟨?_, rfl⟩
    rw [without_beginPass, without_beginPass, h.1]

end Reporter

namespace Check

variable (r : Resolution) (a b : Severity)

theorem parametersFrom_severity (id : FuncShapeId) (idx : Nat) (ps : List Pattern) :
    parametersFrom ⟨r, a⟩ id idx ps = parametersFrom ⟨r, b⟩ id idx ps := by
  induction ps generalizing idx with
  | nil => rfl
  | cons p ps ih =>
    simp only [parametersFrom, ih]
    rfl

theorem argumentsFrom_severity (pos : Position) (id : FuncShapeId) (origin : Option FuncId)
    (idx : Nat) (args : List Element) (params : List Slot) :
    argumentsFrom ⟨r, a⟩ pos id origin idx args params =
      argumentsFrom ⟨r, b⟩ pos id origin idx args params := by
  induction args generalizing idx params with
  | nil => rfl
  | cons arg args ih =>
    cases arg with
    | item e =>
      cases params with
      | nil => rfl
      | cons p ps =>
        simp only [argumentsFrom, ih]
        rfl
    | _ => rfl

mutual

theorem assign_severity (node : Option NodeId) (value : Expr) : (p : Pattern) →
    assign ⟨r, a⟩ node value p = assign ⟨r, b⟩ node value p
  | .ident i => by
    simp only [assign]
    rfl
  | .array n targets => by simp only [assign, assignElements_severity]
  | .object n props => by simp only [assign, assignProps_severity]
  | .withDefault n target d => by simp only [assign, assign_severity node value target]
  | .rest n argument => by simp only [assign]

theorem assignElements_severity (es : List Element) : (ps : List (Option Pattern)) →
    assignElements ⟨r, a⟩ es ps = assignElements ⟨r, b⟩ es ps
  | [] => by cases es <;> simp only [assignElements]
  | none :: ps => by
    cases es with
    | nil => simp only [assignElements]
    | cons e es => cases e <;> simp only [assignElements, assignElements_severity es ps]
  | some p :: ps => by
    cases es with
    | nil => simp only [assignElements]
    | cons e es =>
      cases e <;> simp only [assignElements, assign_severity _ _ p, assignElements_severity es ps]

theorem assignProps_severity (source : List Property) : (ps : List PatternProp) →
    assignProps ⟨r, a⟩ source ps = assignProps ⟨r, b⟩ source ps
  | [] => by simp only [assignProps]
  | .prop key p :: ps => by
    simp only [assignProps, assign_severity _ _ p, assignProps_severity source ps]
  | .rest argument :: ps => by simp only [assignProps, assignProps_severity source ps]

end

end Check

/-- Only a strict comparison looks at the severity it is configured to have, and only in the report
that both sides are known to be of one type. -/
theorem Visit.alike_apply (r : Resolution) (a b : Severity) (v : Visit) :
    Check.Alike (fun code _ x y => x = y ∨ code = .strictEqualityKnownMatchingTypes)
      (v.apply ⟨r, a⟩) (v.apply ⟨r, b⟩) := by
  have hrefl : ∀ m : Check Unit,
      Check.Alike (fun code _ x y => x = y ∨ code = .strictEqualityKnownMatchingTypes) m m :=
    .refl fun _ _ _ => .inl rfl
  cases v with
  | binary n op left right =>
    cases op with
    | strictEq | strictNotEq =>
      refine .bind (.look _) fun l => .bind (.look _) fun r => .bind (hrefl _) fun _ => ?_
      split
      · split
        · exact .report (.inr rfl)
        · exact hrefl _
      · exact hrefl _
    | _ => exact hrefl _
  | parameters params =>
    simp only [Visit.apply, Check.parameters, Check.parametersFrom_severity r a b]
    exact hrefl _
  | assign n value target =>
    simp only [Visit.apply, Check.assign_severity r a b]
    exact hrefl _
  | assignDefault n target value =>
    simp only [Visit.apply, Check.assignDefault, Check.assign_severity r a b]
    exact hrefl _
  | call n callee args tail =>
    simp only [Visit.apply, Check.call, Check.argumentsFrom_severity r a b]
    exact hrefl _
  | _ => exact hrefl _

/-- Passes that come to an end are not changed by a higher limit. -/
theorem Check.passes_of_le {env : CheckEnv} {vs : List Visit} {limit limit' : Nat} {s : CheckState}
    (hlimit : limit ≤ limit') (h : (passes env vs limit s).1 = true) :
    passes env vs limit' s = passes env vs limit s := by
  induction limit generalizing limit' s with
  | zero => cases h
  | succ limit ih =>
    obtain ⟨more, rfl⟩ : ∃ more, limit' = more + 1 := ⟨limit' - 1, by omega⟩
    simp only [passes] at h ⊢
    split
    next hagain =>
      rw [if_pos hagain] at h
      exact ih (by omega) h
    next => rfl

theorem Program.check_of_passes {p : Program} {c : Config} {t : CheckState}
    (h : Check.passes (p.checkEnv c) p.visits c.limit (p.initialState p.resolve) = (true, t)) :
    p.check c = ⟨t.reporter.entries, t.store.pass, true, t.store, p.resolve.bindings.toList⟩ := by
  have hresolve : (p.checkEnv c).resolution = p.resolve := rfl
  simp [Program.check, hresolve, h]

/-- Two configurations lead to the same types and shapes after the same passes, and to the same
reports but for strict comparisons of one type, if the lower limit of passes is enough. -/
theorem Program.check_options (p : Program) (c c' : Config) (hlimit : c.passLimit ≤ c'.passLimit)
    (hconverged : (p.check c).converged = true) :
    (p.check c').passes = (p.check c).passes ∧
    (p.check c').converged = (p.check c).converged ∧
    (p.check c').store = (p.check c).store ∧
    (p.check c').bindings = (p.check c).bindings ∧
    (p.check c').diagnostics.filter (·.code != .strictEqualityKnownMatchingTypes) =
      (p.check c).diagnostics.filter (·.code != .strictEqualityKnownMatchingTypes) := by
  have hstart : CheckState.Agree (Reporter.AgreeWithout .strictEqualityKnownMatchingTypes)
      (p.initialState p.resolve) (p.initialState p.resolve) := ⟨rfl, rfl, rfl, rfl⟩
  have hvisits : List.Forall₂ (fun v v' => Check.Alike
      (fun code _ x y => x = y ∨ code = .strictEqualityKnownMatchingTypes)
      (v.apply (p.checkEnv c')) (v'.apply (p.checkEnv c))) p.visits p.visits :=
    List.forall₂_same.2 fun v _ => v.alike_apply _ _ _
  obtain ⟨hflag, hend⟩ := hstart.passes (Reporter.keeps_agreeWithout _) hvisits c.limit
  obtain ⟨t, ht⟩ : ∃ t, Check.passes (p.checkEnv c) p.visits c.limit (p.initialState p.resolve) =
      (true, t) := ⟨_, Prod.ext hconverged rfl⟩
  rw [ht] at hflag hend
  -- the run of the other configuration, first under the same limit and then under its own
  obtain ⟨t', ht'⟩ : ∃ t', Check.passes (p.checkEnv c') p.visits c.limit
      (p.initialState p.resolve) = (true, t') := ⟨_, Prod.ext (by exact hflag) rfl⟩
  have hmore : c.limit ≤ c'.limit := by
    simp only [Config.limit]
    omega
  have hlast := (Check.passes_of_le hmore hflag).trans ht'
  rw [ht'] at hend
  rw [Program.check_of_passes ht, Program.check_of_passes hlast]
  exact ⟨congrArg Store.pass hend.store, rfl, hend.store, rfl, hend.reporter.1⟩

/-- As information the comparison is reported once and for all, and as an error in every pass. -/
theorem Program.check_options_of_comparison : ∃ p,
    Program.ofSource "var f = () => a === 2; var g = () => b; var a = int`1`; var b = a;" = .ok p ∧
    (p.check ⟨2, .info, true, .json⟩).converged = true ∧
    (p.check ⟨9, .error, false, .human⟩).diagnostics ≠
      (p.check ⟨2, .info, true, .json⟩).diagnostics ∧
    (p.check ⟨9, .error, false, .human⟩).store = (p.check ⟨2, .info, true, .json⟩).store ∧
    (p.check ⟨9, .error, false, .human⟩).diagnostics.filter
        (·.code != .strictEqualityKnownMatchingTypes) =
      (p.check ⟨2, .info, true, .json⟩).diagnostics.filter
        (·.code != .strictEqualityKnownMatchingTypes) := by
  obtain ⟨p, hp, htest⟩ := Program.exists_of_any
      "var f = () => a === 2; var g = () => b; var a = int`1`; var b = a;"
    (fun p => (p.check ⟨2, .info, true, .json⟩).converged &&
      (p.check ⟨9, .error, false, .human⟩).diagnostics !=
        (p.check ⟨2, .info, true, .json⟩).diagnostics) (by decide +kernel)
  simp only [Bool.and_eq_true, bne_iff_ne] at htest
  obtain ⟨-, -, hstore, -, hdiagnostics⟩ := Program.check_options p ⟨2, .info, true, .json⟩
    ⟨9, .error, false, .human⟩ (by decide) htest.1
  exact ⟨p, hp, htest.1, htest.2, hstore, hdiagnostics⟩

end TagCheck
