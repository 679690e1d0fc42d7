import TagCheck.Proofs.Check.Options
import TagCheck.Proofs.Check.Orderly
import TagCheck.Proofs.Program.Sites
import TagCheck.Proofs.Token.Tiling

/-! What the diagnostics of a run say about its passes. Errors are those of the last pass. What is
given as information is kept from the first pass that gives it, and is given once. All that is said
of a part of the source is said at the first character of one of its tokens. -/
namespace TagCheck

def Write.information? (pass : Nat) : Write → Option Diagnostic
  | report .info code message pos => some ⟨.info, code, message, some pos, pass⟩
  | _ => none

theorem Diagnostic.states_iff {d : Diagnostic} {code : Code} {message : String}
    {pos : Option Position} :
    d.states code message pos = true ↔ d.code = code ∧ d.pos = pos ∧ d.message = message := by
  simp [Diagnostic.states, and_assoc]

/-! Of the items of a kind, the first is kept. -/

theorem filter_eq_take_one_of_known {p : α → Bool} {kept given : List α} {a : α}
    (h : kept.filter p = (given.filter p).take 1) (hknown : p a = true → kept.filter p ≠ []) :
    kept.filter p = ((given ++ [a]).filter p).take 1 := by
  rw [List.filter_append]
  cases hgiven : given.filter p with
  | nil =>
    have hkept : kept.filter p = [] := by simpa [hgiven] using h
    have ha : ¬ p a = true := fun ha => hknown ha hkept
    simp [hkept, ha]
  | cons x xs => simpa [hgiven] using h

theorem filter_eq_take_one_of_new {p : α → Bool} {kept given : List α} {a : α}
    (h : kept.filter p = (given.filter p).take 1) (hnew : p a = true → kept.filter p = []) :
    (kept ++ [a]).filter p = ((given ++ [a]).filter p).take 1 := by
  rw [List.filter_append, List.filter_append]
  cases hgiven : given.filter p with
  | nil =>
    have hkept : kept.filter p = [] := by simpa [hgiven] using h
    by_cases ha : p a = true <;> simp [hkept, ha]
  | cons x xs =>
    have hkept : kept.filter p = [x] := by simpa [hgiven] using h
    have ha : ¬ p a = true := fun ha => List.cons_ne_nil x [] (hkept.symm.trans (hnew ha))
    simp [hkept, ha]

/-- The diagnostics are in order, at places of the region, and are what is to be kept of all the
information given so far. -/
structure Reporter.Records {env : CheckEnv} (r : Scene env) (given : List Diagnostic)
    (rep : Reporter) : Prop where
  codes : ∀ d ∈ rep.entries, d.severity = d.code.severity env.strictEquality ∧
    d.code ≠ .tooManyPasses
  places : ∀ d ∈ rep.entries, ∃ q, d.pos = some q ∧ r.pos q
  messages : ∀ d ∈ rep.entries, r.plain → Text.OneLine d.message
  errors : ∀ d ∈ rep.entries, d.severity = .error → d.pass = rep.pass
  bound : ∀ d ∈ rep.entries, d.pass ≤ rep.pass
  sorted : rep.entries.Pairwise (·.pass ≤ ·.pass)
  infos : ∀ code message pos, code.severity env.strictEquality = .info →
    rep.entries.filter (·.states code message pos) =
      (given.filter (·.states code message pos)).take 1

namespace Reporter.Records

variable {env : CheckEnv} {r : Scene env} {given : List Diagnostic} {rep : Reporter}

theorem empty : ({} : Reporter).Records r [] :=
  ⟨by simp, by simp, by simp, by simp, by simp, .nil, by simp⟩

/-- One more diagnostic of the current pass. -/
theorem append (h : rep.Records r given) {d : Diagnostic}
    (hcode : d.severity = d.code.severity env.strictEquality ∧ d.code ≠ .tooManyPasses)
    (hpos : ∃ q, d.pos = some q ∧ r.pos q) (hmessage : r.plain → Text.OneLine d.message)
    (hpass : d.pass = rep.pass) {given' : List Diagnostic}
    (hinfos : ∀ code message pos, code.severity env.strictEquality = .info →
      (rep.entries ++ [d]).filter (·.states code message pos) =
        (given'.filter (·.states code message pos)).take 1) :
    Records r given' { rep with entries := rep.entries ++ [d] } where
  codes := List.forall_mem_append.2 ⟨h.codes, by simpa using hcode⟩
  places := List.forall_mem_append.2 ⟨h.places, by simpa using hpos⟩
  messages := List.forall_mem_append.2 ⟨h.messages, by simpa using hmessage⟩
  errors := List.forall_mem_append.2 ⟨h.errors, by simp [hpass]⟩
  bound := List.forall_mem_append.2 ⟨h.bound, by simp [hpass]⟩
  sorted := List.pairwise_append.2
    ⟨h.sorted, List.pairwise_singleton .., by simpa [hpass] using h.bound⟩
  infos := hinfos

theorem emit (h : rep.Records r given) {severity : Severity} {code : Code}
    {message : String} {q : Position}
    (hcode : severity = code.severity env.strictEquality ∧ code ≠ .tooManyPasses) (hq : r.pos q)
    (hmessage : r.plain → Text.OneLine message) : (rep.emit severity code message (some q)).Records r
      (given ++ ((Write.report severity code message q).information? rep.pass).toList) := by
  unfold Reporter.emit
  cases severity with
  | error =>
    refine h.append hcode ⟨q, rfl, hq⟩ hmessage rfl fun code' message' pos hinfo => ?_
    -- an error is of another code than any information
    have hne : code ≠ code' := by
      rintro rfl
      rw [← hcode.1] at hinfo
      cases hinfo
    rw [List.filter_append, h.infos _ _ _ hinfo]
    simp [Write.information?, Diagnostic.states, hne]
  | info =>
    simp only [Write.information?, Option.toList_some]
    have hkind {code' : Code} {message' : String} {pos : Option Position}
        (h : Diagnostic.states ⟨.info, code, message, some q, rep.pass⟩ code' message' pos = true) :
        (·.states code' message' pos) = (Diagnostic.states · code message (some q)) := by
      obtain ⟨rfl, rfl, rfl⟩ := Diagnostic.states_iff.1 h
      rfl
    split
    · next hany =>
      refine ⟨h.codes, h.places, h.messages, h.errors, h.bound, h.sorted,
        fun code' message' pos hinfo => ?_⟩
      refine filter_eq_take_one_of_known (h.infos code' message' pos hinfo) fun hnew => ?_
      rw [hkind hnew]
      simpa using hany
    · next hany =>
      refine h.append hcode ⟨q, rfl, hq⟩ hmessage rfl fun code' message' pos hinfo => ?_
      refine filter_eq_take_one_of_new (h.infos code' message' pos hinfo) fun hnew => ?_
      rw [hkind hnew]
      simpa using hany

theorem beginPass (h : rep.Records r given) {pass : Nat} (hpass : rep.pass ≤ pass) :
    (rep.beginPass pass).Records r given where
  codes d hd := h.codes d (List.mem_of_mem_filter hd)
  places d hd := h.places d (List.mem_of_mem_filter hd)
  messages d hd := h.messages d (List.mem_of_mem_filter hd)
  errors d hd herror := by simp [Reporter.beginPass, herror] at hd
  bound d hd := Nat.le_trans (h.bound d (List.mem_of_mem_filter hd)) hpass
  sorted := h.sorted.filter _
  infos code message pos hinfo := by
    rw [← h.infos code message pos hinfo, Reporter.beginPass, List.filter_filter]
    -- all that is of the code of an information is information
    refine List.filter_congr fun d hd => ?_
    cases hstates : d.states code message pos with
    | false => rfl
    | true =>
      obtain ⟨rfl, -, -⟩ := Diagnostic.states_iff.1 hstates
      simp [(h.codes d hd).1, hinfo]

end Reporter.Records

/-! Along a run. -/

theorem Write.Orderly.records {env : CheckEnv} {r : Scene env} {s : CheckState} {w : Write}
    {given : List Diagnostic} (h : w.Orderly env r s)
    (hs : s.reporter.Records r given) :
    (w.apply s).reporter.Records r
        (given ++ (w.information? s.reporter.pass).toList) ∧
      (w.apply s).reporter.pass = s.reporter.pass := by
  cases w with
  | report severity code message pos =>
    exact ⟨hs.emit h.1 h.2.1 h.2.2, Reporter.pass_emit ..⟩
  | _ => exact ⟨by simpa [Write.apply, Write.information?] using hs, rfl⟩

/-- All is accounted for: the state is proper, and its diagnostics record what has been given. -/
structure CheckState.Accounts {env : CheckEnv} (r : Scene env) (given : List Diagnostic)
    (s : CheckState) : Prop where
  proper : s.Proper
  records : s.reporter.Records r given
  pass_eq : s.reporter.pass = s.store.pass

namespace Check

variable {env : CheckEnv} {r : Scene env} {visits : List Visit}

theorem Linked.records {s t : CheckState} {ms : List Moment} {given : List Diagnostic}
    (h : Linked s ms t) (hs : s.reporter.Records r given)
    (hms : ∀ m ∈ ms, m.write.Orderly env r m.before) :
    t.reporter.Records r
        (given ++ ms.filterMap (·.write.information? s.reporter.pass)) ∧
      t.reporter.pass = s.reporter.pass := by
  induction ms generalizing s given with
  | nil =>
    obtain rfl : s = t := h
    exact ⟨by simpa using hs, rfl⟩
  | cons m ms ih =>
    obtain ⟨rfl, htail⟩ := h
    rw [List.forall_mem_cons] at hms
    obtain ⟨hrecords, hpass⟩ := hms.1.records hs
    have hrest := ih htail hrecords hms.2
    rw [Moment.after, hpass, List.append_assoc] at hrest
    rw [List.filterMap_cons]
    cases hgiven : m.write.information? m.before.reporter.pass with
    | none => simpa [hgiven] using hrest
    | some d => simpa [hgiven] using hrest

def passInformation (env : CheckEnv) (visits : List Visit) (s : CheckState) : List Diagnostic :=
  (passMoments env visits s).filterMap (·.write.information? (s.store.pass + 1))

theorem accounts_pass (hvisits : ∀ v ∈ visits, v.On r) {s : CheckState} {given : List Diagnostic}
    (hs : s.Accounts r given) :
    (pass env visits s).Accounts r (given ++ passInformation env visits s) := by
  have hlinked := linked_passMoments env visits s
  have hbegin : s.beginPass.reporter.Records r given :=
    hs.records.beginPass (Nat.le_of_lt (by rw [hs.pass_eq]; exact Nat.lt_succ_self _))
  obtain ⟨hrecords, hpass⟩ := hlinked.records hbegin fun m hm =>
    ((orderly_moments hvisits hs.proper.beginPass).1 m hm).2
  exact ⟨proper_pass hvisits hs.proper, hrecords, by rw [hpass, hlinked.pass_eq]; rfl⟩

theorem accounts_passes (hvisits : ∀ v ∈ visits, v.On r) (limit : Nat) {s : CheckState}
    {given : List Diagnostic} (hs : s.Accounts r given) :
    (passes env visits limit s).2.Accounts r
      (given ++ (starts env visits limit s).flatMap (passInformation env visits)) := by
  induction limit generalizing s given with
  | zero => simpa [passes, starts] using hs
  | succ limit ih =>
    have hpass := accounts_pass hvisits hs
    rw [passes, starts]
    split
    · next hagain =>
      rw [List.flatMap_cons, ← List.append_assoc]
      exact ih hpass
    · simpa using hpass

theorem pass_passes (limit : Nat) (s : CheckState) :
    (passes env visits limit s).2.store.pass =
      s.store.pass + (starts env visits limit s).length := by
  induction limit generalizing s with
  | zero => rfl
  | succ limit ih =>
    have hpass : (pass env visits s).store.pass = s.store.pass + 1 :=
      (linked_passMoments env visits s).pass_eq
    rw [passes, starts]
    split
    · rw [ih, hpass, List.length_cons]
      omega
    · exact hpass

theorem length_starts_le (limit : Nat) (s : CheckState) :
    (starts env visits limit s).length ≤ limit := by
  induction limit generalizing s with
  | zero => exact Nat.le_refl 0
  | succ limit ih =>
    rw [starts, List.length_cons]
    split
    · exact Nat.succ_le_succ (ih _)
    · exact Nat.succ_le_succ (Nat.zero_le _)

/-- The passes are numbered one after the other. -/
theorem pass_of_getElem?_starts {limit k : Nat} {s t : CheckState}
    (h : (starts env visits limit s)[k]? = some t) : t.store.pass = s.store.pass + k := by
  induction limit generalizing s k with
  | zero => simp [starts] at h
  | succ limit ih =>
    rw [starts] at h
    cases k with
    | zero =>
      cases h
      rfl
    | succ k =>
      rw [List.getElem?_cons_succ] at h
      split at h
      · have hpass : (pass env visits s).store.pass = s.store.pass + 1 :=
          (linked_passMoments env visits s).pass_eq
        rw [ih h, hpass]
        omega
      · cases h

end Check

/-- What is said last of a run that was not over within the allowed passes. -/
def Config.overrun (config : Config) (pass : Nat) : Diagnostic :=
  ⟨.error, .tooManyPasses, "needed too many passes (limit: " ++ toString config.limit ++ ")", none,
    pass⟩

theorem Config.mem_append_overrun {config : Config} {pass : Nat} {converged : Bool}
    {ds : List Diagnostic} {d : Diagnostic} :
    d ∈ ds ++ (if converged then [] else [config.overrun pass]) ↔
      d ∈ ds ∨ converged = false ∧ d = config.overrun pass := by
  cases converged <;> simp

namespace Program

variable {p : Program} {config : Config}

def Informs (p : Program) (config : Config) (number : Nat) (code : Code) (message : String)
    (q : Position) : Prop :=
  ∃ k s, k + 1 = number ∧ (p.passStarts config)[k]? = some s ∧
    ∃ m ∈ Check.passMoments (p.checkEnv config) p.visits s, m.write = .report .info code message q

def FirstInforms (p : Program) (config : Config) (number : Nat) (code : Code) (message : String)
    (q : Position) : Prop :=
  p.Informs config number code message q ∧
    ∀ earlier < number, ¬ p.Informs config earlier code message q

def information (p : Program) (config : Config) : List Diagnostic :=
  (p.passStarts config).flatMap (Check.passInformation (p.checkEnv config) p.visits)

theorem accounts_initialState (p : Program) {env : CheckEnv} (r : Scene env) :
    (p.initialState p.resolve).Accounts r [] :=
  ⟨p.proper_initialState, .empty, rfl⟩

theorem passes_check (p : Program) (config : Config) :
    (p.check config).passes = (p.passStarts config).length := by
  exact (Check.pass_passes config.limit (p.initialState p.resolve)).trans (Nat.zero_add _)

/-- The diagnostics are those of the last pass, and one more if there were too many passes. -/
theorem exists_records {r : Scene (p.checkEnv config)} (h : ∀ v ∈ p.visits, v.On r) :
    ∃ rep : Reporter, rep.Records r (p.information config) ∧
      rep.pass = (p.check config).passes ∧
      (p.check config).diagnostics = rep.entries ++
        if (p.check config).converged then [] else [config.overrun rep.pass] := by
  have haccounts := Check.accounts_passes h config.limit (p.accounts_initialState r)
  refine ⟨_, haccounts.records, haccounts.pass_eq, ?_⟩
  obtain ⟨⟨converged, t⟩, ht⟩ : ∃ x, Check.passes (p.checkEnv config) p.visits config.limit
      (p.initialState p.resolve) = x := ⟨_, rfl⟩
  have hcheck : Check.passes (p.checkEnv config) p.visits config.limit
      (p.initialState (p.checkEnv config).resolution) = (converged, t) := ht
  simp only [check, hcheck, ht]
  cases converged with
  | true => simp
  | false => rfl

theorem exists_records_check {r : Region} (h : r.Has p.nodes p.returns) (config : Config) :
    ∃ rep : Reporter, rep.Records (r.scene (p.checkEnv config)) (p.information config) ∧
      rep.pass = (p.check config).passes ∧
      (p.check config).diagnostics = rep.entries ++
        if (p.check config).converged then [] else [config.overrun rep.pass] :=
  exists_records (visits_on h _)

theorem pass_of_mem_passStarts {k : Nat} {s : CheckState}
    (h : (p.passStarts config)[k]? = some s) : s.store.pass = k :=
  (Check.pass_of_getElem?_starts h).trans (Nat.zero_add k)

/-- What a pass gives is what it is said to give, with its number. -/
theorem mem_passInformation {k : Nat} {s : CheckState}
    (h : (p.passStarts config)[k]? = some s) {d : Diagnostic} :
    d ∈ Check.passInformation (p.checkEnv config) p.visits s ↔
      ∃ code message q, d = ⟨.info, code, message, some q, k + 1⟩ ∧
        p.Informs config (k + 1) code message q := by
  rw [Check.passInformation, List.mem_filterMap, pass_of_mem_passStarts h]
  constructor
  · rintro ⟨m, hm, hd⟩
    cases hw : m.write with
    | report severity code message q =>
      cases severity with
      | info =>
        rw [hw] at hd
        cases hd
        exact ⟨code, message, q, rfl, k, s, rfl, h, m, hm, hw⟩
      | error => simp [hw, Write.information?] at hd
    | _ => simp [hw, Write.information?] at hd
  · rintro ⟨code, message, q, rfl, k', s', hk, hs', m, hm, hw⟩
    obtain rfl : k' = k := by omega
    obtain rfl : s = s' := Option.some.inj (h.symm.trans hs')
    exact ⟨m, hm, by rw [hw]; rfl⟩

theorem take_one_information {number : Nat} {code : Code} {message : String} {q : Position}
    (h : p.FirstInforms config number code message q) :
    ((p.information config).filter (·.states code message (some q))).take 1 =
      [⟨.info, code, message, some q, number⟩] := by
  obtain ⟨hinforms, hfirst⟩ := h
  obtain ⟨k, s, rfl, hk, -⟩ := id hinforms
  obtain ⟨hlt, hget⟩ := List.getElem?_eq_some_iff.1 hk
  have hsplit : p.passStarts config =
      (p.passStarts config).take k ++ s :: (p.passStarts config).drop (k + 1) := by
    rw [← hget, ← List.drop_eq_getElem_cons hlt, List.take_append_drop]
  -- no pass before the first one gives it
  have hbefore : (((p.passStarts config).take k).flatMap
      (Check.passInformation (p.checkEnv config) p.visits)).filter
        (·.states code message (some q)) = [] := by
    refine List.filter_eq_nil_iff.2 fun d hd hstates => ?_
    obtain ⟨t, ht, hd⟩ := List.mem_flatMap.1 hd
    obtain ⟨j, hj⟩ := List.mem_iff_getElem?.1 ht
    obtain ⟨hjk, hj⟩ : j < k ∧ (p.passStarts config)[j]? = some t := by
      simpa [List.getElem?_take] using hj
    obtain ⟨code', message', q', rfl, hearlier⟩ := (mem_passInformation hj).1 hd
    obtain ⟨rfl, hq, rfl⟩ := Diagnostic.states_iff.1 hstates
    cases hq
    exact hfirst (j + 1) (by omega) hearlier
  -- the first one gives it, with its number
  have hmem : ∀ d, d ∈ (Check.passInformation (p.checkEnv config) p.visits s).filter
      (·.states code message (some q)) ↔ d = ⟨.info, code, message, some q, k + 1⟩ := by
    intro d
    rw [List.mem_filter, mem_passInformation hk, Diagnostic.states_iff]
    constructor
    · rintro ⟨⟨code', message', q', rfl, -⟩, rfl, hq, rfl⟩
      cases hq
      rfl
    · rintro rfl
      exact ⟨⟨code, message, q, rfl, hinforms⟩, rfl, rfl, rfl⟩
  obtain ⟨d, ds, hds⟩ : ∃ d ds, (Check.passInformation (p.checkEnv config) p.visits s).filter
      (·.states code message (some q)) = d :: ds :=
    List.exists_cons_of_ne_nil (List.ne_nil_of_mem ((hmem _).2 rfl))
  rw [information, hsplit, List.flatMap_append, List.flatMap_cons, List.filter_append,
    List.filter_append, hbefore, hds]
  simpa using (hmem d).1 (by simp [hds])

/-- What is given as information is of a code for that. -/
theorem Informs.severity_eq {number : Nat} {code : Code} {message : String} {q : Position}
    (h : p.Informs config number code message q) :
    code.severity config.strictEquality = .info := by
  obtain ⟨k, s, -, hk, m, hm, hw⟩ := h
  have hproper := proper_of_mem_passStarts (List.mem_of_getElem? hk)
  have horderly := ((Check.orderly_moments (visits_on p.has_everything _) hproper.beginPass).1 m hm).2
  rw [hw] at horderly
  exact horderly.1.1.symm

theorem exists_firstInforms {number : Nat} {code : Code} {message : String} {q : Position}
    (h : p.Informs config number code message q) :
    ∃ first ≤ number, p.FirstInforms config first code message q := by
  induction number using Nat.strong_induction_on with
  | _ number ih =>
    by_cases hfirst : ∃ earlier < number, p.Informs config earlier code message q
    · obtain ⟨earlier, hlt, hearlier⟩ := hfirst
      obtain ⟨first, hle, hfirst⟩ := ih earlier hlt hearlier
      exact ⟨first, Nat.le_trans hle (Nat.le_of_lt hlt), hfirst⟩
    · exact ⟨number, Nat.le_refl _, h, fun earlier hlt hearlier => hfirst ⟨earlier, hlt, hearlier⟩⟩

/-- What information is kept has been given, first in the pass that it names. -/
theorem firstInforms_of_records {r : Scene (p.checkEnv config)} {rep : Reporter}
    (h : rep.Records r (p.information config)) {d : Diagnostic}
    (hd : d ∈ rep.entries) (hinfo : d.severity = .info) :
    ∃ q, d.pos = some q ∧ p.FirstInforms config d.pass d.code d.message q := by
  obtain ⟨q, hq, -⟩ := h.places d hd
  have hfilter := h.infos d.code d.message d.pos ((h.codes d hd).1.symm.trans hinfo)
  have hmem : d ∈ ((p.information config).filter (·.states d.code d.message d.pos)).take 1 := by
    rw [← hfilter]
    exact List.mem_filter.2 ⟨hd, Diagnostic.states_iff.2 ⟨rfl, rfl, rfl⟩⟩
  obtain ⟨s, hs, hgiven⟩ := List.mem_flatMap.1
    (List.mem_of_mem_filter (List.mem_of_mem_take hmem))
  obtain ⟨k, hk⟩ := List.mem_iff_getElem?.1 hs
  obtain ⟨code, message, q', rfl, hinforms⟩ := (mem_passInformation hk).1 hgiven
  obtain ⟨first, -, hfirst⟩ := exists_firstInforms hinforms
  rw [take_one_information hfirst] at hmem
  cases List.mem_singleton.1 hmem
  exact ⟨q', rfl, hfirst⟩

/-- Errors are those of the last pass, each information is there once with its first pass, and an
overrun is said last, once and without a place. -/
theorem diagnostics_consistent (p : Program) (config : Config) :
    1 ≤ (p.check config).passes ∧ (p.check config).passes ≤ max 1 config.passLimit ∧
    (p.passStarts config).length = (p.check config).passes ∧
    ((∃ d ∈ (p.check config).diagnostics, d.code = .tooManyPasses) ↔
      (p.check config).converged = false) ∧
    ((p.check config).converged = false →
      ∃ ds d, (p.check config).diagnostics = ds ++ [d] ∧ d.code = .tooManyPasses ∧ d.pos = none ∧
        ∀ e ∈ ds, e.code ≠ .tooManyPasses) ∧
    (∀ d ∈ (p.check config).diagnostics, d.severity = .error → d.pass = (p.check config).passes) ∧
    (∀ number code message q, p.Informs config number code message q →
      ∃ first ≤ number, p.FirstInforms config first code message q ∧
        (p.check config).diagnostics.filter (·.states code message (some q)) =
          [⟨.info, code, message, some q, first⟩]) ∧
    (∀ d ∈ (p.check config).diagnostics, d.severity = .info →
      ∃ q, d.pos = some q ∧ p.FirstInforms config d.pass d.code d.message q) ∧
    (p.check config).diagnostics.Pairwise (·.pass ≤ ·.pass) := by
  obtain ⟨rep, hrecords, hpass, hdiagnostics⟩ := exists_records_check p.has_everything config
  have hpasses := p.passes_check config
  have hlimit : (p.passStarts config).length ≤ max 1 config.passLimit :=
    Check.length_starts_le _ _
  have hpositive : 0 < (p.passStarts config).length :=
    List.length_pos_of_mem (p.initialState_mem_passStarts config)
  refine ⟨by omega, by omega, hpasses.symm, ⟨?_, ?_⟩, ?_, ?_, ?_, ?_, ?_⟩
  · rintro ⟨d, hd, hcode⟩
    rw [hdiagnostics] at hd
    rcases Config.mem_append_overrun.1 hd with hd | ⟨hconverged, -⟩
    · exact absurd hcode (hrecords.codes d hd).2
    · exact hconverged
  · intro hconverged
    exact ⟨config.overrun rep.pass, by simp [hdiagnostics, hconverged], rfl⟩
  · intro hconverged
    exact ⟨rep.entries, config.overrun rep.pass, by simp [hdiagnostics, hconverged], rfl, rfl,
      fun e he => (hrecords.codes e he).2⟩
  · intro d hd herror
    rw [hdiagnostics] at hd
    rcases Config.mem_append_overrun.1 hd with hd | ⟨-, rfl⟩
    · exact (hrecords.errors d hd herror).trans hpass
    · exact hpass
  · intro number code message q hinforms
    obtain ⟨first, hle, hfirst⟩ := exists_firstInforms hinforms
    refine ⟨first, hle, hfirst, ?_⟩
    rw [hdiagnostics, List.filter_append, hrecords.infos _ _ _ hinforms.severity_eq,
      take_one_information hfirst]
    split
    · rfl
    · simp [Diagnostic.states, Config.overrun]
  · intro d hd hinfo
    rw [hdiagnostics] at hd
    rcases Config.mem_append_overrun.1 hd with hd | ⟨-, rfl⟩
    · exact firstInforms_of_records hrecords hd hinfo
    · cases hinfo
  · rw [hdiagnostics]
    refine List.pairwise_append.2 ⟨hrecords.sorted, ?_, fun d hd e he => ?_⟩
    · split
      · exact .nil
      · exact List.pairwise_singleton ..
    · split at he
      · cases he
      · cases List.mem_singleton.1 he
        exact hrecords.bound d hd

/-- The second pass repeats the error of the first one, and adds what it then knows of the
function. -/
theorem diagnostics_consistent_of_closure : ∃ p,
    Program.ofSource "var g = (x) => a; g(1); var a = string`u`; a = 2;" = .ok p ∧
    (p.check ⟨1, .info, true, .json⟩).converged = false ∧
    (∃ ds d, (p.check ⟨1, .info, true, .json⟩).diagnostics = ds ++ [d] ∧
      d.code = .tooManyPasses ∧ d.pos = none ∧ ∀ e ∈ ds, e.code ≠ .tooManyPasses) ∧
    (p.check ⟨2, .info, true, .json⟩).passes = 2 ∧
    (p.check ⟨2, .info, true, .json⟩).diagnostics.countP (·.isError) = 1 ∧
    (∀ d ∈ (p.check ⟨2, .info, true, .json⟩).diagnostics, d.severity = .error → d.pass = 2) ∧
    (p.check ⟨2, .info, true, .json⟩).diagnostics.map (·.pass) = [1, 1, 1, 1, 2, 2] := by
  obtain ⟨p, hp, htest⟩ := Program.exists_of_any
    "var g = (x) => a; g(1); var a = string`u`; a = 2;"
    (fun p => !(p.check ⟨1, .info, true, .json⟩).converged &&
      ((p.check ⟨2, .info, true, .json⟩).passes == 2 &&
      ((p.check ⟨2, .info, true, .json⟩).diagnostics.countP (·.isError) == 1 &&
      (p.check ⟨2, .info, true, .json⟩).diagnostics.map (·.pass) == [1, 1, 1, 1, 2, 2])))
    (by decide +kernel)
  simp only [Bool.and_eq_true, beq_iff_eq, Bool.not_eq_true'] at htest
  obtain ⟨hover, hpasses, herrors, hnumbers⟩ := htest
  obtain ⟨-, -, -, -, hlast, -⟩ := p.diagnostics_consistent ⟨1, .info, true, .json⟩
  obtain ⟨-, -, -, -, -, hpass, -⟩ := p.diagnostics_consistent ⟨2, .info, true, .json⟩
  exact ⟨p, hp, hover, hlast hover, hpasses, herrors,
    fun d hd herror => (hpass d hd herror).trans hpasses, hnumbers⟩

/-! Where the diagnostics stand. -/

/-- Every diagnostic but that of too many passes stands at the first character of a token that is
not the end. -/
theorem diagnostics_at_tokens {source : String} (h : Program.ofSource source = .ok p)
    (config : Config) : ∃ tokens, tokenize source = .ok tokens ∧
      ∀ d ∈ (p.check config).diagnostics, d.code ≠ .tooManyPasses →
        ∃ t ∈ tokens, t.kind ≠ .eof ∧ d.pos = some t.pos ∧
          ∃ before text after, source.toList = before ++ text ++ after ∧ text ≠ [] ∧
            t.kind.IsWritten text ∧ t.pos = .behind before := by
  obtain ⟨tokens, htokens, hp⟩ := exists_of_ofSource h
  obtain ⟨rep, hrecords, -, hdiagnostics⟩ := exists_records_check
    (Program.has_sites_of_ofTokens hp) config
  refine ⟨tokens, htokens, fun d hd hcode => ?_⟩
  have hd : d ∈ rep.entries := by
    rw [hdiagnostics] at hd
    rcases Config.mem_append_overrun.1 hd with hd | ⟨-, rfl⟩
    · exact hd
    · exact absurd rfl hcode
  obtain ⟨q, hq, hsite⟩ := hrecords.places d hd
  obtain ⟨t, ht, hkind, rfl⟩ : ∃ t ∈ tokens, t.kind ≠ .eof ∧ t.pos = q := by
    rcases hsite with hsite | ⟨n, hsite, rfl⟩
    · exact hsite
    · exact hsite
  exact ⟨t, ht, hkind, hq, exists_text_of_mem_tokens htokens ht hkind⟩

/-- Behind a comment of two lines, one error stands at an operand and one at a `return`. -/
theorem diagnostics_at_tokens_of_lines : ∃ p,
    Program.ofSource
      "/* é\n */ var x = 1n + 2; function f(y) \x7b\n  return x; return; \x7d" = .ok p ∧
    (p.check ⟨1, .error, true, .json⟩).diagnostics.map (fun d => (d.severity, d.pos)) =
      [(.error, some ⟨2, 13⟩), (.info, some ⟨2, 9⟩), (.info, some ⟨2, 30⟩), (.error, some ⟨3, 13⟩),
        (.info, some ⟨2, 21⟩)] ∧
    ∃ tokens,
      tokenize
        "/* é\n */ var x = 1n + 2; function f(y) \x7b\n  return x; return; \x7d" = .ok tokens ∧
      ∀ d ∈ (p.check ⟨1, .error, true, .json⟩).diagnostics, d.code ≠ .tooManyPasses →
        ∃ t ∈ tokens, t.kind ≠ .eof ∧ d.pos = some t.pos ∧ ∃ before text after,
          "/* é\n */ var x = 1n + 2; function f(y) \x7b\n  return x; return; \x7d".toList =
            before ++ text ++ after ∧ text ≠ [] ∧ t.kind.IsWritten text ∧
            t.pos = .behind before := by
  obtain ⟨p, hp, htest⟩ := Program.exists_of_any
    "/* é\n */ var x = 1n + 2; function f(y) \x7b\n  return x; return; \x7d"
    (fun p => (p.check ⟨1, .error, true, .json⟩).diagnostics.map (fun d => (d.severity, d.pos)) ==
      [(.error, some ⟨2, 13⟩), (.info, some ⟨2, 9⟩), (.info, some ⟨2, 30⟩), (.error, some ⟨3, 13⟩),
        (.info, some ⟨2, 21⟩)]) (by decide +kernel)
  exact ⟨p, hp, beq_iff_eq.1 htest, diagnostics_at_tokens hp _⟩

end Program

end TagCheck
