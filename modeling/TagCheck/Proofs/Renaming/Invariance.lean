import TagCheck.Proofs.Check.Moments
import TagCheck.Proofs.Renaming.Rules
import TagCheck.Proofs.Token.Tiling

/-! A program and the same program under other names. Both are visited alike, and each visit does
the same but for the names in its reports, so both runs take the same passes, find the same types
and shapes, and report the same in the same order. -/
namespace TagCheck

/-- Of two visits that leave a function at one position, where there is one at most, each is the
other. -/
theorem Visit.eq_of_mem_zip {vs vs' : List Visit} {pos : Position}
    (hlength : vs.length = vs'.length) (h : vs.countP (leavesAt pos) ≤ 1) {a b : Visit × Visit}
    (ha : a ∈ vs.zip vs') (hb : b ∈ vs.zip vs') (ha' : a.1.leavesAt pos = true)
    (hb' : b.1.leavesAt pos = true) : a = b := by
  have hcount : ((vs.zip vs').filter fun x => x.1.leavesAt pos).length ≤ 1 := by
    rw [← List.map_fst_zip hlength.le, List.countP_map, List.countP_eq_length_filter] at h
    exact h
  have hmem {x : Visit × Visit} (hx : x ∈ vs.zip vs') (hx' : x.1.leavesAt pos = true) :
      x ∈ (vs.zip vs').filter fun x => x.1.leavesAt pos := List.mem_filter.2 ⟨hx, hx'⟩
  have ha := hmem ha ha'
  have hb := hmem hb hb'
  rcases hl : (vs.zip vs').filter fun x => x.1.leavesAt pos with _ | ⟨c, _ | ⟨d, l⟩⟩
  · simp [hl] at ha
  · rw [hl, List.mem_singleton] at ha hb
    rw [ha, hb]
  · simp [hl] at hcount

theorem Check.simpleName?_of_implied? {p : Pattern} {i : Ident} {inner : Option NodeId}
    (h : Check.Parameter.implied? p = some (i, inner)) :
    .pattern (.ident i) ∈ p.nodes ∧ p.simpleName? = some i := by
  unfold Check.Parameter.implied? at h
  split at h
  · cases h
    simp [Pattern.nodes, Pattern.simpleName?]
  · cases h
    simp [Pattern.nodes, Pattern.simpleName?, Pattern.asIdent?]
  · cases h

def Diagnostic.outline (d : Diagnostic) : Severity × Code × Option Position × Nat :=
  (d.severity, d.code, d.pos, d.pass)

theorem Reporter.map_outline {M : Code → Position → Wording → Wording → Prop} (hM : Faithful M)
    {ds ds' : List Diagnostic} (h : List.Forall₂ (Reworded M) ds ds') :
    ds'.map Diagnostic.outline = ds.map Diagnostic.outline := by
  induction h with
  | nil => rfl
  | cons hd _ ih =>
    obtain @⟨severity, severity', code, message, message', pos, pass, hwords⟩ := hd
    obtain rfl : severity = severity' := hM.severity hwords
    simp only [List.map_cons, Diagnostic.outline, ih]

namespace Program

variable {p : Program} {ρ : String → String}

/-- The names before and after: those of bindings, and those that functions are reported under. -/
def naming (p : Program) (ρ : String → String) : Naming where
  binding x y := x ∈ p.declaredNames ∧ y = ρ x
  function pos name name' := ∃ result result',
    (Visit.leaveFunction pos name result, Visit.leaveFunction pos name' result') ∈
      p.visits.zip (p.renamed ρ).visits

/-- An identifier has kept its name or has got a free one, in place of a declared name that is
neither a tag nor that of a global. -/
theorem WellFormed.newIdent_cases (hp : p.WellFormed) (hρ : p.Renames ρ)
    (hglobal : ∀ x ∈ p.declaredNames, isGlobalName x = true → ρ x = x) {i : Ident}
    (hi : i ∈ p.identifiers) : (p.newIdent ρ i).name = i.name ∨
      IsPlainName i.name ∧ p.IsFree (p.newIdent ρ i).name := by
  by_cases hsome : (p.resolve.bindingOf? i.node.id).isSome = true
  · have hname := hp.mem_declaredNames hi hsome
    rw [newIdent_of_isSome ρ hsome]
    by_cases hkept : ρ i.name = i.name
    · exact .inl hkept
    · refine .inr ⟨⟨?_, ?_⟩, (hρ.free i.name hname).resolve_left hkept⟩
      · cases htag : Tag.ofName? i.name with
        | none => rfl
        | some t => exact absurd (hρ.tag i.name hname (by rw [htag]; rfl)) hkept
      · cases hg : isGlobalName i.name with
        | false => rfl
        | true => exact absurd (hglobal i.name hname hg) hkept
  · rw [newIdent_of_not_isSome ρ hsome]
    exact .inl rfl

/-- What the text of a program is good for: functions begin at places of their own, and the names of
simple parameters are spelled as identifiers. -/
structure Spelled (p : Program) : Prop where
  positions : (p.funcs.map (·.node.pos)).Nodup
  parameters : ∀ g ∈ p.funcs, ∀ param ∈ g.params, ∀ i, param.simpleName? = some i →
    i.name.toList.all Text.isIdentPart = true

theorem spelled_of_ofSource {source : String} (h : Program.ofSource source = .ok p) :
    p.Spelled := by
  obtain ⟨tokens, htokens, hp⟩ := Parse.exists_of_bind_eq_ok h
  obtain ⟨hpositions, hparameters⟩ := Program.marks_le_of_ofTokens hp
  constructor
  · have hnodup : (Multiset.ofList (tokens.map Token.pos)).Nodup :=
      Multiset.coe_nodup.2 (nodup_positions_of_tokenize htokens)
    exact Multiset.coe_nodup.1 (Multiset.nodup_of_le hpositions hnodup)
  · intro g hg param hparam i hi
    obtain ⟨t, ht, hkind⟩ := hparameters g hg param hparam i hi
    exact all_isIdentPart_of_mem_tokens htokens ht hkind

theorem notMem_blank {name : String} (h : name.toList.all Text.isIdentPart = true) :
    ' ' ∉ name.toList := by
  intro hblank
  have hpart := List.all_eq_true.1 h ' ' hblank
  exact absurd hpart (by decide +kernel)

/-- No two functions end at one position. -/
theorem Spelled.countP_leavesAt_le (hs : p.Spelled) {P : Ident → Prop} {f : Ident → Ident}
    {vs' : List Visit} (h : Mirrors P f p.nodes p.visits vs') (pos : Position) :
    p.visits.countP (Visit.leavesAt pos) ≤ 1 := by
  have hfuncs : p.nodes.countP (SyntaxNode.isFuncAt pos) =
      (p.funcs.map (·.node.pos)).count pos := by
    rw [List.count, List.countP_map, Program.funcs, List.countP_filterMap]
    congr 1
    funext x
    cases hx : x.func? <;> simp [SyntaxNode.isFuncAt, hx]
  exact (h.leaves pos).trans (hfuncs ▸ List.nodup_iff_count_le_one.1 hs.positions pos)

theorem named_nodes (p : Program) : Named (· ∈ p.identifiers) p.nodes :=
  fun x hx _ hi => List.mem_filterMap.2 ⟨x, hx, hi⟩

theorem mem_identifiers_of_implied? {k : FuncId} {g : Func} (hg : p.resolve.function? k = some g)
    {param : Pattern} (hparam : param ∈ g.params) {i : Ident} {inner : Option NodeId}
    (himplied : Check.Parameter.implied? param = some (i, inner)) : i ∈ p.identifiers :=
  p.named_nodes _ (param_nodes_of_function? hg hparam (Check.simpleName?_of_implied? himplied).1) i
    rfl

section

variable (hp : p.WellFormed) (hs : p.Spelled) (hρ : p.Renames ρ)
  (hglobal : ∀ x ∈ p.declaredNames, isGlobalName x = true → ρ x = x)

include hp hρ hglobal

theorem mirrors_renamed :
    Mirrors (· ∈ p.identifiers) (p.newIdent ρ) p.nodes p.visits (p.renamed ρ).visits := by
  refine Stmt.mirrorsList ⟨p.newIdent ρ, p.node_newIdent ρ, fun i hi => ?_⟩ p.body
  rcases hp.newIdent_cases hρ hglobal hi with hsame | ⟨hplain, hfree⟩
  · exact .inl hsame
  · exact .inr ⟨hplain.1, hfree.notTag⟩

include hs in
theorem unambiguous_naming : (p.naming ρ).Unambiguous where
  binding := by
    rintro x x' y y' ⟨hx, rfl⟩ ⟨hy, rfl⟩
    exact ⟨congrArg ρ, hρ.injective x hx y hy⟩
  function := by
    rintro pos x x' y y' ⟨a, a', ha⟩ ⟨b, b', hb⟩
    have hmirrors := mirrors_renamed hp hρ hglobal
    have hsame := Visit.eq_of_mem_zip (hmirrors.follows p.named_nodes).length_eq
      (hs.countP_leavesAt_le hmirrors pos) ha hb (by simp [Visit.leavesAt])
      (by simp [Visit.leavesAt])
    cases hsame
    exact ⟨rfl, rfl⟩

include hs in
/-- The name of a parameter that arguments give types to is an identifier, and neither it nor its
new name has a blank in it. -/
theorem parameter_of_function? {k : FuncId} {g : Func} (hg : p.resolve.function? k = some g)
    {param : Pattern} (hparam : param ∈ g.params) {i : Ident} {inner : Option NodeId}
    (himplied : Check.Parameter.implied? param = some (i, inner)) :
    i ∈ p.identifiers ∧ ' ' ∉ i.name.toList ∧ ' ' ∉ (p.newIdent ρ i).name.toList := by
  have hsimple := (Check.simpleName?_of_implied? himplied).2
  have hi : i ∈ p.identifiers := mem_identifiers_of_implied? hg hparam himplied
  have hblank : ' ' ∉ i.name.toList :=
    notMem_blank (hs.parameters g (mem_funcs_of_function? hg) param hparam i hsimple)
  refine ⟨hi, hblank, ?_⟩
  rcases hp.newIdent_cases hρ hglobal hi with hsame | ⟨-, hfree⟩
  · rwa [hsame]
  · exact notMem_blank hfree.isName

include hs in
theorem counterpart_renamed (config : Config) :
    (p.checkEnv config).Counterpart (· ∈ p.identifiers) (p.newIdent ρ) (p.naming ρ)
      ((p.renamed ρ).checkEnv config) where
  node := p.node_newIdent ρ
  strictEquality := rfl
  reference? n := by
    show (p.renamed ρ).resolve.reference? n = p.resolve.reference? n
    rw [hp.resolve_renamed hρ]
    rfl
  function? k := by
    show (p.renamed ρ).resolve.function? k = (p.resolve.function? k).map _
    rw [hp.resolve_renamed hρ]
    cases hk : p.resolve.functions[k]? <;> simp [Resolution.function?, Resolution.rename, hk]
  plain i hi := by
    rcases hp.newIdent_cases hρ hglobal hi with hsame | ⟨hplain, hfree⟩
    · exact .inl hsame
    · exact .inr ⟨hplain, hfree.notTag, hfree.notGlobal⟩
  named i b hi hb := by
    have hsome : (p.resolve.bindingOf? i.node.id).isSome = true :=
      Option.isSome_iff_exists.2 ⟨b, hb⟩
    rw [newIdent_of_isSome ρ hsome]
    exact ⟨hp.mem_declaredNames hi hsome, rfl⟩
  parameter k g hg param hparam i inner himplied :=
    parameter_of_function? hp hs hρ hglobal hg hparam himplied

include hs in
theorem alike_visits (config : Config) :
    List.Forall₂ (fun v v' => Check.Alike (p.naming ρ).Rewords (v.apply (p.checkEnv config))
      (v'.apply ((p.renamed ρ).checkEnv config))) p.visits (p.renamed ρ).visits := by
  have hfollows := (mirrors_renamed hp hρ hglobal).follows p.named_nodes
  obtain ⟨hlength, hzip⟩ := List.forall₂_iff_zip.1 hfollows
  refine List.forall₂_iff_zip.2 ⟨hlength, fun hmem => ?_⟩
  refine (hzip hmem).alike (counterpart_renamed hp hs hρ hglobal config) ?_
  rintro pos name name' result result' rfl rfl
  exact ⟨result, result', hmem⟩

end

/-- Checking does not depend on the names of what is declared, unless it takes the name of a global:
passes, types, shapes and the places of reports stay the same. -/
theorem check_renamed {source : String} (h : Program.ofSource source = .ok p) (hρ : p.Renames ρ)
    (hglobal : ∀ x ∈ p.declaredNames, isGlobalName x = true → ρ x = x) (config : Config) :
    ((p.renamed ρ).check config).passes = (p.check config).passes ∧
    ((p.renamed ρ).check config).converged = (p.check config).converged ∧
    ((p.renamed ρ).check config).store = (p.check config).store ∧
    ((p.renamed ρ).check config).bindings = (p.check config).bindings.map (Binding.rename ρ) ∧
    ((p.renamed ρ).check config).diagnostics.map Diagnostic.outline =
      (p.check config).diagnostics.map Diagnostic.outline := by
  have hs := spelled_of_ofSource h
  obtain ⟨tokens, -, htokens⟩ := Parse.exists_of_bind_eq_ok h
  have hp := wellFormed_of_ofTokens htokens
  have hresolve := hp.resolve_renamed hρ
  have hstart : CheckState.Agree (Reporter.AgreeUpTo (p.naming ρ).Rewords)
      (p.initialState p.resolve) ((p.renamed ρ).initialState (p.renamed ρ).resolve) := by
    refine ⟨?_, rfl, .nil, rfl⟩
    rw [hresolve]
    simp [initialState, Resolution.rename, renamed, rename]
  have hM := (unambiguous_naming hp hs hρ hglobal).faithful
  obtain ⟨hflag, hend⟩ := hstart.passes (Reporter.keeps_agreeUpTo hM)
    (alike_visits hp hs hρ hglobal config) config.limit
  have houtline := Reporter.map_outline hM hend.reporter.1
  refine ⟨congrArg Store.pass hend.store.symm, hflag.symm, hend.store.symm, ?_, ?_⟩
  · show (p.renamed ρ).resolve.bindings.toList = p.resolve.bindings.toList.map _
    rw [hresolve]
    simp [Resolution.rename]
  · have hresolution (q : Program) : (q.checkEnv config).resolution = q.resolve := rfl
    simp only [check, hresolution, ← hflag]
    split
    · exact houtline
    · simp [Reporter.emit, houtline, hend.reporter.2, Diagnostic.outline]

/-- Two passes over a function and a call of it, also if every name gets a mark at its end. -/
theorem check_renamed_of_marks : ∃ p, Program.ofSource
      "function twice(x) { return x + x; } var a = twice(3); var b = Number(a); b === undefined;" =
        .ok p ∧
    p.Renames (· ++ "1") ∧
    ((p.renamed (· ++ "1")).check {}).bindings ≠ (p.check {}).bindings ∧
    ((p.renamed (· ++ "1")).check {}).diagnostics ≠ (p.check {}).diagnostics ∧
    ((p.renamed (· ++ "1")).check {}).store = (p.check {}).store ∧
    ((p.renamed (· ++ "1")).check {}).diagnostics.map Diagnostic.outline =
      (p.check {}).diagnostics.map Diagnostic.outline := by
  obtain ⟨p, hp, htest⟩ := Program.exists_of_any
      "function twice(x) { return x + x; } var a = twice(3); var b = Number(a); b === undefined;"
    (fun p => decide (p.Renames (· ++ "1")) && p.declaredNames.all (!isGlobalName ·) &&
      ((p.renamed (· ++ "1")).check {}).bindings != (p.check {}).bindings &&
      ((p.renamed (· ++ "1")).check {}).diagnostics != (p.check {}).diagnostics) (by decide +kernel)
  simp only [Bool.and_eq_true, decide_eq_true_eq, bne_iff_ne, List.all_eq_true, Bool.not_eq_true']
    at htest
  obtain ⟨⟨⟨hρ, hglobal⟩, hbindings⟩, hdiagnostics⟩ := htest
  have hkept : ∀ x ∈ p.declaredNames, isGlobalName x = true → x ++ "1" = x := by
    intro x hx hname
    simp [hglobal x hx] at hname
  obtain ⟨-, -, hstore, -, houtline⟩ := check_renamed hp hρ hkept {}
  exact ⟨p, hp, hρ, hbindings, hdiagnostics, hstore, houtline⟩

/-- A call of a function that has the name of a built-in constructor is taken for one of that
constructor: the result has another type than under a name of its own, and arguments are missing. -/
theorem call_of_declared_constructor : ∃ p,
    Program.ofSource "function Date() { return 1; } var y = Date();" = .ok p ∧
    p.Renames (· ++ "1") ∧
    (p.check {}).bindingType? "y" = some (.inferred .string) ∧
    ((p.renamed (· ++ "1")).check {}).bindingType? "y1" = some (.inferred .int) ∧
    (p.check {}).errorCount = 1 ∧ ((p.renamed (· ++ "1")).check {}).errorCount = 0 := by
  obtain ⟨p, hp, htest⟩ := Program.exists_of_any "function Date() { return 1; } var y = Date();"
    (fun p => decide (p.Renames (· ++ "1") ∧
      (p.check {}).bindingType? "y" = some (.inferred .string) ∧
      ((p.renamed (· ++ "1")).check {}).bindingType? "y1" = some (.inferred .int) ∧
      (p.check {}).errorCount = 1 ∧ ((p.renamed (· ++ "1")).check {}).errorCount = 0))
    (by decide +kernel)
  exact ⟨p, hp, of_decide_eq_true htest⟩

end Program
end TagCheck
