import TagCheck.Proofs.Check.Derivation

/-! The types that a check without errors leaves at constant expressions are those of their
values. -/
namespace TagCheck

/-- The expression is a part that stands in the same scopes as the whole, of which the nodes and the
scopes inside are given. -/
structure Expr.StandsIn (x : Expr) (ns : List SyntaxNode) (ts : List ScopeTree) : Prop where
  nodes : x.nodes ⊆ ns
  scopeTrees : x.scopeTrees ⊆ ts

theorem Expr.StandsIn.self (x : Expr) : x.StandsIn x.nodes x.scopeTrees :=
  ⟨List.Subset.refl _, List.Subset.refl _⟩

theorem Expr.StandsIn.mono {x : Expr} {ns ns' : List SyntaxNode} {ts ts' : List ScopeTree}
    (h : x.StandsIn ns ts) (hns : ns ⊆ ns') (hts : ts ⊆ ts') : x.StandsIn ns' ts' :=
  ⟨List.Subset.trans h.nodes hns, List.Subset.trans h.scopeTrees hts⟩

mutual

theorem Expr.standsIn_of_mem_sources : (e : Expr) → ∀ x ∈ e.sources,
    x.StandsIn e.nodes e.scopeTrees
  | .unary n op a, x, hx => by
    rw [Expr.sources] at hx
    rcases List.mem_cons.1 hx with rfl | hx
    · exact .self _
    · exact (a.standsIn_of_mem_sources x hx).mono (by simp [Expr.nodes]) (by simp [Expr.scopeTrees])
  | .binary n op l r, x, hx | .logical n op l r, x, hx => by
    rw [Expr.sources, List.mem_cons, List.mem_append] at hx
    rcases hx with rfl | hx | hx
    · exact .self _
    · exact (l.standsIn_of_mem_sources x hx).mono (by simp [Expr.nodes]) (by simp [Expr.scopeTrees])
    · exact (r.standsIn_of_mem_sources x hx).mono (by simp [Expr.nodes]) (by simp [Expr.scopeTrees])
  | .conditional n t c a, x, hx => by
    rw [Expr.sources, List.mem_cons, List.mem_append] at hx
    rcases hx with rfl | hx | hx
    · exact .self _
    · exact (c.standsIn_of_mem_sources x hx).mono (fun y hy => by simp [Expr.nodes, hy])
        (by simp [Expr.scopeTrees])
    · exact (a.standsIn_of_mem_sources x hx).mono (fun y hy => by simp [Expr.nodes, hy])
        (by simp [Expr.scopeTrees])
  | .sequence n parts, x, hx => by
    rw [Expr.sources] at hx
    rcases List.mem_cons.1 hx with rfl | hx
    · exact .self _
    · exact (Expr.standsIn_of_mem_lastSources parts x hx).mono (by simp [Expr.nodes])
        (by simp [Expr.scopeTrees])
  | .number .., x, hx | .bigint .., x, hx | .str .., x, hx | .bool .., x, hx | .null _, x, hx
  | .regex .., x, hx | .this _, x, hx | .ident _, x, hx | .template .., x, hx | .tagged .., x, hx
  | .array .., x, hx | .object .., x, hx | .function _, x, hx | .update .., x, hx
  | .assign .., x, hx | .assignMember .., x, hx | .call .., x, hx | .new .., x, hx
  | .member .., x, hx => List.mem_singleton.1 hx ▸ .self x

theorem Expr.standsIn_of_mem_lastSources : (parts : List Expr) → ∀ x ∈ Expr.lastSources parts,
    x.StandsIn (Expr.nodesList parts) (Expr.scopeTreesList parts)
  | [], _, hx => by simp [Expr.lastSources] at hx
  | [e], x, hx => by
    rw [Expr.lastSources] at hx
    exact (e.standsIn_of_mem_sources x hx).mono (by simp [Expr.nodesList])
      (by simp [Expr.scopeTreesList])
  | e :: e' :: es, x, hx => by
    rw [Expr.lastSources] at hx
    exact (Expr.standsIn_of_mem_lastSources (e' :: es) x hx).mono (by simp [Expr.nodesList])
      (by simp [Expr.scopeTreesList])

end

theorem ScopeTree.mem_sitesList_of_use {i : Ident} {ts : List ScopeTree} (h : .use i ∈ ts)
    (scopes : List (List Declaration)) : ⟨i, scopes⟩ ∈ sitesList scopes ts := by
  obtain ⟨before, after, rfl⟩ := List.append_of_mem h
  simp [sitesList_append, sitesList, sites]

namespace Program

variable {p : Program} {config : Config} {e : Expr}

/-- A program that is an expression declares nothing around the parts of it. -/
theorem WellFormed.bindingOf?_of_mem_sources (hp : p.WellFormed) (hbody : p.body = [.expr e])
    {i : Ident} (hi : .ident i ∈ e.sources) : (p.checkEnv config).bindingOf? i = none := by
  have huse : .use i ∈ e.scopeTrees :=
    (e.standsIn_of_mem_sources _ hi).scopeTrees (by simp [Expr.scopeTrees])
  have hsite : ⟨i, [[]]⟩ ∈ p.sites := by
    simpa [Program.sites, Program.scopeTree, hbody, ScopeTree.block, ScopeTree.sites,
      ScopeTree.sitesList, Stmt.declared, Stmt.withinList, Stmt.within, Stmt.vars, Stmt.localsOf,
      Stmt.locals, Stmt.scopeTreesList, Stmt.scopeTrees] using
      ScopeTree.mem_sitesList_of_use huse [[]]
  exact (hp.bindingOf?_eq hsite :)

/-- The only visit that types a sequence hands down the type of its last part. -/
theorem WellFormed.typesLast_visit (hp : p.WellFormed) {n : Node} {parts : List Expr}
    (hn : .expr (.sequence n parts) ∈ p.nodes) {v : Visit} (hv : v ∈ p.visits) {s : CheckState}
    (hs : s.store.TypesLast n parts) :
    (Check.visit (p.checkEnv config) s v).store.TypesLast n parts := by
  intro htyped
  have hkeeps {x : Expr} (hx : (s.store.cell (.node x.id)).ty.isSome = true) :
      ((Check.visit (p.checkEnv config) s v).store.cell (.node x.id)).ty.isSome = true :=
    (Check.linked_moments _ [v] s).isSome_ty hx
  by_cases hmem : n.id ∈ v.footprint
  · have hown := hp.mem_ownVisits hn rfl hv hmem
    obtain ⟨x, hlast, rfl⟩ : ∃ x, parts.getLast? = some x ∧ .inherit n.id x.id = v := by
      simpa using hown
    cases hx : (s.store.cell (.node x.id)).ty with
    | some m => exact ⟨x, hlast, hkeeps (by rw [hx, Option.isSome_some])⟩
    | none =>
      -- There is nothing to hand down, so that a type of the sequence would be older.
      rw [Check.visit_inherit_of_ty?_eq_none (by simp [Store.ty?, hx])] at htyped ⊢
      exact hs htyped
  · have hopen : ¬ (p.checkEnv config).Implies n.id := hp.not_implies hn
    rw [Check.cell_visit_of_notMem hmem hopen s] at htyped
    obtain ⟨x, hlast, hx⟩ := hs htyped
    exact ⟨x, hlast, hkeeps hx⟩

theorem WellFormed.typesLast_of_mem_passStarts (hp : p.WellFormed) {n : Node} {parts : List Expr}
    (hn : .expr (.sequence n parts) ∈ p.nodes) {s : CheckState} (hs : s ∈ p.passStarts config) :
    (Check.pass (p.checkEnv config) p.visits s).store.TypesLast n parts := by
  have hpass {s : CheckState} (hs : s.store.TypesLast n parts) :
      (Check.pass (p.checkEnv config) p.visits s).store.TypesLast n parts :=
    List.foldlRecOn p.visits (motive := fun s : CheckState => s.store.TypesLast n parts)
      (Check.visit (p.checkEnv config)) hs fun s hs v hv => hp.typesLast_visit hn hv hs
  refine hpass (Check.forall_starts (P := fun s => s.store.TypesLast n parts)
    (fun s hs => hpass hs) ?_ s hs)
  intro htyped
  simp [initialState] at htyped

/-- A check without errors finds for a constant expression a type that its value has, if no operator
in it may be mistyped and no choice in it is stale. -/
theorem hasTag_of_check {tokens : List Token} {v : Value} (hp : Program.ofTokens tokens = .ok p)
    (hbody : p.body = [.expr e]) (hclean : (p.check config).errorCount = 0)
    (hexact : ∀ x ∈ e.sources, x.mayMistype (p.check config).store = false)
    (hchoice : ∀ x ∈ e.sources, x.isChoice = true →
      (p.check config).store.isStale (.node x.id) = false)
    (hknown : (p.check config).store.tag (.node e.id) ≠ .unknown) (hv : e.eval = some v) :
    v.hasTag ((p.check config).store.tag (.node e.id)) = true := by
  have hwf := wellFormed_of_ofTokens hp
  obtain ⟨s, hs, hstore, hphrase⟩ := hwf.exists_phrase_of_check hclean
  have hvisits : p.visits = e.visits {} := by
    simp [Program.visits, hbody, Stmt.visitsList, Stmt.visits]
  have hnodes : p.nodes = e.nodes := by simp [Program.nodes, hbody, Stmt.nodesList, Stmt.nodes]
  rw [hvisits, hnodes] at hphrase
  have hgrounds : (p.check config).store.Grounds (p.checkEnv config) e.sources := {
    exact := hexact
    choice := hchoice
    unbound := fun i hi => hwf.bindingOf?_of_mem_sources hbody hi
    last := fun n parts hmem => by
      rw [hstore]
      have hnode := (e.standsIn_of_mem_sources _ hmem).nodes (Expr.mem_nodes _)
      exact hwf.typesLast_of_mem_passStarts (hnodes ▸ hnode) hs }
  exact (e.types hphrase hgrounds hknown).hasTag hv

/-- A source that is an expression which passes a test. -/
theorem exists_expr_of_any (source : String) (test : Program → Expr → Bool)
    (h : (Program.ofSource source).toOption.any (fun p => match p.body with
      | [.expr e] => test p e
      | _ => false) = true) :
    ∃ tokens p e, tokenize source = .ok tokens ∧ Program.ofTokens tokens = .ok p ∧
      p.body = [.expr e] ∧ test p e = true := by
  obtain ⟨p, hp, htest⟩ := exists_of_any source _ h
  obtain ⟨tokens, htokens, hp⟩ := Parse.exists_of_bind_eq_ok hp
  split at htest
  · rename_i e hbody
    exact ⟨tokens, p, e, htokens, hp, hbody, htest⟩
  · cases htest

/-- The sign is that of a choice between numbers. -/
theorem hasTag_of_check_of_choice : ∃ tokens p e v,
    tokenize "\"a\" + \"b\", -(true ? Number(\"3\") : 2 - 0.5);" = .ok tokens ∧
    Program.ofTokens tokens = .ok p ∧ p.body = [.expr e] ∧ (p.check {}).errorCount = 0 ∧
    (∀ x ∈ e.sources, x.mayMistype (p.check {}).store = false) ∧
    (∀ x ∈ e.sources, x.isChoice = true → (p.check {}).store.isStale (.node x.id) = false) ∧
    (p.check {}).store.tag (.node e.id) = .number ∧ e.eval = some v ∧
    v.hasTag ((p.check {}).store.tag (.node e.id)) = true := by
  obtain ⟨tokens, p, e, htokens, hp, hbody, htest⟩ := exists_expr_of_any
    "\"a\" + \"b\", -(true ? Number(\"3\") : 2 - 0.5);"
    (fun p e => (p.check {}).errorCount == 0 &&
      e.sources.all (fun x => !x.mayMistype (p.check {}).store &&
        (!x.isChoice || !(p.check {}).store.isStale (.node x.id))) &&
      (p.check {}).store.tag (.node e.id) == .number && e.eval.isSome) (by decide +kernel)
  simp only [Bool.and_eq_true, beq_iff_eq, List.all_eq_true, Bool.not_eq_true', Bool.or_eq_true,
    Option.isSome_iff_exists] at htest
  obtain ⟨⟨⟨hclean, hsources⟩, htag⟩, v, hv⟩ := htest
  have hexact (x : Expr) (hx : x ∈ e.sources) := (hsources x hx).1
  have hchoice (x : Expr) (hx : x ∈ e.sources) (hchoice : x.isChoice = true) :=
    (hsources x hx).2.resolve_left (by simp [hchoice])
  exact ⟨tokens, p, e, v, htokens, hp, hbody, hclean, hexact, hchoice, htag, hv,
    hasTag_of_check hp hbody hclean hexact hchoice (by simp [htag]) hv⟩

/-- A choice between types that differ keeps the type from the first pass, in which the sum was
taken for a number, as the type of one operand was not known yet. -/
theorem choice_keeps_stale_type : ∃ tokens p e v,
    tokenize ("true ? (true ? 1n : (function () \x7b return h(); " ++
      "function h() \x7b return 1n; \x7d \x7d)()) + 1n : 1 + 1") = .ok tokens ∧
    Program.ofTokens tokens = .ok p ∧ p.body = [.expr e] ∧ (p.check {}).errorCount = 0 ∧
    (∀ x, .expr x ∈ p.nodes → x.mayMistype (p.check {}).store = false) ∧
    (p.check {}).store.isStale (.node e.id) = true ∧
    (p.check {}).store.tag (.node e.id) = .number ∧ e.eval = some v ∧
    v.hasTag ((p.check {}).store.tag (.node e.id)) = false := by
  let isExact (s : Store) : SyntaxNode → Bool
    | .expr x => !x.mayMistype s
    | _ => true
  obtain ⟨tokens, p, e, htokens, hp, hbody, htest⟩ := exists_expr_of_any
    ("true ? (true ? 1n : (function () \x7b return h(); " ++
      "function h() \x7b return 1n; \x7d \x7d)()) + 1n : 1 + 1")
    (fun p e => (p.check {}).errorCount == 0 && p.nodes.all (isExact (p.check {}).store) &&
      (p.check {}).store.isStale (.node e.id) && (p.check {}).store.tag (.node e.id) == .number &&
      e.eval.any fun v => !v.hasTag ((p.check {}).store.tag (.node e.id))) (by decide +kernel)
  simp only [Bool.and_eq_true, beq_iff_eq, List.all_eq_true, Bool.not_eq_true',
    Option.any_eq_true] at htest
  obtain ⟨⟨⟨⟨hclean, hexact⟩, hstale⟩, htag⟩, v, hv, hmistyped⟩ := htest
  exact ⟨tokens, p, e, v, htokens, hp, hbody, hclean,
    fun x hx => by simpa [isExact] using hexact _ hx, hstale, htag, hv, hmistyped⟩

end Program

end TagCheck
