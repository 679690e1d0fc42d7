import TagCheck.Program.Grammar
import TagCheck.Proofs.Check.Moments
import TagCheck.Proofs.Program.Allotment
import TagCheck.Proofs.Program.Growth
import TagCheck.Proofs.Program.Region

/-! The nodes and the functions of a program that has been read are numbered from 0 without gaps,
and no number is given twice: every rule of the grammar returns what holds the numbers it takes.
What it returns is made of parts that have been read before, and stands at tokens that are not the
end. Every level of the grammar adds a few branches only, so that their number is bounded. -/
namespace TagCheck

open Parse

open TagCheck.Part (Grown)

theorem Expr.sums_nodesList : Sums (fun e => tally e.nodes) fun es => tally (Expr.nodesList es) :=
  ⟨by simp [nodesList], fun e es => by simp [nodesList]⟩

theorem Element.sums_nodes : Sums (fun e => tally (Element.nodes [e])) (tally <| Element.nodes ·) :=
  ⟨by simp [nodes], fun e es => by cases e <;> simp [nodes, add_assoc]⟩

theorem Element.sums_nodes_holes :
    Sums (fun o : Option Element => o.elim 0 fun e => tally (Element.nodes [e]))
    fun os : List (Option Element) => tally (Element.nodes (os.map (·.getD .hole))) := by
  refine ⟨by simp [nodes], fun o os => ?_⟩
  cases o with
  | none => simp [nodes]
  | some e => exact sums_nodes.cons e _

theorem Property.sums_nodes :
    Sums (fun p => tally (Property.nodes [p])) (tally <| Property.nodes ·) :=
  ⟨by simp [nodes], fun p ps => by cases p <;> simp [nodes, add_assoc]⟩

theorem Pattern.sums_nodesElements :
    Sums (fun o : Option Pattern => o.elim 0 fun p => tally p.nodes)
      (tally <| Pattern.nodesElements ·) :=
  ⟨by simp [nodesElements], fun o os => by cases o <;> simp [nodesElements]⟩

/-- Parameters are read together with their names. -/
theorem Pattern.sums_parameters : Sums (fun p => tally p.nodes + Tally.names [p])
    fun ps => tally (Pattern.nodesList ps) + Tally.names ps := by
  refine ⟨by simp [nodesList], fun p ps => ?_⟩
  rw [nodesList, tally_append, Tally.names_cons]
  abel

theorem PatternProp.sums_nodes :
    Sums (fun p => tally (PatternProp.nodes [p])) (tally <| PatternProp.nodes ·) :=
  ⟨by simp [nodes], fun p ps => by cases p <;> simp [nodes]⟩

theorem Stmt.sums_nodesList : Sums (fun s => tally s.nodes) (tally <| Stmt.nodesList ·) :=
  ⟨by simp [nodesList], fun s ss => by simp [nodesList]⟩

theorem Declarator.sums_nodes :
    Sums (fun d => tally (Declarator.nodes [d])) (tally <| Declarator.nodes ·) := by
  refine ⟨by simp [nodes], fun d ds => ?_⟩
  obtain ⟨pos, target, init⟩ := d
  cases init <;> simp [nodes, add_assoc]

/-! A pattern holds the numbers of the expression that it is made of, and has grown as far. -/

mutual

theorem Expr.of_toPattern {S : Position → Prop} : ∀ {e : Expr} {p : Pattern}, e.toPattern = .ok p →
    tally p.nodes = tally e.nodes ∧ ∀ w, Grown S w (.expr e) → Grown S w (.pattern p)
  | .ident i, p, h => by
    cases h
    refine ⟨?_, fun w hw => hw.asPattern (List.mem_singleton_self _) (by simp [Pattern.branches])⟩
    simp [Pattern.nodes, Expr.nodes, Expr.asFunc?, Expr.node, Pattern.node]
  | .array n elements, p, h => by
    obtain ⟨ps, hps, h⟩ := exists_of_bind_eq_ok h
    cases h
    obtain ⟨htally, hgrown⟩ := Element.of_toPatterns hps
    refine ⟨?_, fun w hw => hw.asPattern (List.mem_singleton_self _) hgrown⟩
    simp [Pattern.nodes, Expr.nodes, Expr.asFunc?, Expr.node, Pattern.node, htally]
  | .object n props, p, h => by
    obtain ⟨ps, hps, h⟩ := exists_of_bind_eq_ok h
    cases h
    obtain ⟨htally, hgrown⟩ := Property.of_toPatterns hps
    refine ⟨?_, fun w hw => hw.asPattern (List.mem_cons_self ..) hgrown⟩
    simp [Pattern.nodes, Expr.nodes, Expr.asFunc?, Expr.node, Pattern.node, htally]
  | .assign n target value, p, h => by
    cases h
    refine ⟨?_, fun w hw => hw.asPattern (List.mem_singleton_self _) fun _ => id⟩
    simp [Pattern.nodes, Expr.nodes, Expr.asFunc?, Expr.node, Pattern.node]
  | .number .., _, h | .bigint .., _, h | .str .., _, h | .bool .., _, h
  | .null _, _, h => by cases h
  | .regex .., _, h | .this _, _, h | .template .., _, h | .tagged .., _, h => by cases h
  | .function _, _, h | .unary .., _, h | .update .., _, h | .binary .., _, h => by cases h
  | .logical .., _, h | .conditional .., _, h | .assignMember .., _, h => by cases h
  | .sequence .., _, h | .call .., _, h | .new .., _, h | .member .., _, h => by cases h

theorem Element.of_toPatterns {S : Position → Prop} : ∀ {es : List Element}
    {ps : List (Option Pattern)}, Element.toPatterns es = .ok ps →
    tally (Pattern.nodesElements ps) = tally (Element.nodes es) ∧
      ∀ w, (∀ x ∈ es.filterMap Element.part?, Grown S w x) →
        ∀ y ∈ ps.flatMap fun o => o.toList.map Part.pattern, Grown S w y
  | [], ps, h => by
    cases h
    exact ⟨rfl, by simp⟩
  | .hole :: es, ps, h => by
    obtain ⟨ps, hps, h⟩ := exists_of_bind_eq_ok h
    cases h
    simpa [Pattern.nodesElements, Element.nodes, Element.part?] using Element.of_toPatterns hps
  | .item e :: es, ps, h => by
    obtain ⟨p, hp, h⟩ := exists_of_bind_eq_ok h
    obtain ⟨ps, hps, h⟩ := exists_of_bind_eq_ok h
    cases h
    obtain ⟨htally, hgrown⟩ := Expr.of_toPattern hp
    obtain ⟨htallies, hgrowns⟩ := Element.of_toPatterns hps
    refine ⟨by simp [Pattern.nodesElements, Element.nodes, htally, htallies], fun w hw => ?_⟩
    obtain ⟨hfirst, hothers⟩ := List.forall_mem_cons.1 hw
    exact List.forall_mem_cons.2 ⟨hgrown w hfirst, hgrowns w hothers⟩
  | .spread n argument :: es, ps, h => by
    obtain ⟨p, hp, h⟩ := exists_of_bind_eq_ok h
    obtain ⟨ps, hps, h⟩ := exists_of_bind_eq_ok h
    cases h
    obtain ⟨htally, hgrown⟩ := Expr.of_toPattern hp
    obtain ⟨htallies, hgrowns⟩ := Element.of_toPatterns hps
    refine ⟨?_, fun w hw => ?_⟩
    · simp [Pattern.nodesElements, Pattern.nodes, Pattern.node, Element.nodes, htally, htallies]
    · obtain ⟨hfirst, hothers⟩ := List.forall_mem_cons.1 hw
      exact List.forall_mem_cons.2 ⟨hfirst.asRest hgrown, hgrowns w hothers⟩

theorem Property.of_toPatterns {S : Position → Prop} : ∀ {pos : Position} {props : List Property}
    {ps : List PatternProp}, Property.toPatterns pos props = .ok ps →
    tally (PatternProp.nodes ps) = tally (Property.nodes props) ∧
      ∀ w, (∀ x ∈ props.flatMap Property.parts, Grown S w x) →
        ∀ y ∈ ps.map fun q => Part.pattern q.pattern, Grown S w y
  | _, [], ps, h => by
    cases h
    exact ⟨rfl, by simp⟩
  | _, .keyValue (.name key) value _ :: props, ps, h => by
    obtain ⟨p, hp, h⟩ := exists_of_bind_eq_ok h
    obtain ⟨ps, hps, h⟩ := exists_of_bind_eq_ok h
    cases h
    obtain ⟨htally, hgrown⟩ := Expr.of_toPattern hp
    obtain ⟨htallies, hgrowns⟩ := Property.of_toPatterns hps
    refine ⟨by simp [PatternProp.nodes, Property.nodes, Key.nodes, htally, htallies],
      fun w hw => ?_⟩
    obtain ⟨hfirst, hothers⟩ := List.forall_mem_cons.1 hw
    exact List.forall_mem_cons.2 ⟨hgrown w hfirst, hgrowns w hothers⟩
  | _, .spread n argument :: props, ps, h => by
    obtain ⟨p, hp, h⟩ := exists_of_bind_eq_ok h
    obtain ⟨ps, hps, h⟩ := exists_of_bind_eq_ok h
    cases h
    obtain ⟨htally, hgrown⟩ := Expr.of_toPattern hp
    obtain ⟨htallies, hgrowns⟩ := Property.of_toPatterns hps
    refine ⟨?_, fun w hw => ?_⟩
    · simp [PatternProp.nodes, Pattern.nodes, Pattern.node, Property.nodes, htally, htallies]
    · obtain ⟨hfirst, hothers⟩ := List.forall_mem_cons.1 hw
      exact List.forall_mem_cons.2 ⟨hfirst.asRest hgrown, hgrowns w hothers⟩
  | _, .keyValue (.computed _) _ _ :: _, _, h => by cases h
  | _, .method _ _ :: _, _, h => by cases h

end

namespace Parse

variable {S : Position → Prop}

theorem neutral_isIdentNext : Neutral S isIdentNext := by
  refine neutral_peek.skip fun kind => ?_
  split <;> exact .pure rfl trivial

theorem neutral_isMemberNext : Neutral S isMemberNext := by
  refine neutral_peek.skip fun kind => ?_
  split <;> exact .pure rfl trivial

theorem neutral_isTemplateNext : Neutral S isTemplateNext := by
  refine neutral_peek.skip fun kind => ?_
  split <;> exact .pure rfl trivial

theorem neutral_endsHere : Neutral S endsHere := by
  refine neutral_peek.skip fun kind => ?_
  split
  · exact .pure rfl trivial
  · exact .pure rfl trivial
  · exact neutral_onNewLine

theorem neutral_endStatement : Neutral S endStatement := by
  refine (neutral_accept _).skip fun b => ?_
  split
  · exact .pure rfl trivial
  · refine neutral_endsHere.skip fun b => ?_
    split
    · exact .pure rfl trivial
    · exact allots_fail _

theorem neutral_propertyName : Neutral S propertyName := by
  refine neutral_peek.skip fun kind => ?_
  split
  all_goals first
    | exact neutral_advance.skip fun _ => .pure rfl trivial
    | exact allots_fail _

theorem run_isNext (c : Cursor) (kind : TokenKind) :
    (isNext kind).run c = .ok (decide (c.kind = kind), c) := by
  simp [isNext, run_peek]

theorem allotsAt_accept {c : Cursor} {kind : TokenKind} (h : kind ≠ .eof) :
    AllotsAt S c 0 (accept kind) (fun b => if b then Tally.origin c.position else 0)
      fun b => b = true → S c.position := by
  refine .look (run_isNext c kind) ?_
  by_cases hkind : c.kind = kind
  · simp only [hkind, decide_true, if_true]
    intro hc
    refine (allotsAt_advance (hkind ▸ h)).step (fun _ c₁ _ _ => ?_) hc
    refine Allots.spend (by simpa using c.credit_wastes) (.pure (by simp) fun _ => ?_) c₁
    exact hc.position (hkind ▸ h)
  · simp only [hkind, decide_false, Bool.false_eq_true, if_false]
    exact Allots.pure (by simp) (by simp) c

/-- A token that is not accepted is still there. -/
theorem eq_of_run_accept {c c₁ : Cursor} {kind : TokenKind}
    (h : (accept kind).run c = .ok (false, c₁)) : c₁ = c := by
  obtain ⟨b, c₂, hnext, h⟩ := exists_of_run_bind_eq_ok h
  cases (run_isNext c kind).symm.trans hnext
  by_cases hkind : c.kind = kind
  · simp only [hkind, decide_true, if_true] at h
    obtain ⟨-, c₃, -, h⟩ := exists_of_run_bind_eq_ok h
    cases h
  · simp only [hkind, decide_false] at h
    cases h
    rfl

theorem kind_of_run_accept {c c₁ : Cursor} {kind : TokenKind}
    (h : (accept kind).run c = .ok (true, c₁)) : c.kind = kind := by
  obtain ⟨b, c₂, hnext, h⟩ := exists_of_run_bind_eq_ok h
  cases (run_isNext c kind).symm.trans hnext
  by_contra hkind
  simp only [hkind, decide_false] at h
  cases h

theorem run_fail_ne {c c' : Cursor} {cause : Cause} {α : Type}
    {a : α} : (fail cause : Parse α).run c ≠ .ok (a, c') := by
  intro hrun
  obtain ⟨pos, c₁, -, h⟩ := exists_of_run_bind_eq_ok hrun
  cases h

theorem allotsAt_expect {c : Cursor} {kind : TokenKind} (h : kind ≠ .eof) :
    AllotsAt S c 0 (expect kind) (fun _ => Tally.origin c.position) fun _ => S c.position := by
  refine (allotsAt_accept h).step fun b c₁ _ hb => ?_
  split
  · next h =>
    rw [zero_add]
    exact Allots.pure (P := fun _ => S c.position) (by rfl) (hb h) c₁
  · exact allots_fail _ c₁

theorem allotsAt_propertyName (c : Cursor) : AllotsAt S c 0 propertyName
    (fun _ => Tally.origin c.position) fun _ => S c.position := by
  refine .look (run_peek c) ?_
  have hname (name : String) (h : c.kind ≠ .eof) :
      AllotsAt S c 0 (do advance; return name) (fun _ => Tally.origin c.position)
        fun _ => S c.position := by
    intro hc
    refine (allotsAt_advance h).step (fun _ c₁ _ _ => ?_) hc
    refine Allots.spend (by simpa using c.credit_wastes) (.pure rfl ?_) c₁
    exact hc.position h
  split
  case h_5 => exact allots_fail _ c
  all_goals exact hname _ (by simp_all)

/-- An identifier holds the name of its token, which stands where the identifier does. -/
theorem allotsAt_ident (c : Cursor) : AllotsAt S c 0 ident
    (fun i => i.node.tally + Tally.names [.ident i] + Tally.origin c.position)
    fun i => S i.node.pos := by
  refine .look (run_peek c) ?_
  split
  · next name hkind =>
    refine .look (run_position c) fun hc => ?_
    have hpos := hc.position (by simp [hkind])
    refine (allotsAt_advance (by simp [hkind])).step (fun _ c₁ _ _ => ?_) hc
    refine (allots_newNode hpos).step (fun n hn => .pure ?_ ?_) c₁
    · simp [Cursor.credit, hkind, TokenKind.name?, Tally.names, Tally.origin, Pattern.simpleName?]
      abel
    · exact hn
  · exact allots_fail _ c

theorem allots_ident : Allots S 0 ident (fun i => i.node.tally) fun i => S i.node.pos :=
  fun c hc i c' hrun => (allotsAt_ident c hc i c' hrun).imp_left
    (·.waste ((Tally.wastes_add_right rfl).trans (Tally.wastes_add_right rfl)))

theorem allotsAt_identPattern (c : Cursor) {w : Nat} : AllotsAt S c 0 identPattern
    (fun p => tally p.nodes + Tally.names [p] + Tally.origin c.position)
    fun p => Grown S (w + 1) (.pattern p) :=
  (allotsAt_ident c).step fun i c₁ _ hi =>
    Allots.pure (by simp [Pattern.nodes, Pattern.node]) (.ident hi) c₁

section Places

variable {α β : Type} {held : Tally} {m : Parse α} {f : α → Tally} {g : β → Tally} {P : α → Prop}
  {Q : β → Prop}

/-- What begins at a token stands at a place of tokens. -/
theorem allots_opened {kind : TokenKind} {k : Position → Parse β} (h : kind ≠ .eof)
    (hk : ∀ pos, S pos → Allots S held (k pos) g Q) :
    Allots S held (do let pos ← position; expect kind; k pos) g Q := by
  intro c
  refine .look (run_position c) ((allotsAt_expect h).step fun _ c₁ _ hpos => ?_)
  exact Allots.spend (Tally.wastes_add_right rfl) (hk c.position hpos) c₁

/-- A token that is next and is not the end. -/
theorem allots_next {k : Position → TokenKind → Parse β}
    (hk : ∀ c : Cursor, (c.kind ≠ .eof → S c.position) →
      AllotsAt S c held (k c.position c.kind) g Q) :
    Allots S held (do let pos ← position; let kind ← peek; k pos kind) g Q := fun c =>
  .look (run_position c) (.look (run_peek c) fun hc => hk c hc.position hc)

end Places

end Parse

/-- The reader is given parts that hold `held`, and returns expressions that hold this and what it
takes, with at most that many parts in each other. -/
abbrev ReadsExpr (S : Position → Prop) (w : Nat) (held : Tally) (m : Parse Expr) : Prop :=
  Allots S held m (fun e => tally e.nodes) fun e => Grown S w (.expr e)

abbrev ReadsStmt (S : Position → Prop) (w : Nat) (m : Parse Stmt) : Prop :=
  Allots S 0 m (fun s => tally s.nodes) fun s => Grown S w (.stmt s)

/-- A name also holds that of its token. -/
abbrev ReadsPattern (S : Position → Prop) (w : Nat) (m : Parse Pattern) : Prop :=
  Allots S 0 m (fun p => tally p.nodes + Tally.names [p]) fun p => Grown S w (.pattern p)

namespace Grammar

/-- Every part that is read holds the numbers taken for it and has grown to at most that many. -/
structure IsDense (S : Position → Prop) (w : Nat) (g : Grammar) : Prop where
  pos : 0 < w
  statement : ReadsStmt S w g.statement
  target : ReadsPattern S w g.target
  assignment : ReadsExpr S w 0 g.assignment
  operand : ReadsExpr S w 0 g.operand

namespace IsDense

variable {S : Position → Prop} {w : Nat} {g : Grammar} (hg : g.IsDense S w)
include hg

theorem expression : ReadsExpr S (w + 1) 0 g.expression := by
  refine hg.assignment.step fun first hfirst => (neutral_accept _).skip fun b => ?_
  split
  · refine neutral_budget.skip fun fuel => ?_
    refine (allots_separated Expr.sums_nodesList hg.assignment fuel).step fun others hothers => ?_
    refine (allots_newNode hfirst.pos_expr).step fun n hn => .pure ?_ (.expr rfl rfl hn ?_)
    · simp [Expr.nodes, Expr.nodesList, Expr.asFunc?, Expr.node]
      abel
    · exact List.forall_mem_map.2 (List.forall_mem_cons.2 ⟨hfirst, hothers⟩)
  · exact .pure (zero_add _) (hfirst.mono (Nat.le_succ w))

theorem parenthesized : ReadsExpr S (w + 1) 0 g.parenthesized := by
  refine (neutral_expect _).skip fun _ => hg.expression.step fun e he => ?_
  exact (neutral_expect _).skip fun _ => .pure (zero_add _) he

omit hg in
theorem nameless {m : Parse Pattern} (h : ReadsPattern S w m) :
    Allots S 0 m (fun p => tally p.nodes) fun p => Grown S w (.pattern p) :=
  h.waste fun _ => Tally.wastes_add_right rfl

theorem withDefault (credit : Pattern → Tally) {target : Pattern}
    (htarget : Grown S w (.pattern target))
    (hcredit : ∀ x n e, (x + credit target).Wastes (x + credit (.withDefault n target e))) :
    Allots S (tally target.nodes + credit target) (g.withDefault target)
      (fun p => tally p.nodes + credit p) fun p => Grown S (w + 1) (.pattern p) := by
  refine (neutral_accept _).skip fun b => ?_
  split
  · refine (allots_newNode htarget.pos_pattern).step fun n hn => hg.assignment.step fun e he => ?_
    have hsum : tally target.nodes + credit target + n.tally + tally e.nodes =
        n.tally + (tally target.nodes + tally e.nodes) + credit target := by abel
    rw [hsum]
    refine .spend (hcredit _ n e) (.pure (by simp [Pattern.nodes, Pattern.node]) ?_)
    exact .pattern hn (by simpa [Pattern.branches] using ⟨htarget, he⟩)
  · exact .pure rfl (htarget.mono (Nat.le_succ w))

theorem bindingElement : ReadsPattern S (w + 1) g.bindingElement :=
  hg.target.bind fun p hp => hg.withDefault (fun p => Tally.names [p]) hp fun x n e =>
    Tally.wastes_names_withDefault x n p e

theorem restPattern : ReadsPattern S (w + 1) g.restPattern := by
  refine allots_opened (by simp) fun pos hpos => (allots_newNode hpos).step fun n hn => ?_
  refine (nameless hg.target).step fun p hp => .pure ?_ ?_
  · simp [Pattern.nodes, Pattern.node, Tally.names, Pattern.simpleName?]
  · exact .pattern hn (List.forall_mem_singleton.2 hp)

theorem bindingItem : ReadsPattern S (w + 1) g.bindingItem := by
  refine (neutral_isNext _).skip fun b => ?_
  split
  · exact hg.restPattern
  · exact hg.bindingElement

theorem patternProp : Allots S 0 g.patternProp (fun q => tally (PatternProp.nodes [q]))
    fun q => Grown S (w + 1) (.pattern q.pattern) := by
  refine (neutral_isNext _).skip fun b => ?_
  split
  · exact (nameless hg.restPattern).step fun p hp => .pure (by simp [PatternProp.nodes]) hp
  · intro c
    refine .look (run_position c) ((allotsAt_propertyName c).step fun key c₁ _ hpos => ?_)
    refine Allots.spend (Tally.wastes_add_right rfl) ((neutral_accept _).skip fun b => ?_) c₁
    split
    · exact (nameless hg.bindingElement).step fun p hp => .pure (by simp [PatternProp.nodes]) hp
    · refine (allots_newNode hpos).step fun n hn => ?_
      have hname : (0 : Tally) + n.tally = tally (Pattern.ident ⟨n, key⟩).nodes + 0 := by
        simp [Pattern.nodes, Pattern.node]
      rw [hname]
      have hgrown := (Grown.ident (i := ⟨n, key⟩) (w := 0) hn).mono hg.pos
      refine (hg.withDefault (fun _ => 0) hgrown fun _ _ _ => .refl _).bind fun p hp => ?_
      exact .pure (by simp [PatternProp.nodes]) hp

theorem bindingTarget : ReadsPattern S (w + 2) g.bindingTarget := by
  refine allots_next fun c hpos => ?_
  split
  · next hkind =>
    refine neutral_advance.skip (fun _ => ?_) c
    refine (allots_newNode (hpos (by simp [hkind]))).step fun n hn => neutral_budget.skip fun fuel => ?_
    refine (allots_holeyList _ Pattern.sums_nodesElements (nameless hg.bindingItem) fuel).step
      fun ps hps => (neutral_expect _).skip fun _ => .pure ?_ (.pattern hn ?_)
    · simp [Pattern.nodes, Pattern.node, Tally.names, Pattern.simpleName?]
    · refine List.forall_mem_flatMap.2 fun o ho => List.forall_mem_map.2 fun p hp => ?_
      exact hps o ho p (Option.mem_toList.1 hp)
  · next hkind =>
    refine neutral_advance.skip (fun _ => ?_) c
    refine (allots_newNode (hpos (by simp [hkind]))).step fun n hn => neutral_budget.skip fun fuel => ?_
    refine (allots_commaList _ PatternProp.sums_nodes hg.patternProp fuel).step fun ps hps => ?_
    refine (neutral_expect _).skip fun _ => .pure ?_ (.pattern hn (List.forall_mem_map.2 hps))
    simp [Pattern.nodes, Pattern.node, Tally.names, Pattern.simpleName?]
  · exact fun hc p c' hrun => (allotsAt_identPattern c hc p c' hrun).imp_left
      (·.waste (Tally.wastes_add_right rfl))

theorem paramsAt (c : Cursor) : AllotsAt S c 0 g.params
    (fun ps => Tally.origin c.position + (tally (Pattern.nodesList ps) + Tally.names ps))
    fun ps => ∀ p ∈ ps, Grown S (w + 1) (.pattern p) := by
  refine (allotsAt_expect (by simp)).step fun _ c₁ _ _ => ?_
  refine neutral_budget.skip (fun fuel => ?_) c₁
  refine (allots_commaList _ Pattern.sums_parameters hg.bindingItem fuel).step fun ps hps => ?_
  exact (neutral_expect _).skip fun _ => .pure (by rw [zero_add]) hps

theorem params : Allots S 0 g.params (fun ps => tally (Pattern.nodesList ps) + Tally.names ps)
    fun ps => ∀ p ∈ ps, Grown S (w + 1) (.pattern p) :=
  fun c hc ps c' hrun => (hg.paramsAt c hc ps c' hrun).imp_left (·.waste (Tally.wastes_add_left rfl))

theorem block : Allots S 0 g.block (fun b => tally (Stmt.nodesList b.body))
    fun b => ∀ s ∈ b.body, Grown S w (.stmt s) := by
  refine neutral_position.skip fun pos => (neutral_expect _).skip fun _ => ?_
  refine neutral_budget.skip fun fuel => ?_
  refine (allots_collect Stmt.sums_nodesList (neutral_peek.skip fun kind => ?_) fuel).step
    fun ss hss => (neutral_expect _).skip fun _ => .pure (zero_add _) hss
  split
  · exact .pure rfl (by simp)
  · exact .pure rfl (by simp)
  · exact hg.statement.step fun s hs => .pure (by simp) (by simpa using hs)

omit hg in
/-- The parts of a function whose parameters and body have grown. -/
theorem parts_of_function {f : Func} (hparams : ∀ p ∈ f.params, Grown S (w + 1) (.pattern p))
    (hbody : ∀ x ∈ f.body.parts, Grown S w x) : ∀ x ∈ f.parts, Grown S (w + 1) x := by
  intro x hx
  rcases List.mem_append.1 hx with hx | hx
  · exact List.forall_mem_map.2 hparams x hx
  · exact (hbody x hx).mono (Nat.le_succ w)

/-- A function is read together with the node of its place. It begins at its keyword. -/
theorem function (place : Func → SyntaxNode) {pos : Position} (hpos : S pos) {form : FuncForm}
    (hfunc : ∀ f, (place f).func? = some f) (hid : ∀ f, (place f).id = f.node.id)
    (hplace : ∀ f, f.form = form → (place f).isInPlace = true) :
    Allots S (Tally.origin pos) (g.function pos form) (fun f => tally (place f :: f.nodes))
      fun f => (∀ q ∈ f.node.pos :: f.sites, S q) ∧ ∀ x ∈ f.parts, Grown S (w + 1) x := by
  intro c
  refine (allots_newNode hpos c).step fun node c₁ hnode hn => ?_
  obtain rfl : node.pos = pos := by cases hnode; rfl
  refine allots_newFunc.step (fun func _ => neutral_isIdentNext.skip fun b => ?_) c₁
  extract_lets finish
  have hfinish (name : Option Ident) (hname : ∀ i ∈ name, S i.node.pos) : Allots S
      (Tally.origin node.pos + node.tally + Tally.func func + tally (name.toList.map .name))
      (finish name) (fun f => tally (place f :: f.nodes))
      fun f => (∀ q ∈ f.node.pos :: f.sites, S q) ∧ ∀ x ∈ f.parts, Grown S (w + 1) x := by
    refine hg.params.step fun params hparams => hg.block.step fun ⟨_, stmts⟩ hstmts => .pure ?_ ⟨?_, ?_⟩
    · rw [tally_cons, SyntaxNode.tally_func (hfunc _) (hid _) (hplace _ rfl)]
      simp [Func.nodes, Body.nodes]
      abel
    · refine List.forall_mem_cons.2 ⟨hn, List.forall_mem_map.2 fun i hi => ?_⟩
      exact hname i (Option.mem_toList.1 hi)
    · exact parts_of_function hparams (List.forall_mem_map.2 hstmts)
  split
  · exact (allots_ident.map (g := fun o => tally (o.toList.map .name)) (by simp) (by simp)).step hfinish
  · split
    · exact (allots_fail _ (f := fun o => tally (o.toList.map .name))).step hfinish
    · exact (Allots.pure (f := fun o => tally (o.toList.map .name)) (by simp) (by simp)).step hfinish

/-- An arrow function begins where its parameters do. -/
theorem arrowFunctionAt {c : Cursor} (hkind : c.kind ≠ .eof) : AllotsAt S c 0 g.arrowFunction
    (fun e => tally e.nodes) fun e => Grown S (w + 2) (.expr e) := by
  refine .look (run_position c) fun hc => ?_
  refine (allots_newNode (hc.position hkind) c).step (fun node c₁ hnode hn => ?_) hc
  refine (allots_newFunc c₁).step fun func c₂ hfunc _ => ?_
  have hpos : c₂.position = node.pos := by
    cases hnode
    cases hfunc
    rfl
  refine .look (run_isNext c₂ _) ?_
  extract_lets finish
  have hfinish (ps : List Pattern) (hps : ∀ p ∈ ps, Grown S (w + 1) (.pattern p)) :
      ReadsExpr S (w + 2) (0 + node.tally + Tally.func func +
        (Tally.origin node.pos + (tally (Pattern.nodesList ps) + Tally.names ps))) (finish ps) := by
    refine (neutral_expect _).skip fun _ => (neutral_isNext _).skip fun b => ?_
    extract_lets close
    have hclose (body : Body) (hbody : ∀ x ∈ body.parts, Grown S w x) :
        ReadsExpr S (w + 2) (0 + node.tally + Tally.func func +
          (Tally.origin node.pos + (tally (Pattern.nodesList ps) + Tally.names ps)) +
            tally body.nodes) (close body) := by
      refine .pure ?_ (.expr rfl rfl hn (parts_of_function hps hbody))
      rw [Expr.nodes, tally_cons, SyntaxNode.tally_func rfl rfl rfl]
      simp [Func.nodes]
      abel
    split
    · refine (hg.block.map (fun b => ?_) fun b hb => List.forall_mem_map.2 hb).step hclose
      cases b
      simp [Body.nodes]
    · refine (hg.assignment.map (fun e => ?_) fun e he => List.forall_mem_singleton.2 he).step hclose
      simp [Body.nodes]
  split
  · exact (hg.paramsAt c₂).step fun ps c₃ _ hps => hpos ▸ hfinish ps hps c₃
  · refine (allotsAt_identPattern c₂ (w := w)).step fun p c₃ _ hp => ?_
    have hsum : tally p.nodes + Tally.names [p] + Tally.origin c₂.position =
        Tally.origin node.pos + (tally (Pattern.nodesList [p]) + Tally.names [p]) := by
      simp [Pattern.nodesList, hpos]
      abel
    rw [hsum]
    exact hfinish [p] (List.forall_mem_singleton.2 hp) c₃

theorem spread {α : Type} {build : Node → Expr → α} {f : α → Tally} {P : α → Prop}
    (hf : ∀ n e, f (build n e) = n.tally + tally e.nodes)
    (hP : ∀ n e, Grown S (w + 1) (.spread n e) → P (build n e)) : Allots S 0 (g.spread build) f P := by
  refine allots_opened (by simp) fun pos hpos => (allots_newNode hpos).step fun n hn => ?_
  exact hg.assignment.step fun e he => .pure (by rw [hf, zero_add]) (hP n e (.spread hn he))

theorem element : Allots S 0 g.element (fun e => tally (Element.nodes [e]))
    fun e => ∀ x ∈ e.part?, Grown S (w + 1) x := by
  refine (neutral_isNext _).skip fun b => ?_
  split
  · refine hg.spread (fun n e => ?_) fun n e he => ?_
    · simp [Element.nodes]
    · simpa [Element.part?] using he
  · refine hg.assignment.map (fun e => ?_) fun e he => ?_
    · simp [Element.nodes]
    · simpa [Element.part?] using he.mono (Nat.le_succ w)

theorem arguments : Allots S 0 g.arguments (fun es => tally (Element.nodes es))
    fun es => ∀ x ∈ es.filterMap Element.part?, Grown S (w + 1) x := by
  refine (neutral_expect _).skip fun _ => neutral_budget.skip fun fuel => ?_
  refine (allots_commaList _ Element.sums_nodes hg.element fuel).step fun es hes => ?_
  exact (neutral_expect _).skip fun _ => .pure (zero_add _) (List.forall_mem_filterMap.2 hes)

theorem propertyKeyAt (c : Cursor) : AllotsAt S c 0 g.propertyKey
    (fun k => tally k.nodes + Tally.origin c.position)
    fun k => S c.position ∧ ∀ e ∈ k.exprs, Grown S w (.expr e) := by
  refine (allotsAt_accept (by simp)).step fun b c₁ hrun hb => ?_
  cases b with
  | true =>
    refine hg.assignment.step (fun e he => (neutral_expect _).skip fun _ => .pure ?_ ?_) c₁
    · simp [Key.nodes, add_comm]
    · exact ⟨hb rfl, List.forall_mem_singleton.2 he⟩
  | false =>
    obtain rfl : c₁ = c := eq_of_run_accept hrun
    refine (allotsAt_propertyName c₁).step fun s c₂ _ hpos => Allots.pure ?_ ⟨hpos, ?_⟩ c₂
    · simp [Key.nodes]
    · simp [Key.exprs]

/-- A method begins where its key does. -/
theorem property : Allots S 0 g.property (fun p => tally (Property.nodes [p]))
    fun p => (∀ q ∈ p.sites, S q) ∧ ∀ x ∈ p.parts, Grown S (w + 1) x := by
  refine (neutral_isNext _).skip fun b => ?_
  split
  · refine hg.spread (fun n e => by simp [Property.nodes]) fun n e he => ?_
    exact ⟨by simp [Property.sites], List.forall_mem_singleton.2 he⟩
  intro c
  refine .look (run_position c) ((hg.propertyKeyAt c).step fun key c₁ _ hkey => ?_)
  obtain ⟨hpos, hkey⟩ := hkey
  replace hkey : ∀ e ∈ key.exprs, Grown S (w + 1) (.expr e) := fun e he =>
    (hkey e he).mono (Nat.le_succ w)
  have hvalue {value : Expr} (h : Grown S (w + 1) (.expr value)) (shorthand : Bool) :
      (∀ q ∈ (Property.keyValue key value shorthand).sites, S q) ∧
        ∀ x ∈ (Property.keyValue key value shorthand).parts, Grown S (w + 1) x := by
    simp only [Property.sites, Property.parts, List.map_append, List.forall_mem_append,
      List.forall_mem_map]
    exact ⟨by simp, hkey, by simpa using h⟩
  refine (neutral_accept _).skip (fun b => ?_) c₁
  have hwaste : (0 + (tally key.nodes + Tally.origin c.position)).Wastes (tally key.nodes) := by
    rw [zero_add]
    exact Tally.wastes_add_right rfl
  split
  · refine .spend hwaste (hg.assignment.step fun e he => .pure (by simp [Property.nodes]) ?_)
    exact hvalue (he.mono (Nat.le_succ w)) _
  · refine (neutral_isNext _).skip fun b => ?_
    split
    · intro c₁
      refine (allots_newNode hpos c₁).step fun node c₂ hnode hn => ?_
      obtain hpos : node.pos = c.position := by cases hnode; rfl
      refine allots_newFunc.step (fun func _ => hg.params.step fun ps hps => ?_) c₂
      refine hg.block.step fun block hstmts => .pure ?_ ⟨List.forall_mem_singleton.2 hn, ?_⟩
      · have hmethod (body : Body) :
            (SyntaxNode.method ⟨node, func, .method, none, ps, body⟩).tally =
              node.tally + Tally.func func + Tally.origin node.pos + Tally.names ps :=
          SyntaxNode.tally_func (f := ⟨node, func, .method, none, ps, body⟩) rfl rfl rfl
        cases block
        simp [Property.nodes, hmethod, Func.nodes, Body.nodes, hpos]
        abel
      · refine List.forall_mem_append.2 ⟨List.forall_mem_map.2 hkey, ?_⟩
        exact parts_of_function hps (List.forall_mem_map.2 hstmts)
    · split
      · refine .spend hwaste ((allots_newNode hpos).step fun n hn => .pure ?_ (hvalue ?_ _))
        · simp [Property.nodes, Key.nodes, Expr.nodes, Expr.asFunc?, Expr.node]
        · exact .expr rfl rfl hn (by simp [Expr.branches])
      · exact allots_fail _

theorem substitutions (fuel : Nat) : Allots S 0 (g.substitutions fuel)
    (fun subs => tally (Expr.nodesList (subs.map Prod.fst)))
    fun subs => ∀ e ∈ subs.map Prod.fst, Grown S (w + 1) (.expr e) := by
  induction fuel with
  | zero => exact .pure rfl (by simp)
  | succ fuel ih =>
    refine hg.expression.step fun e he => neutral_position.skip fun pos => ?_
    refine neutral_peek.skip fun kind => ?_
    split
    · refine neutral_advance.skip fun _ => ih.step fun subs hsubs => .pure ?_ ?_
      · simp [Expr.nodesList]
      · exact List.forall_mem_cons.2 ⟨he, hsubs⟩
    · exact neutral_advance.skip fun _ => .pure (by simp [Expr.nodesList]) (by simpa using he)
    · exact allots_fail _

theorem template : Allots S 0 g.template (fun t => tally (Expr.nodesList t.parts))
    fun t => ∀ e ∈ t.parts, Grown S (w + 1) (.expr e) := by
  refine neutral_position.skip fun pos => neutral_peek.skip fun kind => ?_
  split
  · exact neutral_advance.skip fun _ => .pure (by simp [Expr.nodesList]) (by simp)
  · refine neutral_advance.skip fun _ => neutral_budget.skip fun fuel => ?_
    exact (hg.substitutions fuel).step fun subs hsubs => .pure (zero_add _) hsubs
  · exact allots_fail _

theorem arrayLiteral : ReadsExpr S (w + 2) 0 g.arrayLiteral := by
  refine allots_opened (by simp) fun pos hpos => (allots_newNode hpos).step fun n hn => ?_
  refine neutral_budget.skip fun fuel => ?_
  refine (allots_holeyList _ Element.sums_nodes_holes hg.element fuel).step fun os hos => ?_
  refine (neutral_expect _).skip fun _ => .pure ?_ (.expr rfl rfl hn ?_)
  · simp [Expr.nodes, Expr.asFunc?, Expr.node]
  · refine List.forall_mem_filterMap.2 (List.forall_mem_map.2 fun o ho => ?_)
    cases o with
    | none => simp [Element.part?]
    | some e => exact hos _ ho e rfl

theorem objectLiteral : ReadsExpr S (w + 2) 0 g.objectLiteral := by
  refine allots_opened (by simp) fun pos hpos => (allots_newNode hpos).step fun n hn => ?_
  refine neutral_budget.skip fun fuel => ?_
  refine (allots_commaList _ Property.sums_nodes hg.property fuel).step fun ps hps => ?_
  refine (neutral_expect _).skip fun _ => .pure ?_ (.grow ?_ nofun ?_)
  · simp [Expr.nodes, Expr.asFunc?, Expr.node]
  · exact List.forall_mem_cons.2 ⟨hn, List.forall_mem_flatMap.2 fun p hp => (hps p hp).1⟩
  · exact List.forall_mem_flatMap.2 fun p hp => (hps p hp).2

omit hg in
theorem literal? {kind : TokenKind} {build : Node → Expr} (h : literal? kind = some build)
    (n : Node) : tally (build n).nodes = n.tally ∧ (S n.pos → Grown S (w + 1) (.expr (build n))) := by
  unfold Grammar.literal? at h
  split at h <;> cases h <;> refine ⟨?_, fun hn => .expr rfl rfl hn (by simp [Expr.branches])⟩ <;>
    simp [Expr.nodes, Expr.asFunc?, Expr.node]

theorem primary : ReadsExpr S (w + 2) 0 g.primary := by
  refine allots_next fun c hpos => ?_
  split
  · next build hbuild =>
    have hkind : c.kind ≠ .eof := fun hkind => by simp [hkind, Grammar.literal?] at hbuild
    refine neutral_advance.skip (fun _ => (allots_newNode (hpos hkind)).step fun n hn => ?_) c
    have hbuilt := literal? (S := S) (w := w + 1) hbuild n
    exact .pure (by rw [zero_add, hbuilt.1]) (hbuilt.2 hn)
  have htemplate (h : c.kind ≠ .eof) : ReadsExpr S (w + 2) 0 (do
      let t ← g.template
      return .template (← newNode c.position) t) := by
    refine hg.template.step fun ⟨_, _, parts⟩ ht => (allots_newNode (hpos h)).step fun n hn => ?_
    refine .pure ?_ (.expr rfl rfl hn (List.forall_mem_map.2 ht))
    simp [Expr.nodes, Expr.asFunc?, Expr.node]
    abel
  split
  · next hkind => exact htemplate (by simp [hkind]) c
  · next hkind => exact htemplate (by simp [hkind]) c
  · refine allots_ident.step (fun i hi => .pure ?_ (.expr rfl rfl hi (by simp [Expr.branches]))) c
    simp [Expr.nodes, Expr.asFunc?, Expr.node]
  · next hkind =>
    refine (allotsAt_advance (by simp [hkind])).step fun _ c₁ _ _ => ?_
    refine Allots.spend (by simpa using c.credit_wastes) ?_ c₁
    refine (hg.function (.expr <| .function ·) (hpos (by simp [hkind])) (fun _ => rfl)
      (fun _ => rfl) ?_).bind fun f hf => .pure (by simp [Expr.nodes]) (.grow hf.1 (by rintro _ ⟨⟩) hf.2)
    exact fun f hf => by simp [SyntaxNode.isInPlace, hf]
  · exact hg.parenthesized.imp (fun e he => he.mono (Nat.le_succ _)) c
  · exact hg.arrayLiteral c
  · exact hg.objectLiteral c
  · exact allots_fail _ c

theorem member {object : Expr} (h : Grown S (w + 2) (.expr object)) :
    ReadsExpr S (w + 2) (tally object.nodes) (g.member object) := by
  refine (neutral_accept _).skip fun b => ?_
  extract_lets finish
  have hfinish (key : Key) (hkey : ∀ e ∈ key.exprs, Grown S (w + 1) (.expr e)) :
      ReadsExpr S (w + 2) (tally object.nodes + tally key.nodes) (finish key) := by
    refine (allots_newNode h.pos_expr).step fun n hn => .pure ?_ ?_
    · simp [Expr.nodes, Expr.asFunc?, Expr.node]
      abel
    · exact .ofStem rfl rfl hn h (List.forall_mem_map.2 hkey)
  split
  · refine (neutral_propertyName.map (fun s => ?_) fun s _ => ?_).step hfinish
    · simp [Key.nodes]
    · simp [Key.exprs]
  · refine (neutral_expect _).skip fun _ => hg.expression.step fun e he => ?_
    exact (neutral_expect _).skip fun _ => hfinish (.computed e) (List.forall_mem_singleton.2 he)

theorem memberNext {e : Expr} (he : Grown S (w + 2) (.expr e)) :
    Allots S (tally e.nodes) (some <$> g.member e)
      (fun o => o.elim (tally e.nodes) fun e => tally e.nodes)
      fun o => ∀ e ∈ o, Grown S (w + 2) (.expr e) := by
  rw [map_eq_pure_bind]
  exact (hg.member he).bind fun e' he' => .pure rfl (by simpa using he')

theorem members {object : Expr} (h : Grown S (w + 2) (.expr object)) :
    ReadsExpr S (w + 2) (tally object.nodes) (g.members object) := by
  refine neutral_budget.skip fun fuel => ?_
  refine allots_extend (f := fun e : Expr => tally e.nodes) (fun e he => ?_) fuel h
  refine neutral_isMemberNext.skip fun b => ?_
  split
  · exact hg.memberNext he
  · exact .pure rfl (by simp)

theorem construction {news : List Position} (hnews : ∀ pos ∈ news, S pos) :
    ReadsExpr S (w + 2) 0 (g.construction news) := by
  induction news with
  | nil => exact hg.primary
  | cons pos inner ih =>
    rw [List.forall_mem_cons] at hnews
    refine (ih hnews.2).bind fun base hbase => (hg.members hbase).bind fun callee hcallee => ?_
    refine (neutral_isNext _).skip fun b => ?_
    extract_lets finish
    have hfinish (args : List Element)
        (hargs : ∀ x ∈ args.filterMap Element.part?, Grown S (w + 1) x) :
        ReadsExpr S (w + 2) (tally callee.nodes + tally (Element.nodes args)) (finish args) := by
      refine (allots_newNode hnews.1).step fun n hn => .pure ?_ (.ofStem rfl rfl hn hcallee hargs)
      simp [Expr.nodes, Expr.asFunc?, Expr.node]
      abel
    split
    · exact hg.arguments.step hfinish
    · refine (Allots.pure (f := fun args => tally (Element.nodes args)) ?_ ?_).step hfinish
      · simp [Element.nodes]
      · simp

omit hg in
theorem newKeyword : Allots S 0 newKeyword (fun o => o.elim 0 fun _ => 0)
    fun o => ∀ pos ∈ o, S pos := by
  intro c
  refine .look (run_position c) ((allotsAt_accept (by simp)).step fun b c₁ _ hb => ?_)
  split
  · next h =>
    refine Allots.spend (Tally.wastes_add_right rfl) (.pure ?_ ?_) c₁
    · rfl
    · simpa using hb h
  · exact Allots.pure (by simp_all) (by simp) c₁

theorem callChain : ReadsExpr S (w + 2) 0 g.callChain := by
  refine neutral_budget.skip fun fuel => ?_
  have hnews : Allots S 0 (collect Grammar.newKeyword fuel) (fun _ => 0) fun news =>
      ∀ pos ∈ news, S pos := allots_collect ⟨rfl, fun _ _ => rfl⟩ newKeyword fuel
  refine hnews.step fun news hnews => ?_
  rw [add_zero]
  refine (hg.construction hnews).bind fun first hfirst => neutral_budget.skip fun fuel => ?_
  refine allots_extend (f := fun e : Expr => tally e.nodes) (fun e he => ?_) fuel hfirst
  refine (neutral_isNext _).skip fun b => ?_
  split
  · refine hg.arguments.step fun args hargs => ?_
    refine (allots_newNode he.pos_expr).step fun n hn => .pure ?_ ?_
    · simp [Expr.nodes, Expr.asFunc?, Expr.node]
      abel
    · rintro _ ⟨⟩
      exact .ofStem rfl rfl hn he hargs
  · refine neutral_isMemberNext.skip fun b => ?_
    split
    · exact hg.memberNext he
    · refine neutral_isTemplateNext.skip fun b => ?_
      split
      · refine hg.template.step fun ⟨_, _, parts⟩ ht => ?_
        refine (allots_newNode he.pos_expr).step fun n hn => .pure ?_ ?_
        · simp [Expr.nodes, Expr.asFunc?, Expr.node]
          abel
        · rintro _ ⟨⟩
          exact .ofStem rfl rfl hn he (List.forall_mem_map.2 ht)
      · exact .pure rfl (by simp)

theorem trailingUpdate : ReadsExpr S (w + 3) 0 g.trailingUpdate := by
  refine hg.callChain.bind fun e he => neutral_onNewLine.skip fun b => ?_
  have hle : Grown S (w + 3) (.expr e) := he.mono (Nat.le_succ _)
  split
  · exact .pure rfl hle
  · refine neutral_peek.skip fun kind => ?_
    split
    · exact .pure rfl hle
    · refine neutral_advance.skip fun _ => (allots_newNode he.pos_expr).step fun n hn => .pure ?_ ?_
      · simp [Expr.nodes, Expr.asFunc?, Expr.node, add_comm]
      · exact .expr rfl rfl hn (List.forall_mem_singleton.2 he)

theorem unary : ReadsExpr S (w + 3) 0 g.unary := by
  refine allots_next fun c hpos => ?_
  have hgrown {e : Expr} (he : Grown S (w + 1) (.expr e)) : Grown S (w + 3) (.expr e) :=
    he.mono (by omega)
  split
  · next op hop =>
    have hkind : c.kind ≠ .eof := fun hkind => by simp [hkind, UnaryOp.ofToken?] at hop
    refine neutral_advance.skip (fun _ => hg.operand.bind fun e he => ?_) c
    refine (allots_newNode (hpos hkind)).step fun n hn => .pure ?_ (hgrown ?_)
    · simp [Expr.nodes, Expr.asFunc?, Expr.node, add_comm]
    · exact .expr rfl rfl hn (List.forall_mem_singleton.2 he)
  · split
    · next op hop =>
      have hkind : c.kind ≠ .eof := fun hkind => by simp [hkind, UpdateOp.ofToken?] at hop
      refine neutral_advance.skip (fun _ => hg.operand.bind fun e he => ?_) c
      refine (allots_newNode (hpos hkind)).step fun n hn => .pure ?_ (hgrown ?_)
      · simp [Expr.nodes, Expr.asFunc?, Expr.node, add_comm]
      · exact .expr rfl rfl hn (List.forall_mem_singleton.2 he)
    · exact hg.trailingUpdate c

theorem binary (least : Nat) : ReadsExpr S (w + (11 - least)) 0 (g.binary least) := by
  rw [Grammar.binary]
  refine hg.operand.bind fun first hfirst => neutral_budget.skip fun fuel => ?_
  refine allots_extend (f := fun e : Expr => tally e.nodes) (fun left hleft => ?_) fuel
    (hfirst.mono (Nat.le_add_right ..))
  rw [joinNext]
  refine neutral_peek.skip fun kind => ?_
  split
  · exact .pure rfl (by simp)
  · next c _ =>
    split
    · exact .pure rfl (by simp)
    · next hc =>
      have hle := c.precedence_le
      refine neutral_advance.skip fun _ => (binary (c.precedence + 1)).step fun right hright => ?_
      refine (allots_newNode hleft.pos_expr).step fun n hn => .pure ?_ ?_
      · cases c <;> simp [Connective.apply, Expr.nodes, Expr.asFunc?, Expr.node] <;> abel
      · rintro _ ⟨⟩
        obtain ⟨v, hv⟩ : ∃ v, w + (11 - least) = v + 1 := ⟨w + (10 - least), by omega⟩
        rw [hv] at hleft ⊢
        have hbranch := List.forall_mem_singleton.2 (hright.mono (v := v) (by omega))
        cases c <;> exact .ofStem rfl rfl hn hleft hbranch
termination_by 11 - least

theorem conditional : ReadsExpr S (w + 11) 0 g.conditional := by
  refine (hg.binary _).bind fun test htest => (neutral_accept _).skip fun b => ?_
  split
  · refine hg.assignment.step fun consequent hthen => (neutral_expect _).skip fun _ => ?_
    refine hg.assignment.step fun alternate helse => ?_
    refine (allots_newNode htest.pos_expr).step fun n hn => .pure ?_ (.expr rfl rfl hn ?_)
    · simp [Expr.nodes, Expr.asFunc?, Expr.node]
      abel
    · have hthen := hthen.mono (Nat.le_add_right w 10)
      have helse := helse.mono (Nat.le_add_right w 10)
      simpa [Expr.branches] using ⟨htest, hthen, helse⟩
  · exact .pure rfl (htest.mono (Nat.le_succ _))

omit hg in
/-- Where an arrow function is next, the end is not. -/
theorem isArrowNextAt {c c₁ : Cursor} {b : Bool} (h : isArrowNext.run c = .ok (b, c₁)) :
    c₁ = c ∧ (b = true → c.kind ≠ .eof) := by
  obtain ⟨c₂, c₃, hget, h⟩ := exists_of_run_bind_eq_ok h
  cases hget
  split at h
  · cases h
    exact ⟨rfl, by simp⟩
  · next t ts hrest =>
    have hkind : c.kind = t.kind := by simp [Cursor.kind, hrest]
    rw [hkind]
    split at h
    · next ht =>
      rw [ht]
      split at h <;> cases h <;> exact ⟨rfl, by simp⟩
    · next ht =>
      cases h
      exact ⟨rfl, by simp [ht]⟩
    · cases h
      exact ⟨rfl, by simp⟩

theorem assignmentOrArrow : ReadsExpr S (w + 12) 0 g.assignmentOrArrow := by
  have htarget (left : Expr) (hleft : Grown S (w + 11) (.expr left)) :
      ReadsExpr S (w + 12) (tally left.nodes) (do
        let target ← left.toPattern
        let value ← g.assignment
        return Expr.assign (← newNode left.pos) target value) := by
    refine (Allots.lift (P := fun p => Grown S (w + 11) (.pattern p)) fun target h =>
      ⟨(Expr.of_toPattern (S := S) h).1.symm, (Expr.of_toPattern h).2 _ hleft⟩).bind fun target ht => ?_
    refine hg.assignment.step fun value hvalue => ?_
    refine (allots_newNode hleft.pos_expr).step fun n hn => .pure ?_ (.expr rfl rfl hn ?_)
    · simp [Expr.nodes, Expr.asFunc?, Expr.node]
      abel
    · have hvalue := hvalue.mono (Nat.le_add_right w 11)
      simpa [Expr.branches] using ⟨ht, hvalue⟩
  intro c
  have hnext : AllotsAt S c 0 isArrowNext (fun _ => 0) fun b => b = true → c.kind ≠ .eof :=
    fun hc b c₁ hrun => by
      obtain ⟨rfl, hb⟩ := isArrowNextAt hrun
      exact ⟨.refl c₁ 0, hc, hb⟩
  refine hnext.step fun b c₁ hrun hb => ?_
  obtain rfl := (isArrowNextAt hrun).1
  rw [add_zero]
  split
  · next harrow =>
    intro hc e c' hrun
    exact (hg.arrowFunctionAt (hb harrow) hc e c' hrun).imp_right (.imp_right (·.mono (by omega)))
  · refine hg.conditional.bind (fun left hleft => (neutral_accept _).skip fun b => ?_) c₁
    split
    · split
      · refine hg.assignment.step fun value hvalue => ?_
        refine (allots_newNode hleft.pos_expr).step fun n hn => .pure ?_ (.expr rfl rfl hn ?_)
        · simp [Expr.nodes, Expr.asFunc?, Expr.node]
          abel
        · have hvalue := hvalue.mono (Nat.le_add_right w 11)
          simpa [Expr.branches] using ⟨hleft, hvalue⟩
      · exact htarget _ hleft
      · exact htarget _ hleft
      · exact htarget _ hleft
      · exact .throw _
    · exact .pure rfl (hleft.mono (Nat.le_succ _))

theorem declarator : Allots S 0 g.declarator (fun d => tally (Declarator.nodes [d]))
    fun d => ∀ x ∈ d.parts, Grown S w x := by
  refine neutral_position.skip fun pos => (nameless hg.target).step fun target htarget => ?_
  refine (neutral_accept _).skip fun b => ?_
  split
  · rw [map_eq_pure_bind, bind_assoc]
    refine hg.assignment.step fun e he => .pure ?_ ?_
    · simp [Declarator.nodes]
    · simpa [Declarator.parts] using ⟨htarget, he⟩
  · exact .pure (by simp [Declarator.nodes]) (by simpa [Declarator.parts] using htarget)

theorem declarators : Allots S 0 g.declarators (fun ds => tally (Declarator.nodes ds))
    fun ds => ∀ x ∈ ds.flatMap Declarator.parts, Grown S w x :=
  neutral_advance.skip fun _ => neutral_budget.skip fun fuel =>
    (allots_separated Declarator.sums_nodes hg.declarator fuel).imp fun _ =>
      List.forall_mem_flatMap.2

/-- A `return` statement stands at its keyword. -/
theorem returnStatementAt {c : Cursor} (hkind : c.kind ≠ .eof) : AllotsAt S c 0 g.returnStatement
    (fun s => tally s.nodes) fun s => Grown S (w + 2) (.stmt s) := by
  refine .look (run_position c) fun hc => ?_
  have hpos := List.forall_mem_singleton.2 (hc.position hkind)
  refine (neutral_advance.skip fun _ => (neutral_isNext _).skip fun b => ?_) c hc
  refine neutral_endsHere.skip fun b' => ?_
  split
  · refine neutral_endStatement.skip fun _ => .pure (by simp [Stmt.nodes]) ?_
    exact .stmt hpos (by simp [Stmt.branches])
  · rw [map_eq_pure_bind, bind_assoc]
    refine hg.expression.step fun e he => neutral_endStatement.skip fun _ => .pure ?_ ?_
    · simp [Stmt.nodes]
    · exact .stmt hpos (by simpa [Stmt.branches] using he)

theorem ifStatement : ReadsStmt S (w + 2) g.ifStatement := by
  refine neutral_position.skip fun pos => neutral_advance.skip fun _ => ?_
  refine hg.parenthesized.step fun test htest => hg.statement.step fun consequent hthen => ?_
  have hthen := hthen.mono (Nat.le_succ w)
  refine (neutral_accept _).skip fun b => ?_
  split
  · rw [map_eq_pure_bind, bind_assoc]
    refine hg.statement.step fun alternate helse => .pure ?_ (.stmt (by simp [Part.sites]) ?_)
    · simp [Stmt.nodes, add_assoc]
    · have helse := helse.mono (Nat.le_succ w)
      simpa [Stmt.branches] using ⟨htest, hthen, helse⟩
  · refine .pure (by simp [Stmt.nodes]) (.stmt (by simp [Part.sites]) ?_)
    simpa [Stmt.branches] using ⟨htest, hthen⟩

theorem whileStatement : ReadsStmt S (w + 2) g.whileStatement := by
  refine neutral_position.skip fun pos => neutral_advance.skip fun _ => ?_
  refine hg.parenthesized.step fun test htest => hg.statement.step fun body hbody => ?_
  have hbody := hbody.mono (Nat.le_succ w)
  refine .pure (by simp [Stmt.nodes]) (.stmt (by simp [Part.sites]) ?_)
  simpa [Stmt.branches] using ⟨htest, hbody⟩

theorem doWhileStatement : ReadsStmt S (w + 2) g.doWhileStatement := by
  refine neutral_position.skip fun pos => neutral_advance.skip fun _ => ?_
  refine hg.statement.step fun body hbody => (neutral_expect _).skip fun _ => ?_
  refine hg.parenthesized.step fun test htest => (neutral_accept _).skip fun _ => ?_
  have hbody := hbody.mono (Nat.le_succ w)
  refine .pure (by simp [Stmt.nodes, add_comm]) (.stmt (by simp [Part.sites]) ?_)
  simpa [Stmt.branches] using ⟨hbody, htest⟩

theorem forInit : Allots S 0 g.forInit (fun i => tally i.nodes)
    fun i => ∀ x ∈ i.parts, Grown S (w + 1) x := by
  refine neutral_peek.skip fun kind => ?_
  split
  · refine hg.declarators.step fun ds hds => .pure (by simp [ForInit.nodes]) fun x hx => ?_
    exact (hds x hx).mono (Nat.le_succ w)
  · split
    · exact .pure (by simp [ForInit.nodes]) (by simp [ForInit.parts])
    · refine hg.expression.step fun e he => .pure (by simp [ForInit.nodes]) ?_
      exact List.forall_mem_singleton.2 he

theorem optionalBefore (close : TokenKind) : Allots S 0 (g.optionalBefore close)
    (fun o => tally (Expr.nodesOption o)) fun o => ∀ e ∈ o, Grown S (w + 1) (.expr e) := by
  refine (neutral_isNext _).skip fun b => ?_
  split
  · exact .pure (by simp [Expr.nodesOption]) (by simp)
  · refine hg.expression.map (fun e => ?_) fun e he => ?_
    · simp [Expr.nodesOption]
    · simpa using he

theorem forStatement : ReadsStmt S (w + 2) g.forStatement := by
  refine neutral_position.skip fun pos => neutral_advance.skip fun _ => ?_
  refine (neutral_expect _).skip fun _ => hg.forInit.step fun init hinit => ?_
  refine (neutral_expect _).skip fun _ => (hg.optionalBefore _).step fun test htest => ?_
  refine (neutral_expect _).skip fun _ => (hg.optionalBefore _).step fun update hupdate => ?_
  refine (neutral_expect _).skip fun _ => hg.statement.step fun body hbody => .pure ?_ ?_
  · simp [Stmt.nodes, add_assoc]
  · refine .stmt (by simp [Part.sites])
      (List.forall_mem_append.2 ⟨List.forall_mem_append.2 ⟨hinit, ?_⟩, ?_⟩)
    · simpa [or_imp, forall_and] using ⟨htest, hupdate⟩
    · exact List.forall_mem_singleton.2 (hbody.mono (Nat.le_succ w))

theorem anyStatement : ReadsStmt S (w + 2) g.anyStatement := by
  have hdeclaration (pos : Position) (kind : DeclKind) :
      ReadsStmt S (w + 2) (anyStatement.declaration g pos kind) := by
    refine hg.declarators.step fun ds hds => neutral_endStatement.skip fun _ => .pure ?_ ?_
    · simp [Stmt.nodes]
    · exact .stmt (by simp [Part.sites]) fun x hx => (hds x hx).mono (Nat.le_succ w)
  have hlone {s : Stmt} (hnodes : s.nodes = []) (hs : (Part.stmt s).sites = [])
      (h : s.branches = []) : ReadsStmt S (w + 2) (pure s) :=
    .pure (by simp [hnodes]) (.stmt (by simp [hs]) (by simp [h]))
  refine allots_next fun c hpos => ?_
  split
  · exact hdeclaration c.position .var c
  · exact hdeclaration c.position .let_ c
  · exact hdeclaration c.position .const c
  · next hkind =>
    refine (allotsAt_advance (by simp [hkind])).step fun _ c₁ _ _ => ?_
    refine Allots.spend (by simpa using c.credit_wastes) ?_ c₁
    refine (hg.function .declaration (hpos (by simp [hkind])) (fun _ => rfl) (fun _ => rfl) ?_).bind
      fun f hf => .pure (by simp [Stmt.nodes]) (.stmt hf.1 hf.2)
    exact fun f hf => by simp [SyntaxNode.isInPlace, hf]
  · next hkind => exact hg.returnStatementAt (by simp [hkind])
  · exact hg.ifStatement c
  · exact hg.whileStatement c
  · exact hg.doWhileStatement c
  · exact hg.forStatement c
  · refine hg.block.step (fun b hb => .pure ?_ ?_) c
    · cases b
      simp [Stmt.nodes]
    · refine .stmt (by simp [Part.sites]) (List.forall_mem_map.2 fun s hs => ?_)
      exact (hb s hs).mono (Nat.le_succ w)
  · exact neutral_advance.skip (fun _ => hlone rfl rfl rfl) c
  · exact neutral_advance.skip (fun _ => neutral_endStatement.skip fun _ => hlone rfl rfl rfl) c
  · exact neutral_advance.skip (fun _ => neutral_endStatement.skip fun _ => hlone rfl rfl rfl) c
  · refine hg.expression.step (fun e he => neutral_endStatement.skip fun _ => .pure ?_ ?_) c
    · simp [Stmt.nodes]
    · exact .stmt (by simp [Part.sites]) (List.forall_mem_singleton.2 he)

theorem statements : Allots S 0 g.statements (fun ss => tally (Stmt.nodesList ss))
    fun ss => ∀ s ∈ ss, Grown S w (.stmt s) := by
  refine neutral_budget.skip fun fuel => ?_
  refine allots_collect Stmt.sums_nodesList ((neutral_isNext _).skip fun b => ?_) fuel
  split
  · exact .pure rfl (by simp)
  · exact hg.statement.map (fun s => rfl) fun s hs => by simpa using hs

end IsDense

end Grammar

/-- A level of the grammar adds at most twelve parts. -/
theorem isDense_grammar {S : Position → Prop} (n : Nat) : (grammar n).IsDense S (12 * n + 1) := by
  induction n with
  -- Too deep a nesting is an error, so that nothing is asked of the readers there.
  | zero => exact ⟨by omega, allots_fail _, allots_fail _, allots_fail _, allots_fail _⟩
  | succ n ih =>
    have hle (k : Nat) (hk : k ≤ 12) : 12 * n + 1 + k ≤ 12 * (n + 1) + 1 := by omega
    exact ⟨by omega, ih.anyStatement.imp fun _ h => h.mono (hle 2 (by omega)),
      ih.bindingTarget.imp fun _ h => h.mono (hle 2 (by omega)),
      ih.assignmentOrArrow.imp fun _ h => h.mono (hle 12 (by omega)),
      ih.unary.imp fun _ h => h.mono (hle 3 (by omega))⟩

theorem ids_tally (ns : List SyntaxNode) : (tally ns).1.1 = ns.map SyntaxNode.id := by
  induction ns with
  | nil => rfl
  | cons x ns ih =>
    cases hf : x.func? <;> simp [ih, SyntaxNode.tally, Tally.origin, Tally.names, hf]

theorem funcs_tally (ns : List SyntaxNode) :
    (tally ns).1.2.1 = (ns.filterMap SyntaxNode.func?).map Func.func := by
  induction ns with
  | nil => rfl
  | cons x ns ih =>
    cases hf : x.func? <;> simp [ih, SyntaxNode.tally, Tally.origin, Tally.names, hf]

theorem origins_tally (ns : List SyntaxNode) :
    (tally ns).2.1 = (ns.filterMap SyntaxNode.func?).map (·.node.pos) := by
  induction ns with
  | nil => rfl
  | cons x ns ih =>
    cases hf : x.func? <;> simp [ih, SyntaxNode.tally, Tally.origin, Tally.names, hf]

theorem names_tally (ns : List SyntaxNode) : (tally ns).2.2 =
    (ns.filterMap SyntaxNode.func?).flatMap fun f =>
      (f.params.filterMap Pattern.simpleName?).map (·.name) := by
  induction ns with
  | nil => rfl
  | cons x ns ih =>
    cases hf : x.func? <;> simp [ih, SyntaxNode.tally, Tally.origin, Tally.names, hf]

theorem isInPlace_of_func?_eq_none {x : SyntaxNode} (h : x.func? = none) : x.isInPlace = true := by
  cases x with
  | expr e => cases e <;> first | rfl | cases h
  | declaration f | method f => cases h
  | _ => rfl

theorem isInPlace_of_tally {ns : List SyntaxNode} (h : (tally ns).1.2.2 = 0) :
    ∀ x ∈ ns, x.isInPlace = true := by
  induction ns with
  | nil => simp
  | cons x ns ih =>
    rw [tally_cons, Prod.fst_add, Prod.snd_add, Prod.snd_add] at h
    have hx : x.tally.1.2.2 = 0 := Multiset.le_zero.1 (h ▸ Multiset.le_add_right _ _)
    have hns : (tally ns).1.2.2 = 0 := Multiset.le_zero.1 (h ▸ Multiset.le_add_left _ _)
    refine List.forall_mem_cons.2 ⟨?_, ih hns⟩
    cases hf : x.func? with
    | none => exact isInPlace_of_func?_eq_none hf
    | some f => simpa [SyntaxNode.tally, Tally.origin, Tally.names, hf] using hx

/-- The nodes and the functions are numbered without gaps, and every function is in its place. -/
structure Program.WellFormed (p : Program) : Prop where
  nodes : (p.nodes.map SyntaxNode.id).Perm (List.range p.nodeCount)
  funcs : (p.funcs.map Func.func).Perm (List.range p.funcCount)
  isInPlace : ∀ x ∈ p.nodes, x.isInPlace = true

theorem Program.exists_balance_of_ofTokens {tokens : List Token} {p : Program}
    (h : Program.ofTokens tokens = .ok p) :
    ∃ c, c.nextNode = p.nodeCount ∧ c.nextFunc = p.funcCount ∧
      Balance (.ofTokens tokens) c 0 (tally p.nodes) := by
  obtain ⟨⟨body, c⟩, hrun, hp⟩ := exists_of_bind_eq_ok h
  cases hp
  have hon : (Cursor.ofTokens tokens).On fun _ => True := fun _ _ _ => trivial
  exact ⟨c, rfl, rfl, ((isDense_grammar maxNesting).statements _ hon _ _ hrun).1⟩

theorem Program.wellFormed_of_ofTokens {tokens : List Token} {p : Program}
    (h : Program.ofTokens tokens = .ok p) : p.WellFormed := by
  obtain ⟨c, hnodes, hfuncs, hbalance⟩ := Program.exists_balance_of_ofTokens h
  have hstart : (Cursor.ofTokens tokens).allotted = 0 := rfl
  have htally : (tally p.nodes).1 = c.allotted := by
    have hsum := hbalance.numbers
    rw [hstart, Prod.fst_zero, add_zero, zero_add] at hsum
    exact hsum.symm
  refine ⟨?_, ?_, ?_⟩
  · rw [← Multiset.coe_eq_coe, ← ids_tally, htally, ← hnodes]
    rfl
  · rw [← Multiset.coe_eq_coe, Program.funcs, ← funcs_tally, htally, ← hfuncs]
    rfl
  · exact isInPlace_of_tally (by rw [htally]; rfl)

theorem Program.exists_of_ofSource {source : String} {p : Program}
    (h : Program.ofSource source = .ok p) :
    ∃ tokens, tokenize source = .ok tokens ∧ Program.ofTokens tokens = .ok p :=
  exists_of_bind_eq_ok h

theorem Cursor.unread_ofTokens (tokens : List Token) : (Cursor.ofTokens tokens).unread =
    (Multiset.ofList (tokens.map Token.pos),
      Multiset.ofList (tokens.filterMap fun t => t.kind.name?)) := by
  simp only [Cursor.unread, Cursor.ofTokens]
  induction tokens with
  | nil => rfl
  | cons t ts ih => cases hname : t.kind.name? <;> simp [ih, Token.marks, hname]

/-- Every function begins at a token of its own, and what a simple parameter is called is an
identifier among the tokens. -/
theorem Program.marks_le_of_ofTokens {tokens : List Token} {p : Program}
    (h : Program.ofTokens tokens = .ok p) :
    Multiset.ofList (p.funcs.map (·.node.pos)) ≤ tokens.map Token.pos ∧
    ∀ f ∈ p.funcs, ∀ param ∈ f.params, ∀ i, param.simpleName? = some i →
      ∃ t ∈ tokens, t.kind = .ident i.name := by
  obtain ⟨c, -, -, hbalance⟩ := Program.exists_balance_of_ofTokens h
  have hmarks : (tally p.nodes).2 ≤ (Cursor.ofTokens tokens).unread :=
    (le_add_self.trans hbalance.marks).trans_eq (add_zero _)
  rw [Cursor.unread_ofTokens] at hmarks
  refine ⟨origins_tally p.nodes ▸ hmarks.1, fun f hf param hparam i hi => ?_⟩
  have hname : i.name ∈ (tally p.nodes).2.2 := by
    rw [names_tally, Multiset.mem_coe, List.mem_flatMap]
    exact ⟨f, hf, List.mem_map.2 ⟨i, List.mem_filterMap.2 ⟨param, hparam, hi⟩, rfl⟩⟩
  obtain ⟨t, ht, hkind⟩ := List.mem_filterMap.1 (Multiset.mem_of_le hmarks.2 hname)
  refine ⟨t, ht, ?_⟩
  unfold TokenKind.name? at hkind
  split at hkind
  · simp_all
  · cases hkind

/-- The numbers of the nodes are those below the number of nodes, each of them once, and so are the
numbers of the functions. -/
theorem Program.numbers_perm_range {tokens : List Token} {p : Program}
    (h : Program.ofTokens tokens = .ok p) :
    (p.nodes.map SyntaxNode.id).Perm (List.range p.nodeCount) ∧
    (p.funcs.map Func.func).Perm (List.range p.funcCount) ∧
    ∀ x ∈ p.nodes, (∀ i, x.ident? = some i → x.id = i.node.id) ∧
      ∀ f, x.func? = some f → x.id = f.node.id := by
  have hp := Program.wellFormed_of_ofTokens h
  exact ⟨hp.nodes, hp.funcs, fun x _ =>
    ⟨fun i => SyntaxNode.id_of_ident?, fun f => SyntaxNode.id_of_func?⟩⟩

/-- Expressions become patterns here, and there are functions of three forms. -/
theorem Program.numbers_perm_range_of_targets : ∃ tokens p,
    tokenize "[a = 1, ...b] = \x7b f(x) \x7b\x7d \x7d; function g(\x7b c = () => c \x7d) \x7b\x7d" =
      .ok tokens ∧
    Program.ofTokens tokens = .ok p ∧ p.nodeCount = 17 ∧ p.funcCount = 3 ∧
    (p.nodes.map SyntaxNode.id).Perm (List.range p.nodeCount) ∧
    (p.funcs.map Func.func).Perm (List.range p.funcCount) := by
  obtain ⟨p, hp, htest⟩ := Program.exists_of_any
    "[a = 1, ...b] = \x7b f(x) \x7b\x7d \x7d; function g(\x7b c = () => c \x7d) \x7b\x7d"
    (fun p => p.nodeCount == 17 && p.funcCount == 3) (by decide +kernel)
  obtain ⟨tokens, htokens, hp⟩ := exists_of_bind_eq_ok hp
  obtain ⟨hnodes, hfuncs, -⟩ := Program.numbers_perm_range hp
  simp only [Bool.and_eq_true, beq_iff_eq] at htest
  exact ⟨tokens, p, htokens, hp, htest.1, htest.2, hnodes, hfuncs⟩

end TagCheck
