import TagCheck.Proofs.Program.Numbering
import TagCheck.Proofs.Program.Region

/-! Where the nodes of a program that has been read stand. Every node, and every `return` statement,
stands at a token that is not the end. -/
namespace TagCheck

open Parse

def Region.sites (S : Position → Prop) : Region := ⟨fun n => S n.pos, fun _ => True, S⟩

namespace Region

variable {S : Position → Prop} {x : SyntaxNode} {ns : List SyntaxNode} {rs : List Position}

theorem sites_cons :
    (sites S).Has (x :: ns) rs ↔ S x.node.pos ∧ (sites S).Has ns rs := by
  rw [has_cons]
  simp [sites]

theorem sites_return {q : Position} :
    (sites S).Has ns (q :: rs) ↔ S q ∧ (sites S).Has ns rs := by
  rw [has_return]
  rfl

end Region

namespace Part

@[simp] def nodes : Part → List SyntaxNode
  | stmt s => s.nodes
  | expr e => e.nodes
  | pattern p => p.nodes
  | spread n e => .spread n e :: e.nodes

@[simp] def returns : Part → List Position
  | stmt s => s.returns
  | expr e => e.returns
  | pattern p => p.returns
  | spread _ e => e.returns

/-- All nodes and `return` statements of a part stand at certain places. -/
@[simp] def StandsAt (S : Position → Prop) (x : Part) : Prop :=
  (Region.sites S).Has x.nodes x.returns

end Part

open TagCheck.Part (StandsAt)

section

variable {S : Position → Prop}

theorem Key.has_sites {k : Key} (h : ∀ e ∈ k.exprs, StandsAt S (.expr e)) :
    (Region.sites S).Has k.nodes k.returns := by
  cases k with
  | name => exact Region.has_nil
  | computed e => exact h e (List.mem_singleton_self e)

theorem Element.has_sites {es : List Element} (h : ∀ x ∈ es.filterMap Element.part?, StandsAt S x) :
    (Region.sites S).Has (Element.nodes es) (Element.returns es) := by
  rw [Element.has_list]
  rw [List.forall_mem_filterMap] at h
  intro e he
  have h := h e he
  cases e with
  | hole => exact Region.has_nil
  | item e => simpa [Element.nodes, Element.returns] using h _ rfl
  | spread n e => simpa [Element.nodes, Element.returns] using h _ rfl

theorem Body.has_sites {b : Body} (h : ∀ x ∈ b.parts, StandsAt S x) :
    (Region.sites S).Has b.nodes b.returns := by
  cases b with
  | block b =>
    cases b
    exact Stmt.has_list.2 (List.forall_mem_map.1 h)
  | expr e => exact h (.expr e) (List.mem_singleton_self _)

theorem Func.has_sites {f : Func} (hsites : ∀ q ∈ f.sites, S q) (h : ∀ x ∈ f.parts, StandsAt S x) :
    (Region.sites S).Has f.nodes f.returns := by
  obtain ⟨node, func, form, name, params, body⟩ := f
  obtain ⟨hparams, hbody⟩ := List.forall_mem_append.1 h
  rw [Func.nodes, Func.returns, List.append_assoc, Region.has_name, Region.has_append,
    Pattern.has_list]
  refine ⟨fun i hi => ?_, List.forall_mem_map.1 hparams, Body.has_sites hbody⟩
  exact List.forall_mem_map.1 hsites i (Option.mem_toList.2 hi)

theorem Property.has_sites {ps : List Property} (hsites : ∀ q ∈ ps.flatMap Property.sites, S q)
    (h : ∀ x ∈ ps.flatMap Property.parts, StandsAt S x) :
    (Region.sites S).Has (Property.nodes ps) (Property.returns ps) := by
  rw [Property.has_list]
  rw [List.forall_mem_flatMap] at hsites h
  intro p hp
  have hsites := hsites p hp
  have h := h p hp
  cases p with
  | keyValue key value shorthand =>
    rw [Property.parts, List.map_append, List.forall_mem_append] at h
    rw [Property.nodes, Property.returns, Region.has_append, Region.has_append]
    exact ⟨⟨Key.has_sites (List.forall_mem_map.1 h.1), h.2 _ (List.mem_singleton_self _)⟩,
      Region.has_nil⟩
  | method key f =>
    rw [Property.parts, List.forall_mem_append] at h
    rw [Property.sites, List.forall_mem_cons] at hsites
    rw [Property.nodes, Property.returns, Region.has_append, Region.sites_cons, Region.has_append]
    exact ⟨Key.has_sites (List.forall_mem_map.1 h.1), hsites.1, Func.has_sites hsites.2 h.2,
      Region.has_nil⟩
  | spread n e =>
    simpa [Property.nodes, Property.returns] using h _ (List.mem_singleton_self _)

theorem Declarator.has_sites {ds : List Declarator}
    (h : ∀ x ∈ ds.flatMap Declarator.parts, StandsAt S x) :
    (Region.sites S).Has (Declarator.nodes ds) (Declarator.returns ds) := by
  rw [Declarator.has_list]
  rw [List.forall_mem_flatMap] at h
  rintro ⟨pos, target, init⟩ hd
  have h := h _ hd
  rw [Declarator.parts, List.forall_mem_cons] at h
  cases init with
  | none => simpa [Declarator.nodes, Declarator.returns] using h.1
  | some e =>
    have hinit := h.2 _ (List.mem_singleton_self _)
    simpa [Declarator.nodes, Declarator.returns] using ⟨h.1, hinit⟩

theorem Pattern.standsAt {p : Pattern} (hp : S p.pos) (h : ∀ y ∈ p.branches, StandsAt S y) :
    StandsAt S (.pattern p) := by
  cases p with
  | ident i => exact Region.sites_cons.2 ⟨hp, Region.has_nil⟩
  | array n elements =>
    refine Region.sites_cons.2 ⟨hp, Pattern.has_elements.2 fun o ho p hp => ?_⟩
    exact h _ (List.mem_flatMap.2 ⟨o, ho, List.mem_map_of_mem (Option.mem_toList.2 hp)⟩)
  | object n props =>
    refine Region.sites_cons.2 ⟨hp, PatternProp.has_list.2 fun q hq => ?_⟩
    have hq := h _ (List.mem_map_of_mem hq)
    cases q <;> simpa [PatternProp.nodes, PatternProp.returns, PatternProp.pattern] using hq
  | withDefault n target value =>
    rw [Pattern.branches, List.forall_mem_cons, List.forall_mem_singleton] at h
    exact Region.sites_cons.2 ⟨hp, Region.has_append.2 h⟩
  | rest n argument => exact Region.sites_cons.2 ⟨hp, h _ (List.mem_singleton_self _)⟩

theorem Expr.standsAt {e : Expr} (hsites : ∀ q ∈ (Part.expr e).sites, S q)
    (hstem : ∀ y, e.stem? = some y → StandsAt S (.expr y))
    (h : ∀ y ∈ e.branches, StandsAt S y) : StandsAt S (.expr e) := by
  have hpos : S e.pos := by
    refine hsites _ ?_
    cases e <;> exact List.mem_cons_self ..
  -- One case for every way in which the nodes of an expression are listed.
  cases e
  case template n t =>
    cases t
    exact Region.sites_cons.2 ⟨hpos, Expr.has_list.2 (List.forall_mem_map.1 h)⟩
  case tagged n tag t =>
    cases t
    have ht := Expr.has_list.2 (List.forall_mem_map.1 h)
    exact Region.sites_cons.2 ⟨hpos, Region.has_append.2 ⟨hstem _ rfl, ht⟩⟩
  all_goals refine Region.sites_cons.2 ⟨hpos, ?_⟩
  case array n elements => exact Element.has_sites h
  case object n props => exact Property.has_sites (List.forall_mem_cons.1 hsites).2 h
  case function f => exact Func.has_sites (List.forall_mem_cons.1 hsites).2 h
  case unary | update => exact h _ (List.mem_singleton_self _)
  case binary | logical =>
    exact Region.has_append.2 ⟨hstem _ rfl, h _ (List.mem_singleton_self _)⟩
  case conditional n test consequent alternate =>
    simp only [Expr.branches, List.forall_mem_cons] at h
    obtain ⟨htest, hconsequent, halternate, -⟩ := h
    exact Region.has_append.2 ⟨Region.has_append.2 ⟨htest, hconsequent⟩, halternate⟩
  case assign n target value | assignMember n target value =>
    simp only [Expr.branches, List.forall_mem_cons] at h
    exact Region.has_append.2 ⟨h.1, h.2.1⟩
  case sequence n parts => exact Expr.has_list.2 (List.forall_mem_map.1 h)
  case call n callee args | new n callee args =>
    exact Region.has_append.2 ⟨hstem _ rfl, Element.has_sites h⟩
  case member n base key =>
    exact Region.has_append.2 ⟨hstem _ rfl, Key.has_sites (List.forall_mem_map.1 h)⟩
  all_goals exact Region.has_nil

theorem Stmt.standsAt {s : Stmt} (hsites : ∀ q ∈ (Part.stmt s).sites, S q)
    (h : ∀ y ∈ s.branches, StandsAt S y) : StandsAt S (.stmt s) := by
  have hoption {o : Option Expr} (h : ∀ e ∈ o, StandsAt S (.expr e)) :
      (Region.sites S).Has (Expr.nodesOption o) (Expr.returnsOption o) := by
    cases o with
    | none => exact Region.has_nil
    | some e => exact h e rfl
  cases s with
  | declare _ _ ds => exact Declarator.has_sites h
  | function f =>
    rw [Part.sites, List.forall_mem_cons] at hsites
    exact Region.sites_cons.2 ⟨hsites.1, Func.has_sites hsites.2 h⟩
  | return_ pos argument =>
    have hpos : S pos := List.forall_mem_singleton.1 hsites
    cases argument with
    | none => exact Region.sites_return.2 ⟨hpos, Region.has_nil⟩
    | some e => exact Region.sites_return.2 ⟨hpos, h (.expr e) (List.mem_singleton_self _)⟩
  | if_ _ t c a =>
    cases a with
    | none => simpa [Stmt.nodes, Stmt.returns, Stmt.branches] using h
    | some a => simpa [Stmt.nodes, Stmt.returns, Stmt.branches, and_assoc] using h
  | while_ _ t b => simpa [Stmt.nodes, Stmt.returns, Stmt.branches] using h
  | doWhile _ b t => simpa [Stmt.nodes, Stmt.returns, Stmt.branches, and_comm] using h
  | for_ _ init test update body =>
    simp only [Stmt.branches, List.map_append, List.forall_mem_append, List.forall_mem_map,
      Option.mem_toList, List.forall_mem_singleton] at h
    obtain ⟨⟨hinit, htest, hupdate⟩, hbody⟩ := h
    refine Region.has_append.2 ⟨Region.has_append.2 ⟨Region.has_append.2 ⟨?_, ?_⟩, ?_⟩, hbody⟩
    · cases init with
      | absent => exact Region.has_nil
      | declare _ ds => exact Declarator.has_sites hinit
      | expr e => exact hinit _ (List.mem_singleton_self _)
    · exact hoption htest
    · exact hoption hupdate
  | block b =>
    cases b
    exact Stmt.has_list.2 (List.forall_mem_map.1 h)
  | expr e => exact h (.expr e) (List.mem_singleton_self _)
  | break_ | continue_ | empty => exact Region.has_nil

theorem Part.Grown.standsAt {w : Nat} {x : Part} (h : x.Grown S w) : StandsAt S x := by
  induction h with
  | @grow w x hsites _ _ hstem hbranches =>
    cases x with
    | stmt s => exact Stmt.standsAt hsites hbranches
    | expr e =>
      exact Expr.standsAt hsites (fun y hy => hstem _ (by simp [Part.stem?, hy])) hbranches
    | pattern p => exact Pattern.standsAt (List.forall_mem_singleton.1 hsites) hbranches
    | spread n e =>
      exact Region.sites_cons.2 ⟨List.forall_mem_singleton.1 hsites,
        hbranches _ (List.mem_singleton_self _)⟩

end

/-- All of a program that is read from tokens stands at tokens that are not the end. -/
theorem Program.has_sites_of_ofTokens {tokens : List Token} {p : Program}
    (h : Program.ofTokens tokens = .ok p) :
    (Region.sites fun q => ∃ t ∈ tokens, t.kind ≠ .eof ∧ t.pos = q).Has p.nodes p.returns := by
  obtain ⟨⟨body, c⟩, hrun, hp⟩ := exists_of_bind_eq_ok h
  cases hp
  have hstart : (Cursor.ofTokens tokens).On fun q => ∃ t ∈ tokens, t.kind ≠ .eof ∧ t.pos = q :=
    fun t ht hkind => ⟨t, ht, hkind, rfl⟩
  have hbody := ((isDense_grammar maxNesting).statements _ hstart _ _ hrun).2.2
  exact Stmt.has_list.2 fun s hs => (hbody s hs).standsAt

end TagCheck
