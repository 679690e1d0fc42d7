import TagCheck.Proofs.Check.Tour

/-! What the visits of a program are about: the nodes, functions and places that they name are those
of the program. -/
namespace TagCheck

def Role.In (r : Region) : Role → Prop
  | templateTag n => r.id n
  | functionName n => r.node n
  | plain | defaultValue | defaultTarget => True

/-- All that a visit names belongs to the region. -/
def Visit.In (r : Region) : Visit → Prop
  | infer n _ => r.id n
  | identifier i role => r.node i.node ∧ role.In r
  | enterFunction n f => r.id n ∧ r.func f
  | parameters params => ∀ p ∈ params, r.node p.node
  | leaveFunction pos _ result => r.pos pos ∧ ∀ n ∈ result, r.id n
  | return_ pos argument => r.return_ pos ∧ ∀ e ∈ argument, r.node e.node
  | condition code label n => (code.isConditional = true ∧ Text.OneLine label) ∧ r.node n
  | declare i => r.node i.node
  | assign n value target =>
    (∀ k ∈ n, r.id k) ∧ r.Has value.nodes value.returns ∧ ∀ i ∈ target.idents, r.node i.node
  | assignDefault n target value =>
    r.id n ∧ r.Has value.nodes value.returns ∧ ∀ i ∈ target.idents, r.node i.node
  | rest n argument => r.id n ∧ ∀ i ∈ argument.asIdent?, r.node i.node
  | spread pos argument _ => r.pos pos ∧ r.id argument
  | arrayLiteral n es => r.node n ∧ r.Has (Element.nodes es) (Element.returns es)
  | unary n _ argument | update n _ argument => r.id n ∧ r.node argument
  | binary n _ left right => r.node n ∧ r.node left ∧ r.node right
  | select n a b => r.id n ∧ r.id a ∧ r.id b
  | inherit n source => r.id n ∧ r.id source
  | call n callee args _ =>
    r.node n ∧ r.Has callee.nodes callee.returns ∧ r.Has (Element.nodes args) (Element.returns args)
  | annotate n _ outer => r.node n ∧ ∀ m ∈ outer, r.id m
  | template n _ _ quasi _ =>
    r.node n ∧ r.Has (Expr.nodesList quasi.parts) (Expr.returnsList quasi.parts)

variable {r : Region}

theorem Expr.node_of_has {e : Expr} (h : r.Has e.nodes e.returns) : r.node e.node :=
  h.nodes _ e.mem_nodes

theorem Pattern.node_of_has {p : Pattern} (h : r.Has p.nodes p.returns) : r.node p.node :=
  h.nodes _ p.mem_nodes

theorem Pattern.forall_node_of_list {ps : List Pattern}
    (h : r.Has (Pattern.nodesList ps) (Pattern.returnsList ps)) : ∀ p ∈ ps, r.node p.node :=
  fun p hp => Pattern.node_of_has (Pattern.has_list.1 h p hp)

theorem Visit.Of.in_region {outer : Option NodeId} {ns : List SyntaxNode} {qs : List Position}
    {v : Visit} (h : v.Of outer ns qs) (hr : r.Has ns qs) (houter : ∀ m ∈ outer, r.id m) :
    v.In r := by
  have htakes {n : Node} (h : v.Takes ns n) : r.node n := by
    obtain ⟨x, hx, rfl, -⟩ := h
    exact hr.nodes x hx
  have hid {k : NodeId} (h : ∃ m, v.Takes ns m ∧ m.id = k) : r.id k :=
    h.imp fun _ => And.imp_left htakes
  have hexpr {n : Node} (h : ∃ e, .expr e ∈ ns ∧ e.node = n) : r.node n := by
    obtain ⟨e, he, rfl⟩ := h
    exact hr.nodes _ he
  have hexprId {k : NodeId} (h : ∃ e, .expr e ∈ ns ∧ e.id = k) : r.id k := by
    obtain ⟨e, he, rfl⟩ := h
    exact ⟨_, hr.nodes _ he, rfl⟩
  have hident {i : Ident} (h : ∃ x ∈ ns, x.ident? = some i) : r.node i.node := by
    obtain ⟨x, hx, hi⟩ := h
    exact SyntaxNode.node_of_ident? hi ▸ hr.nodes x hx
  have hidents {target : Pattern} (h : target.nodes ⊆ ns) : ∀ i ∈ target.idents, r.node i.node :=
    fun i hi => hr.nodes _ (h (target.mem_nodes_of_mem_idents i hi))
  cases v with
  | infer => exact hid h
  | identifier i role =>
    refine ⟨hident h.1, ?_⟩
    cases role with
    | templateTag n => exact hid h.2
    | functionName n => exact h.2.elim
    | plain | defaultValue | defaultTarget => trivial
  | condition => exact ⟨h.1, hexpr h.2⟩
  | declare => exact hident h
  | assign => exact ⟨fun k hk => hid (h.1 k hk), hr.mono h.2.1.1 h.2.1.2, hidents h.2.2⟩
  | assignDefault => exact ⟨hid h.1, hr.mono h.2.1.1 h.2.1.2, hidents h.2.2⟩
  | rest n argument =>
    obtain ⟨⟨m, hm, rfl⟩, hargument⟩ := h
    refine ⟨⟨m, hr.nodes _ hm, rfl⟩, fun i hi => ?_⟩
    cases argument <;> cases hi
    exact hr.nodes _ hargument
  | spread pos argument =>
    obtain ⟨⟨x, hx, rfl⟩, hargument⟩ := h
    exact ⟨Region.pos_of_node (hr.nodes x hx), hexprId hargument⟩
  | unary | update => exact ⟨hid h.1, hexpr h.2⟩
  | binary => exact ⟨htakes h.1, hexpr h.2.1, hexpr h.2.2⟩
  | select => exact ⟨hid h.1, hexprId h.2.1, hexprId h.2.2⟩
  | inherit => exact ⟨hid h.1, hexprId h.2⟩
  | call => exact ⟨htakes h.1, hr.mono h.2.1.1 h.2.1.2, hr.mono h.2.2.1 h.2.2.2⟩
  | annotate => exact ⟨htakes h.1, h.2 ▸ houter⟩
  | template => exact ⟨htakes h.1, hr.mono h.2.1 h.2.2⟩
  | _ => exact h.elim

theorem Func.visits_in {f : Func} (place : Option String) (hn : r.node f.node) (hf : r.func f.func)
    (h : r.Has f.nodes f.returns) (hparams : ∀ v ∈ Pattern.visitsList f.params, v.In r)
    (hbody : ∀ v ∈ f.body.visits, v.In r) : ∀ v ∈ f.visits place, v.In r := by
  obtain ⟨node, func, form, name, params, body⟩ := f
  simp only [Func.nodes, Func.returns, Region.has_append, Region.has_name] at h
  obtain ⟨⟨hname, hhas⟩, hresult⟩ := h
  rw [Func.visits]
  simp only [List.forall_mem_append]
  refine ⟨⟨⟨⟨⟨?_, ?_⟩, hparams⟩, ?_⟩, hbody⟩, ?_⟩
  · simpa [Visit.In] using ⟨Region.id_of_node hn, hf⟩
  · cases name with
    | none => simp
    | some i => simpa [Visit.In, Role.In] using ⟨hname i rfl, hn⟩
  · simpa [Visit.In] using Pattern.forall_node_of_list hhas
  · refine List.forall_mem_singleton.2 ⟨Region.pos_of_node hn, fun n hn => ?_⟩
    cases body with
    | block b => cases hn
    | expr e =>
      cases hn
      exact Region.id_of_node (hresult.nodes _ e.mem_nodes)

theorem Tour.visits_in {outer : Option NodeId} {ns : List SyntaxNode} {qs : List Position}
    {rs : List Return} {vs : List Visit} (h : Tour outer ns qs rs vs) (hr : r.Has ns qs)
    (houter : ∀ m ∈ outer, r.id m) : ∀ v ∈ vs, v.In r := by
  induction h with
  | nil => simp
  | append _ _ ih ih' =>
    rw [Region.has_append] at hr
    exact List.forall_mem_append.2 ⟨ih hr.1 houter, ih' hr.2 houter⟩
  | swap _ ih =>
    rw [Region.has_append, and_comm, ← Region.has_append] at hr
    exact ih hr houter
  | cons _ _ ih => exact ih (Region.has_cons.1 hr).2 houter
  | anywhere _ ih => exact ih hr (by rintro _ ⟨⟩)
  | tag _ _ _ ih =>
    rw [Region.has_cons] at hr
    refine ih hr.2 ?_
    rintro _ ⟨⟩
    exact Region.id_of_node hr.1.1
  | visit _ hv ih =>
    exact List.forall_mem_append.2
      ⟨ih hr houter, List.forall_mem_singleton.2 (hv.in_region hr houter)⟩
  | array _ ih =>
    rw [Region.has_cons] at hr
    exact List.forall_mem_append.2 ⟨ih hr.2 houter, List.forall_mem_singleton.2 ⟨hr.1.1, hr.2⟩⟩
  | return_ pos _ hargument ih =>
    rw [Region.has_return] at hr
    exact List.forall_mem_append.2 ⟨ih hr.2 houter, List.forall_mem_singleton.2
      ⟨hr.1, fun e he => hr.2.nodes _ (hargument e he)⟩⟩
  | @function f x hx place _ _ ih ih' =>
    rw [Region.has_cons] at hr
    obtain ⟨⟨hn, hf⟩, hhas⟩ := hr
    have hparts := hhas
    rw [Func.nodes_eq, List.append_assoc, Region.has_name, Func.returns_eq, Region.has_append]
      at hparts
    exact Func.visits_in place (SyntaxNode.node_of_func? hx ▸ hn) (hf f hx) hhas
      (ih hparts.2.1 (by rintro _ ⟨⟩)) (ih' hparts.2.2 (by rintro _ ⟨⟩))

/-- The visits of a program in a region are about the region. -/
theorem Program.visits_in {p : Program} (h : r.Has p.nodes p.returns) : ∀ v ∈ p.visits, v.In r :=
  (Stmt.tourList p.body).visits_in h (by rintro _ ⟨⟩)

/-! What an assignment takes apart. -/

theorem Expr.has_arrayElements? {e : Expr} (h : r.Has e.nodes e.returns) :
    r.Has (Element.nodes ((Check.arrayElements? e).getD []))
      (Element.returns ((Check.arrayElements? e).getD [])) := by
  cases e with
  | array n es =>
    simp only [Expr.nodes, Expr.returns, Region.has_cons] at h
    exact h.2
  | _ => exact Region.has_nil

theorem Expr.has_objectProps? {e : Expr} (h : r.Has e.nodes e.returns) :
    r.Has (Property.nodes ((Check.objectProps? e).getD []))
      (Property.returns ((Check.objectProps? e).getD [])) := by
  cases e with
  | object n ps =>
    simp only [Expr.nodes, Expr.returns, Region.has_cons] at h
    exact h.2
  | _ => exact Region.has_nil

theorem Property.has_find? {key : String} {e : Expr} : {ps : List Property} →
    r.Has (Property.nodes ps) (Property.returns ps) → Property.find? key ps = some e →
      r.Has e.nodes e.returns
  | [], _, he => by cases he
  | .keyValue k v short :: ps, h, he => by
    simp only [Property.nodes, Property.returns, Region.has_append] at h
    cases k with
    | name name =>
      rw [Property.find?] at he
      split at he
      · cases he
        exact h.1.2
      · exact Property.has_find? h.2 he
    | computed c => exact Property.has_find? h.2 he
  | .method k f :: ps, h, he => by
    simp only [Property.nodes, Property.returns, Region.has_append, Region.has_cons] at h
    exact Property.has_find? h.2.2.2 he
  | .spread n v :: ps, h, he => by
    simp only [Property.nodes, Property.returns, Region.has_append, Region.has_cons] at h
    exact Property.has_find? h.2.2 he

end TagCheck
