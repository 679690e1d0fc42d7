import TagCheck.Proofs.Check.Tour
import TagCheck.Proofs.Scope.Functions

/-! Where the writes of a program go. The visits of a part of a program write to the nodes of that
part, and arguments give types to patterns only. Literals and sequences have one visit that writes
to them, and that of an array literal comes after those of its elements. -/
namespace TagCheck

/-- The visits write to the nodes `ns` and to the template whose tag they belong to. Among them
the elements of an array literal come before the literal. -/
structure Tidy (outer : Option NodeId) (ns : List SyntaxNode) (vs : List Visit) : Prop where
  owned (v : Visit) : v ∈ vs → ∀ k ∈ v.footprint, outer = some k ∨ ∃ x ∈ ns, x.id = k ∧ x.Owns v
  nodes_literal (n : Node) (es : List Element) :
    .arrayLiteral n es ∈ vs → (Expr.array n es).nodes ⊆ ns
  elements_literal (n : Node) (es : List Element) (seen : List Visit) :
    seen <+: vs → .arrayLiteral n es ∈ seen → Element.visits (some .array) es ⊆ seen

namespace Tidy

variable {outer : Option NodeId} {ns ns' : List SyntaxNode} {vs ws : List Visit} {v : Visit}
  {x : SyntaxNode}

theorem nil : Tidy outer ns [] where
  owned _ hv := by simp at hv
  nodes_literal _ _ h := by simp at h
  elements_literal n es seen hseen h := by simp [List.prefix_nil.1 hseen] at h

theorem mono (h : Tidy outer ns vs) (hns : ns ⊆ ns') : Tidy outer ns' vs where
  owned v hv k hk := by
    rcases h.owned v hv k hk with ho | ⟨x, hx, hid, howns⟩
    · exact Or.inl ho
    · exact Or.inr ⟨x, hns hx, hid, howns⟩
  nodes_literal n es hlit := List.Subset.trans (h.nodes_literal n es hlit) hns
  elements_literal := h.elements_literal

theorem cons (h : Tidy outer ns vs) : Tidy outer (x :: ns) vs := h.mono (List.subset_cons_self x ns)

/-- Visits of one part after those of another. -/
theorem append (h : Tidy outer ns vs) (h' : Tidy outer ns' ws) :
    Tidy outer (ns ++ ns') (vs ++ ws) where
  owned v hv := by
    rcases List.mem_append.1 hv with hv | hv
    · exact (h.mono (List.subset_append_left ns ns')).owned v hv
    · exact (h'.mono (List.subset_append_right ns ns')).owned v hv
  nodes_literal n es hlit := by
    rcases List.mem_append.1 hlit with hlit | hlit
    · exact List.Subset.trans (h.nodes_literal n es hlit) (List.subset_append_left ns ns')
    · exact List.Subset.trans (h'.nodes_literal n es hlit) (List.subset_append_right ns ns')
  elements_literal n es seen hseen hlit := by
    rcases List.prefix_or_prefix_of_prefix hseen (List.prefix_append vs ws) with hvs | ⟨seen', rfl⟩
    · exact h.elements_literal n es seen hvs hlit
    · have hseen' := (List.prefix_append_right_inj vs).1 hseen
      rcases List.mem_append.1 hlit with hlit | hlit
      · have hsub := h.elements_literal n es vs (List.prefix_refl vs) hlit
        exact List.Subset.trans hsub (List.subset_append_left vs seen')
      · have hsub := h'.elements_literal n es seen' hseen' hlit
        exact List.Subset.trans hsub (List.subset_append_right vs seen')

/-- More visits of the same part. -/
theorem then_ (h : Tidy outer ns vs) (h' : Tidy outer ns ws) : Tidy outer ns (vs ++ ws) :=
  (h.append h').mono (by simp)

/-- What belongs to no template may belong to any. -/
theorem anywhere (h : Tidy none ns vs) : Tidy outer ns vs where
  owned v hv k hk := Or.inr ((h.owned v hv k hk).resolve_left (by simp))
  nodes_literal := h.nodes_literal
  elements_literal := h.elements_literal

/-- What belongs to a template writes to that, too. -/
theorem within (h : Tidy (some x.id) ns vs) (hx : x.IsOpen) : Tidy outer (x :: ns) vs where
  owned v hv k hk := by
    rcases h.owned v hv k hk with ho | ⟨y, hy, hid, howns⟩
    · exact Or.inr ⟨x, List.mem_cons_self .., Option.some.inj ho, hx v⟩
    · exact Or.inr ⟨y, List.mem_cons_of_mem x hy, hid, howns⟩
  nodes_literal n es hlit :=
    List.Subset.trans (h.nodes_literal n es hlit) (List.subset_cons_self x ns)
  elements_literal := h.elements_literal

theorem single (hv : ∀ n es, v ≠ .arrayLiteral n es)
    (h : ∀ k ∈ v.footprint, outer = some k ∨ ∃ x ∈ ns, x.id = k ∧ x.Owns v) :
    Tidy outer ns [v] where
  owned w hw := by
    obtain rfl := List.mem_singleton.1 hw
    exact h
  nodes_literal n es hlit := absurd (List.mem_singleton.1 hlit).symm (hv n es)
  elements_literal n es seen hseen hlit :=
    absurd (List.mem_singleton.1 (hseen.subset hlit)).symm (hv n es)

/-- A node after its parts, with the visit that writes to it. -/
theorem own (h : Tidy outer ns vs) (hv : ∀ n es, v ≠ .arrayLiteral n es)
    (hk : v.footprint ⊆ [x.id]) (hx : x.Owns v) : Tidy outer (x :: ns) (vs ++ [v]) := by
  refine h.cons.then_ (single hv fun k hmem => Or.inr ⟨x, List.mem_cons_self .., ?_, hx⟩)
  exact (List.mem_singleton.1 (hk hmem)).symm

/-- A visit that writes to no node. -/
theorem quiet (h : Tidy outer ns vs) (hv : v.footprint = [])
    (hlit : ∀ n es, v ≠ .arrayLiteral n es) :
    Tidy outer ns (vs ++ [v]) :=
  h.then_ (single hlit (by simp [hv]))

theorem array {n : Node} {es : List Element} (h : Tidy outer ns (Element.visits (some .array) es))
    (hns : (Expr.array n es).nodes = .expr (.array n es) :: ns) :
    Tidy outer (.expr (.array n es) :: ns)
      (Element.visits (some .array) es ++ [Visit.arrayLiteral n es]) where
  owned v hv k hk := by
    rcases List.mem_append.1 hv with hv | hv
    · exact h.cons.owned v hv k hk
    · obtain rfl := List.mem_singleton.1 hv
      refine Or.inr ⟨_, List.mem_cons_self .., (List.mem_singleton.1 hk).symm, ?_⟩
      rintro e ws ⟨⟩ ⟨⟩
      exact List.mem_singleton_self _
  nodes_literal m es' hlit := by
    rcases List.mem_append.1 hlit with hlit | hlit
    · exact List.Subset.trans (h.nodes_literal m es' hlit) (List.subset_cons_self ..)
    · cases List.mem_singleton.1 hlit
      exact hns ▸ List.Subset.refl _
  elements_literal m es' seen hseen hlit := by
    rcases List.prefix_concat_iff.1 hseen with rfl | hseen
    · rcases List.mem_append.1 hlit with hlit | hlit
      · have hsub := h.elements_literal m es' _ (List.prefix_refl _) hlit
        exact List.Subset.trans hsub (List.subset_append_left ..)
      · cases List.mem_singleton.1 hlit
        exact List.subset_append_left ..
    · exact h.elements_literal m es' seen hseen hlit

end Tidy

/-- An operator after its operands. -/
theorem Tidy.operator {e : Expr} {ns : List SyntaxNode} {vs : List Visit} {v : Visit}
    {outer : Option NodeId} (h : Tidy none ns vs) (he : e.ownVisits? = none)
    (hk : v.footprint ⊆ [e.id]) (hv : ∀ n es, v ≠ .arrayLiteral n es) :
    Tidy outer (.expr e :: ns) (vs ++ [v]) :=
  h.anywhere.own hv hk (SyntaxNode.isOpen_expr he v)

theorem SyntaxNode.isOpen_of_ident? {x : SyntaxNode} {i : Ident} (h : x.ident? = some i) :
    x.IsOpen := by
  cases x with
  | expr e => cases e <;> first | exact isOpen_expr rfl | cases h
  | _ => exact fun _ _ _ h => nomatch h

theorem SyntaxNode.isOpen_of_func? {x : SyntaxNode} {f : Func} (h : x.func? = some f) :
    x.IsOpen := by
  cases x with
  | expr e => cases e <;> first | exact isOpen_expr rfl | cases h
  | _ => exact fun _ _ _ h => nomatch h

theorem Visit.Of.owned {outer : Option NodeId} {ns : List SyntaxNode} {qs : List Position}
    {v : Visit} (h : v.Of outer ns qs) :
    ∀ k ∈ v.footprint, outer = some k ∨ ∃ x ∈ ns, x.id = k ∧ x.Owns v := by
  have htakes {k : NodeId} (h : ∃ m, v.Takes ns m ∧ m.id = k) :
      outer = some k ∨ ∃ x ∈ ns, x.id = k ∧ x.Owns v := by
    obtain ⟨_, ⟨x, hx, rfl, -, howns⟩, rfl⟩ := h
    exact .inr ⟨x, hx, x.id_node.symm, howns⟩
  have hidents {target : Pattern} (h : target.nodes ⊆ ns) {k : NodeId}
      (hk : k ∈ target.idents.map (·.node.id)) :
      outer = some k ∨ ∃ x ∈ ns, x.id = k ∧ x.Owns v := by
    obtain ⟨i, hi, rfl⟩ := List.mem_map.1 hk
    exact .inr ⟨_, h (target.mem_nodes_of_mem_idents i hi), rfl, SyntaxNode.isOpen_pattern _ _⟩
  intro k hk
  cases v with
  | infer =>
    obtain rfl := List.mem_singleton.1 hk
    exact htakes h
  | unary | update | select | inherit =>
    obtain rfl := List.mem_singleton.1 hk
    exact htakes h.1
  | binary | call =>
    obtain rfl := List.mem_singleton.1 hk
    exact htakes ⟨_, h.1, rfl⟩
  | identifier i role =>
    have hident {k : NodeId} (hk : k = i.node.id) :
        outer = some k ∨ ∃ x ∈ ns, x.id = k ∧ x.Owns (identifier i role) := by
      obtain ⟨x, hx, hi⟩ := h.1
      exact .inr ⟨x, hx, hk ▸ SyntaxNode.id_of_ident? hi, SyntaxNode.isOpen_of_ident? hi _⟩
    cases role with
    | templateTag n =>
      rcases List.mem_cons.1 hk with hk | hk
      · exact hident hk
      · obtain rfl := List.mem_singleton.1 hk
        exact htakes h.2
    | functionName n => exact h.2.elim
    | plain | defaultValue | defaultTarget => exact hident (List.mem_singleton.1 hk)
  | assign n value target =>
    rcases List.mem_append.1 hk with hk | hk
    · exact htakes (h.1 k (Option.mem_toList.1 hk))
    · exact hidents h.2.2 hk
  | assignDefault n target value =>
    rcases List.mem_cons.1 hk with rfl | hk
    · exact htakes h.1
    · exact hidents h.2.2 hk
  | rest n argument =>
    obtain rfl := List.mem_singleton.1 hk
    obtain ⟨⟨m, hm, rfl⟩, -⟩ := h
    exact .inr ⟨_, hm, rfl, SyntaxNode.isOpen_pattern _ _⟩
  | annotate n text outer' =>
    rcases List.mem_cons.1 hk with rfl | hk
    · exact htakes ⟨_, h.1, rfl⟩
    · exact .inl (h.2 ▸ Option.mem_toList.1 hk)
  | arrayLiteral | enterFunction => exact h.elim
  | _ => cases hk

/-- The visits of a function write to its own node, too, which is that of its place. -/
theorem Tidy.function {f : Func} {x : SyntaxNode} (hx : x.func? = some f) (place : Option String)
    (hparams : Tidy none (Pattern.nodesList f.params) (Pattern.visitsList f.params))
    (hbody : Tidy none f.body.nodes f.body.visits) : Tidy none (x :: f.nodes) (f.visits place) := by
  obtain ⟨node, func, form, name, params, body⟩ := f
  have hopen := SyntaxNode.isOpen_of_func? hx
  have hid := SyntaxNode.id_of_func? hx
  rw [Func.visits, Func.nodes]
  have henter : Tidy none [x] [.enterFunction node.id func] :=
    Tidy.nil.own (by rintro _ _ ⟨⟩) (by simp [Visit.footprint, hid]) (hopen _)
  have hname : Tidy none (x :: name.toList.map .name)
      (name.map fun i => Visit.identifier i (.functionName node)).toList := by
    cases name with
    | none => exact .nil
    | some i =>
      refine .single (by rintro _ _ ⟨⟩) fun k hk => Or.inr ?_
      simp only [Visit.footprint, List.mem_cons, List.not_mem_nil, or_false] at hk
      rcases hk with rfl | rfl
      · exact ⟨.name i, by simp, rfl, SyntaxNode.isOpen_name i _⟩
      · exact ⟨x, List.mem_cons_self .., hid, hopen _⟩
  have hopening := ((henter.mono (by simp)).then_ hname).append hparams
  exact ((hopening.quiet rfl (by rintro _ _ ⟨⟩)).append hbody).quiet rfl (by rintro _ _ ⟨⟩)

theorem Tour.tidy {outer : Option NodeId} {ns : List SyntaxNode} {qs : List Position}
    {rs : List Return} {vs : List Visit} (h : Tour outer ns qs rs vs) : Tidy outer ns vs := by
  induction h with
  | nil => exact .nil
  | append _ _ ih ih' => exact ih.append ih'
  | swap _ ih => exact ih.mono (by simp)
  | cons _ _ ih => exact ih.cons
  | anywhere _ ih => exact ih.anywhere
  | tag he _ _ ih => exact Tidy.within (x := .expr _) ih (SyntaxNode.isOpen_expr he)
  | visit _ hv ih =>
    refine ih.then_ (.single ?_ hv.owned)
    rintro n es rfl
    exact hv
  | array _ ih => exact ih.array (by rw [Expr.nodes])
  | return_ _ _ _ ih => exact ih.quiet rfl nofun
  | function hx place _ _ ih ih' => exact .function hx place ih ih'

theorem Expr.tidy (e : Expr) : Tidy none e.nodes (e.visits {}) := (e.tour {}).tidy

namespace Program

variable {p : Program} {config : Config}

theorem tidy (p : Program) : Tidy none p.nodes p.visits := (Stmt.tourList p.body).tidy

theorem pattern_of_implies {k : NodeId} (h : (p.checkEnv config).Implies k) :
    ∃ q, .pattern q ∈ p.nodes ∧ q.id = k := by
  obtain ⟨origin, f, hf, param, hparam, hk⟩ := h
  have hnodes : param.nodes ⊆ p.nodes := param_nodes_of_function? hf hparam
  rcases hk with rfl | ⟨i, hi⟩
  · exact ⟨param, hnodes param.mem_nodes, rfl⟩
  · unfold Check.Parameter.implied? at hi
    split at hi
    · simp at hi
    · obtain ⟨rfl, rfl⟩ : _ = i ∧ _ = k := by simpa using hi
      refine ⟨.ident _, hnodes ?_, rfl⟩
      simp [Pattern.nodes]
    · simp at hi

theorem WellFormed.eq_of_id_eq (hp : p.WellFormed) {x y : SyntaxNode} (hx : x ∈ p.nodes)
    (hy : y ∈ p.nodes) (h : x.id = y.id) : x = y :=
  List.inj_on_of_nodup_map hp.nodup_ids hx hy h

/-- No argument gives a type to an expression. -/
theorem WellFormed.not_implies (hp : p.WellFormed) {e : Expr} (he : .expr e ∈ p.nodes) :
    ¬ (p.checkEnv config).Implies e.id := by
  intro h
  obtain ⟨q, hq, hid⟩ := pattern_of_implies h
  cases hp.eq_of_id_eq hq he hid

/-- Literals and sequences are written to by their own visits only. -/
theorem WellFormed.mem_ownVisits (hp : p.WellFormed) {e : Expr} (he : .expr e ∈ p.nodes)
    {ws : List Visit} (hws : e.ownVisits? = some ws) {v : Visit} (hv : v ∈ p.visits)
    (hmem : e.id ∈ v.footprint) : v ∈ ws := by
  obtain ⟨x, hx, hid, howns⟩ := (p.tidy.owned v hv e.id hmem).resolve_left (by simp)
  obtain rfl := hp.eq_of_id_eq hx he hid
  exact howns e ws rfl hws

end Program

end TagCheck
