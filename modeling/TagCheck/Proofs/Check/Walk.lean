import TagCheck.Proofs.Check.Ownership
import TagCheck.Proofs.Scope.Registration

/-! The visits of a program as a walk through its functions. Functions open and close like brackets,
each one once, and what belongs to a function itself is told from what belongs to the functions
inside it. -/
namespace TagCheck

/-- The visit is about nodes for which `P` holds, as far as types go, and leaves the innermost
function as it is. -/
structure Visit.IsInner (P : NodeId → Prop) (v : Visit) : Prop where
  regular : v.Regular P
  isBracket : v.isBracket = false
  isOwn : v.isOwn = false

def Func.paramVisits (f : Func) : List Visit :=
  (f.name.map fun i => Visit.identifier i (.functionName f.node)).toList ++
    Pattern.visitsList f.params

def Func.innerVisits (f : Func) : List Visit :=
  f.paramVisits ++ [.parameters f.params] ++ f.body.visits

theorem Func.visits_eq (f : Func) (place : Option String) :
    f.visits place = [Visit.enterFunction f.node.id f.func] ++ f.innerVisits ++
      [Visit.leaveFunction f.node.pos (Func.reportName f.name place) f.body.result?] := by
  obtain ⟨node, func, form, name, params, body⟩ := f
  simp [Func.visits, Func.innerVisits, Func.paramVisits]

/-- The visits of a part of a program, with the functions that are entered, with whether parameters
are noted outside of them, and with the `return` statements outside of them, in order. -/
inductive Walk (P : NodeId → Prop) : List Func → Bool → List Return → List Visit → Prop
  | nil : Walk P [] false [] []
  | append {fs fs' : List Func} {noted noted' : Bool} {rs rs' : List Return} {vs vs' : List Visit}
    (h : Walk P fs noted rs vs) (h' : Walk P fs' noted' rs' vs') :
    Walk P (fs ++ fs') (noted || noted') (rs ++ rs') (vs ++ vs')
  | visit {v : Visit} (h : v.IsInner P) : Walk P [] false [] [v]
  | parameters (params : List Pattern) : Walk P [] true [] [.parameters params]
  | return_ (pos : Position) {argument : Option Expr} (h : ∀ e ∈ argument, P e.id) :
    Walk P [] false [(pos, argument)] [.return_ pos argument]
  | function {f : Func} (place : Option String) {fs : List Func} (hnode : P f.node.id)
    (hinner : Walk P fs true f.body.ownReturns f.innerVisits) (hresult : ∀ n ∈ f.body.result?, P n) :
    Walk P (f :: fs) false [] (f.visits place)

/-- The nodes for which `P` holds are those of all but the patterns that take the rest. -/
def SyntaxNode.Marks (P : NodeId → Prop) (ns : List SyntaxNode) : Prop :=
  ∀ x ∈ ns, P x.id ↔ x.isRest = false

def Walks (P : NodeId → Prop) (ns : List SyntaxNode) (rs : List Return) (vs : List Visit) : Prop :=
  ∃ fs, Walk P fs false rs vs ∧ fs.Perm (SyntaxNode.funcs ns)

variable {P : NodeId → Prop}

namespace SyntaxNode

@[simp] theorem marks_cons {x : SyntaxNode} {ns : List SyntaxNode} :
    Marks P (x :: ns) ↔ (P x.id ↔ x.isRest = false) ∧ Marks P ns := List.forall_mem_cons

@[simp] theorem marks_append {ns ns' : List SyntaxNode} :
    Marks P (ns ++ ns') ↔ Marks P ns ∧ Marks P ns' := List.forall_mem_append

end SyntaxNode

theorem Pattern.of_mem_idents {p : Pattern} (h : SyntaxNode.Marks P p.nodes) :
    ∀ i ∈ p.idents, P i.node.id :=
  fun i hi => (h _ (p.mem_nodes_of_mem_idents i hi)).2 rfl

namespace Walks

variable {ns ns' : List SyntaxNode} {rs rs' : List Return} {vs vs' : List Visit} {v : Visit}
  {x : SyntaxNode}

theorem nil (h : SyntaxNode.funcs ns = []) : Walks P ns [] [] := ⟨[], .nil, by rw [h]⟩

theorem append (h : Walks P ns rs vs) (h' : Walks P ns' rs' vs') :
    Walks P (ns ++ ns') (rs ++ rs') (vs ++ vs') := by
  obtain ⟨fs, hwalk, hfs⟩ := h
  obtain ⟨fs', hwalk', hfs'⟩ := h'
  refine ⟨fs ++ fs', hwalk.append hwalk', ?_⟩
  rw [SyntaxNode.funcs_append]
  exact hfs.append hfs'

theorem perm (h : Walks P ns rs vs) (hns : (SyntaxNode.funcs ns).Perm (SyntaxNode.funcs ns')) :
    Walks P ns' rs vs := by
  obtain ⟨fs, hwalk, hfs⟩ := h
  exact ⟨fs, hwalk, hfs.trans hns⟩

/-- A node that is no function adds none. -/
theorem cons (h : Walks P ns rs vs) (hx : x.func? = none) : Walks P (x :: ns) rs vs :=
  h.perm (by simp [hx])

/-- One more visit of the same part. -/
theorem then_ (h : Walks P ns rs vs) (hv : v.IsInner P) : Walks P ns rs (vs ++ [v]) := by
  obtain ⟨fs, hwalk, hfs⟩ := h
  have hwalk' := hwalk.append (.visit hv)
  rw [List.append_nil, List.append_nil] at hwalk'
  exact ⟨fs, hwalk', hfs⟩

theorem thenReturn (h : Walks P ns [] vs) (pos : Position) {argument : Option Expr}
    (hargument : ∀ e ∈ argument, P e.id) :
    Walks P ns [(pos, argument)] (vs ++ [Visit.return_ pos argument]) := by
  obtain ⟨fs, hwalk, hfs⟩ := h
  have hwalk' := hwalk.append (.return_ pos hargument)
  rw [List.append_nil] at hwalk'
  exact ⟨fs, hwalk', hfs⟩

end Walks

theorem Visit.Of.isInner {outer : Option NodeId} {ns : List SyntaxNode} {qs : List Position}
    {v : Visit} (h : v.Of outer ns qs) (hns : SyntaxNode.Marks P ns) : v.IsInner P := by
  have htakes {k : NodeId} (h : ∃ m, v.Takes ns m ∧ m.id = k) : P k := by
    obtain ⟨_, ⟨x, hx, rfl, hrest, -⟩, rfl⟩ := h
    exact x.id_node ▸ (hns x hx).2 hrest
  have hexpr {n : Node} (h : ∃ e, .expr e ∈ ns ∧ e.node = n) : P n.id := by
    obtain ⟨e, he, rfl⟩ := h
    exact (hns _ he).2 rfl
  have hidents {target : Pattern} (h : target.nodes ⊆ ns) : ∀ i ∈ target.idents, P i.node.id :=
    fun i hi => (hns _ (h (target.mem_nodes_of_mem_idents i hi))).2 rfl
  cases v with
  | infer => exact ⟨htakes h, rfl, rfl⟩
  | unary | select => exact ⟨htakes h.1, rfl, rfl⟩
  | binary => exact ⟨htakes ⟨_, h.1, rfl⟩, rfl, rfl⟩
  | update => exact ⟨⟨htakes h.1, hexpr h.2⟩, rfl, rfl⟩
  | identifier i role =>
    obtain ⟨⟨x, hx, hi⟩, hrole⟩ := h
    have hrest : x.isRest = false := by
      cases x with
      | pattern p => cases p <;> first | rfl | cases hi
      | _ => rfl
    refine ⟨⟨SyntaxNode.id_of_ident? hi ▸ (hns x hx).2 hrest, ?_⟩, rfl, rfl⟩
    cases role with
    | templateTag n => exact htakes hrole
    | functionName n => exact hrole.elim
    | plain | defaultValue | defaultTarget => trivial
  | condition code label n =>
    have hcode : code.isReturn = false := by
      obtain ⟨⟨hcode, -⟩, -⟩ := h
      cases code <;> first | rfl | cases hcode
    exact ⟨hcode, rfl, rfl⟩
  | assign =>
    obtain ⟨hn, hvalue, htarget⟩ := h
    exact ⟨⟨fun k hk => htakes (hn k hk), fun _ he => (hns _ (hvalue.1 he)).2 rfl, hidents htarget⟩,
      rfl, rfl⟩
  | assignDefault =>
    obtain ⟨hn, hvalue, htarget⟩ := h
    exact ⟨⟨htakes hn, fun _ he => (hns _ (hvalue.1 he)).2 rfl, hidents htarget⟩, rfl, rfl⟩
  | rest n argument =>
    obtain ⟨⟨m, hm, rfl⟩, -⟩ := h
    exact ⟨fun hn => (nomatch (hns _ hm).1 hn), rfl, rfl⟩
  | inherit n source =>
    obtain ⟨hn, e, he, rfl⟩ := h
    exact ⟨⟨htakes hn, (hns _ he).2 rfl⟩, rfl, rfl⟩
  | call =>
    exact ⟨⟨htakes ⟨_, h.1, rfl⟩, fun _ he => (hns _ (h.2.2.1 he)).2 rfl⟩, rfl, rfl⟩
  | declare | spread | annotate | template => exact ⟨trivial, rfl, rfl⟩
  | _ => exact h.elim

/-- What a function consists of: its name, its parameters and its body. -/
structure Func.Inside (P : NodeId → Prop) (f : Func) (fs fs' : List Func) : Prop where
  node : P f.node.id
  name : ∀ i ∈ f.name, P i.node.id
  params : Walk P fs false [] (Pattern.visitsList f.params)
  body : Walk P fs' false f.body.ownReturns f.body.visits
  result : ∀ n ∈ f.body.result?, P n

namespace Func.Inside

variable {f : Func} {fs fs' : List Func}

/-- What comes before the parameters are noted. -/
theorem walk_params (h : f.Inside P fs fs') : Walk P fs false [] f.paramVisits := by
  have hname : Walk P [] false []
      (f.name.map fun i => Visit.identifier i (.functionName f.node)).toList := by
    cases hi : f.name with
    | none => exact .nil
    | some i => exact .visit ⟨⟨h.name i hi, h.node⟩, rfl, rfl⟩
  exact hname.append h.params

theorem walk_inner (h : f.Inside P fs fs') :
    Walk P (fs ++ fs') true f.body.ownReturns f.innerVisits := by
  have hinner := (h.walk_params.append (.parameters f.params)).append h.body
  rwa [List.append_nil] at hinner

theorem walk (h : f.Inside P fs fs') (place : Option String) :
    Walk P (f :: (fs ++ fs')) false [] (f.visits place) :=
  .function place h.node h.walk_inner h.result

end Func.Inside

/-- A function is entered at its place, and what is inside it is walked through in between. -/
theorem Walks.function {f : Func} (h : ∃ fs fs', f.Inside P fs fs' ∧
      (fs ++ fs').Perm (SyntaxNode.funcs f.nodes)) (place : Option String) {x : SyntaxNode}
    (hx : x.func? = some f) : Walks P (x :: f.nodes) [] (f.visits place) := by
  obtain ⟨fs, fs', hinside, hfs⟩ := h
  exact ⟨_, hinside.walk place, by simpa [hx] using hfs⟩

theorem Func.exists_inside_of_walks {f : Func} (hn : P f.node.id) (h : SyntaxNode.Marks P f.nodes)
    (hparams : Walks P (Pattern.nodesList f.params) [] (Pattern.visitsList f.params))
    (hbody : Walks P f.body.nodes f.body.ownReturns f.body.visits) :
    ∃ fs fs', f.Inside P fs fs' ∧ (fs ++ fs').Perm (SyntaxNode.funcs f.nodes) := by
  obtain ⟨node, func, form, name, params, body⟩ := f
  obtain ⟨fs, hparams, hfs⟩ := hparams
  obtain ⟨fs', hbody, hfs'⟩ := hbody
  rw [Func.nodes, SyntaxNode.marks_append, SyntaxNode.marks_append] at h
  have hname : ∀ i ∈ name, P i.node.id := by
    rintro i ⟨⟩
    exact (h.1.1 (.name i) (by simp)).2 rfl
  have hresult : ∀ n ∈ body.result?, P n := by
    cases body with
    | block b => simp [Body.result?]
    | expr e =>
      rintro n ⟨⟩
      exact (h.2 _ e.mem_nodes).2 rfl
  exact ⟨fs, fs', ⟨hn, hname, hparams, hbody, hresult⟩, by simpa [Func.nodes] using hfs.append hfs'⟩

theorem Tour.walks {outer : Option NodeId} {ns : List SyntaxNode} {qs : List Position}
    {rs : List Return} {vs : List Visit} (h : Tour outer ns qs rs vs) (hns : SyntaxNode.Marks P ns) :
    Walks P ns rs vs := by
  induction h with
  | nil => exact .nil rfl
  | append _ _ ih ih' =>
    rw [SyntaxNode.marks_append] at hns
    exact (ih hns.1).append (ih' hns.2)
  | swap _ ih =>
    refine (ih (fun x hx => hns x (by simpa [or_comm] using hx))).perm ?_
    rw [SyntaxNode.funcs_append, SyntaxNode.funcs_append]
    exact List.perm_append_comm
  | cons hx _ ih => exact (ih (SyntaxNode.marks_cons.1 hns).2).cons hx
  | anywhere _ ih => exact ih hns
  | tag _ hfunc _ ih => exact (ih (SyntaxNode.marks_cons.1 hns).2).cons hfunc
  | visit _ hv ih => exact (ih hns).then_ (hv.isInner hns)
  | array _ ih =>
    rw [SyntaxNode.marks_cons] at hns
    exact ((ih hns.2).cons rfl).then_ ⟨hns.1.2 rfl, rfl, rfl⟩
  | return_ pos _ hargument ih =>
    exact (ih hns).thenReturn pos fun e he => (hns _ (hargument e he)).2 rfl
  | @function f x hx place _ _ ih ih' =>
    rw [SyntaxNode.marks_cons] at hns
    have hn : P f.node.id := by
      rw [← SyntaxNode.id_of_func? hx]
      refine hns.1.2 ?_
      cases x <;> first | rfl | cases hx
    have hparts := hns.2
    rw [Func.nodes_eq, SyntaxNode.marks_append, SyntaxNode.marks_append] at hparts
    exact .function (Func.exists_inside_of_walks hn hns.2 (ih hparts.1.2) (ih' hparts.2)) place hx

theorem Func.exists_inside {f : Func} (hn : P f.node.id) (h : SyntaxNode.Marks P f.nodes) :
    ∃ fs fs', f.Inside P fs fs' ∧ (fs ++ fs').Perm (SyntaxNode.funcs f.nodes) := by
  have hparts := h
  rw [Func.nodes_eq, SyntaxNode.marks_append, SyntaxNode.marks_append] at hparts
  exact exists_inside_of_walks hn h ((Pattern.tourList f.params).walks hparts.1.2)
    (f.body.tour.walks hparts.2)

end TagCheck
