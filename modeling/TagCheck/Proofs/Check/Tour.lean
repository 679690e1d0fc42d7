import TagCheck.Proofs.Check.Footprint
import TagCheck.Proofs.Diagnostic.OneLine
import TagCheck.Proofs.Program.Region

/-! The visits of a program, part by part. Every visit is about nodes of the part that it belongs to,
and what it is about is said here once for all kinds of visits. -/
namespace TagCheck

/-- The visits that write to an expression, where they are known: a literal has its own one, and a
sequence takes the type of its last part. -/
def Expr.ownVisits? : Expr → Option (List Visit)
  | .number n x => some [.ofNumber n x]
  | .bigint n _ => some [.infer n.id .bint]
  | .str n _ => some [.infer n.id .string]
  | .bool n _ => some [.infer n.id .bool]
  | .null n => some [.infer n.id .nul]
  | .regex n _ _ => some [.infer n.id .regex]
  | .array n es => some [.arrayLiteral n es]
  | .object n _ => some [.infer n.id .object]
  | .sequence n parts => some (parts.getLast?.map fun e => Visit.inherit n.id e.id).toList
  | _ => none

def SyntaxNode.Owns (x : SyntaxNode) (v : Visit) : Prop :=
  ∀ e ws, x = .expr e → e.ownVisits? = some ws → v ∈ ws

def SyntaxNode.IsOpen (x : SyntaxNode) : Prop := ∀ v, x.Owns v

namespace SyntaxNode

theorem isOpen_expr {e : Expr} (h : e.ownVisits? = none) : (expr e).IsOpen := by
  rintro v e' ws ⟨⟩ hws
  simp [h] at hws

theorem isOpen_pattern (p : Pattern) : (pattern p).IsOpen := fun _ _ _ h => nomatch h

theorem isOpen_name (i : Ident) : (name i).IsOpen := fun _ _ _ h => nomatch h

theorem owns_expr {e : Expr} {v : Visit} {ws : List Visit} (h : e.ownVisits? = some ws)
    (hv : v ∈ ws) : (expr e).Owns v := by
  rintro e' ws' ⟨⟩ hws
  exact Option.some.inj (h.symm.trans hws) ▸ hv

end SyntaxNode

mutual

/-- The identifiers that a pattern gives values to are among its nodes. -/
theorem Pattern.mem_nodes_of_mem_idents : (p : Pattern) → ∀ i ∈ p.idents,
    SyntaxNode.pattern (.ident i) ∈ p.nodes
  | .ident i, j, h => by
    obtain rfl := List.mem_singleton.1 h
    simp [Pattern.nodes]
  | .array n ps, i, h => by
    simp [Pattern.nodes, Pattern.mem_nodesElements_of_mem_idents ps i h]
  | .object n ps, i, h => by simp [Pattern.nodes, PatternProp.mem_nodes_of_mem_idents ps i h]
  | .withDefault n target value, i, h => by
    simp [Pattern.nodes, target.mem_nodes_of_mem_idents i h]
  | .rest n argument, i, h => by simp [Pattern.nodes, argument.mem_nodes_of_mem_idents i h]

theorem Pattern.mem_nodesElements_of_mem_idents : (ps : List (Option Pattern)) →
    ∀ i ∈ Pattern.identsOfElements ps, SyntaxNode.pattern (.ident i) ∈ Pattern.nodesElements ps
  | [], i, h => by simp [Pattern.identsOfElements] at h
  | none :: ps, i, h => by
    simp [Pattern.nodesElements, Pattern.mem_nodesElements_of_mem_idents ps i h]
  | some p :: ps, i, h => by
    simp only [Pattern.nodesElements, List.mem_append]
    rcases List.mem_append.1 h with h | h
    · exact Or.inl (p.mem_nodes_of_mem_idents i h)
    · exact Or.inr (Pattern.mem_nodesElements_of_mem_idents ps i h)

theorem PatternProp.mem_nodes_of_mem_idents : (ps : List PatternProp) →
    ∀ i ∈ PatternProp.identsOfProps ps, SyntaxNode.pattern (.ident i) ∈ PatternProp.nodes ps
  | [], i, h => by simp [PatternProp.identsOfProps] at h
  | .prop _ p :: ps, i, h | .rest p :: ps, i, h => by
    simp only [PatternProp.nodes, List.mem_append]
    rcases List.mem_append.1 h with h | h
    · exact Or.inl (p.mem_nodes_of_mem_idents i h)
    · exact Or.inr (PatternProp.mem_nodes_of_mem_idents ps i h)

end

mutual

/-- The `return` statements in a statement, outside the functions in it, in the order of the
visits. -/
def Stmt.ownReturns : Stmt → List Return
  | .return_ pos argument => [(pos, argument)]
  | .if_ _ _ c none => c.ownReturns
  | .if_ _ _ c (some a) => c.ownReturns ++ a.ownReturns
  | .while_ _ _ b | .doWhile _ b _ | .for_ _ _ _ _ b => b.ownReturns
  | .block ⟨_, stmts⟩ => Stmt.ownReturnsList stmts
  | .declare _ _ _ | .function _ | .expr _ | .break_ _ | .continue_ _ | .empty _ => []

def Stmt.ownReturnsList : List Stmt → List Return
  | [] => []
  | s :: ss => s.ownReturns ++ Stmt.ownReturnsList ss

end

def Body.ownReturns : Body → List Return
  | .block ⟨_, stmts⟩ => Stmt.ownReturnsList stmts
  | .expr _ => []

def Pattern.isRest : Pattern → Bool
  | .rest _ _ => true
  | .ident _ | .array _ _ | .object _ _ | .withDefault _ _ _ => false

def SyntaxNode.isRest : SyntaxNode → Bool
  | pattern p => p.isRest
  | expr _ | spread _ _ | name _ | declaration _ | method _ => false

def Code.isConditional : Code → Bool
  | logicalCondType | ternaryCondType | ifConditional | whileConditional | doWhileConditional =>
    true
  | _ => false

/-- The role names no other node. -/
def Role.IsFree : Role → Prop
  | templateTag _ | functionName _ => False
  | plain | defaultValue | defaultTarget => True

/-- The visit may give a type to a node. -/
def Visit.Takes (v : Visit) (ns : List SyntaxNode) (n : Node) : Prop :=
  ∃ x ∈ ns, x.node = n ∧ x.isRest = false ∧ x.Owns v

/-- All that a visit is about is among the nodes `ns` and the `return` statements `qs`, but for the
template whose tag they belong to. Arrays, functions and `return` statements are left out. -/
def Visit.Of (outer : Option NodeId) (ns : List SyntaxNode) (qs : List Position) (v : Visit) :
    Prop :=
  match v with
  | infer n _ => ∃ m, v.Takes ns m ∧ m.id = n
  | identifier i role => (∃ x ∈ ns, x.ident? = some i) ∧
    match role with
    | .templateTag n => ∃ m, v.Takes ns m ∧ m.id = n
    | .functionName _ => False
    | .plain | .defaultValue | .defaultTarget => True
  | condition code label n =>
    (code.isConditional = true ∧ Text.OneLine label) ∧ ∃ e, .expr e ∈ ns ∧ e.node = n
  | declare i => ∃ x ∈ ns, x.ident? = some i
  | assign n value target => (∀ k ∈ n, ∃ m, v.Takes ns m ∧ m.id = k) ∧
    (value.nodes ⊆ ns ∧ value.returns ⊆ qs) ∧ target.nodes ⊆ ns
  | assignDefault n target value => (∃ m, v.Takes ns m ∧ m.id = n) ∧
    (value.nodes ⊆ ns ∧ value.returns ⊆ qs) ∧ target.nodes ⊆ ns
  | rest n argument => (∃ m, .pattern (.rest m argument) ∈ ns ∧ m.id = n) ∧ .pattern argument ∈ ns
  | spread pos argument _ =>
    (∃ x ∈ ns, x.node.pos = pos) ∧ ∃ e, .expr e ∈ ns ∧ e.id = argument
  | unary n _ argument | update n _ argument =>
    (∃ m, v.Takes ns m ∧ m.id = n) ∧ ∃ e, .expr e ∈ ns ∧ e.node = argument
  | binary n _ left right => v.Takes ns n ∧ (∃ e, .expr e ∈ ns ∧ e.node = left) ∧
    ∃ e, .expr e ∈ ns ∧ e.node = right
  | select n a b => (∃ m, v.Takes ns m ∧ m.id = n) ∧ (∃ e, .expr e ∈ ns ∧ e.id = a) ∧
    ∃ e, .expr e ∈ ns ∧ e.id = b
  | inherit n source => (∃ m, v.Takes ns m ∧ m.id = n) ∧ ∃ e, .expr e ∈ ns ∧ e.id = source
  | call n callee args _ => v.Takes ns n ∧ (callee.nodes ⊆ ns ∧ callee.returns ⊆ qs) ∧
    Element.nodes args ⊆ ns ∧ Element.returns args ⊆ qs
  | annotate n _ outer' => v.Takes ns n ∧ outer' = outer
  | template n _ _ quasi _ => v.Takes ns n ∧ Expr.nodesList quasi.parts ⊆ ns ∧
    Expr.returnsList quasi.parts ⊆ qs
  | arrayLiteral _ _ | enterFunction _ _ | parameters _ | leaveFunction _ _ _ | return_ _ _ => False

/-- The visits of a part of a program with the nodes `ns` and the `return` statements `qs`, of which
`rs` are not inside of its functions. The part may belong to the tag of a template. -/
inductive Tour : Option NodeId → List SyntaxNode → List Position → List Return → List Visit → Prop
  | nil {outer : Option NodeId} : Tour outer [] [] [] []
  | append {outer : Option NodeId} {ns ns' : List SyntaxNode} {qs qs' : List Position}
    {rs rs' : List Return} {vs vs' : List Visit} (h : Tour outer ns qs rs vs)
    (h' : Tour outer ns' qs' rs' vs') :
    Tour outer (ns ++ ns') (qs ++ qs') (rs ++ rs') (vs ++ vs')
  | swap {outer : Option NodeId} {ns ns' : List SyntaxNode} {qs qs' : List Position}
    {rs : List Return} {vs : List Visit} (h : Tour outer (ns ++ ns') (qs ++ qs') rs vs) :
    Tour outer (ns' ++ ns) (qs' ++ qs) rs vs
  | cons {outer : Option NodeId} {x : SyntaxNode} {ns : List SyntaxNode} {qs : List Position}
    {rs : List Return} {vs : List Visit} (hx : x.func? = none) (h : Tour outer ns qs rs vs) :
    Tour outer (x :: ns) qs rs vs
  /-- Parts outside of any tag. -/
  | anywhere {outer : Option NodeId} {ns : List SyntaxNode} {qs : List Position} {rs : List Return}
    {vs : List Visit} (h : Tour none ns qs rs vs) : Tour outer ns qs rs vs
  | tag {outer : Option NodeId} {e : Expr} {ns : List SyntaxNode} {qs : List Position}
    {rs : List Return} {vs : List Visit} (he : e.ownVisits? = none) (hfunc : e.asFunc? = none)
    (h : Tour (some e.id) ns qs rs vs) : Tour outer (.expr e :: ns) qs rs vs
  | visit {outer : Option NodeId} {ns : List SyntaxNode} {qs : List Position} {rs : List Return}
    {vs : List Visit} {v : Visit} (h : Tour outer ns qs rs vs) (hv : v.Of outer ns qs) :
    Tour outer ns qs rs (vs ++ [v])
  | array {n : Node} {es : List Element} (h : Tour none (Element.nodes es) (Element.returns es) []
      (Element.visits (some .array) es)) :
    Tour none (.expr (.array n es) :: Element.nodes es) (Element.returns es) []
      (Element.visits (some .array) es ++ [.arrayLiteral n es])
  | return_ {outer : Option NodeId} {ns : List SyntaxNode} {qs : List Position} {vs : List Visit}
    (pos : Position) {argument : Option Expr} (h : Tour outer ns qs [] vs)
    (hargument : ∀ e ∈ argument, .expr e ∈ ns) :
    Tour outer ns (pos :: qs) [(pos, argument)] (vs ++ [.return_ pos argument])
  | function {f : Func} {x : SyntaxNode} (hx : x.func? = some f) (place : Option String)
    (hparams : Tour none (Pattern.nodesList f.params) (Pattern.returnsList f.params) []
      (Pattern.visitsList f.params))
    (hbody : Tour none f.body.nodes f.body.returns f.body.ownReturns f.body.visits) :
    Tour none (x :: f.nodes) f.returns [] (f.visits place)

theorem Tour.visits {outer : Option NodeId} {ns : List SyntaxNode} {qs : List Position}
    {rs : List Return} {vs ws : List Visit} (h : Tour outer ns qs rs vs)
    (hws : ∀ v ∈ ws, v.Of outer ns qs) : Tour outer ns qs rs (vs ++ ws) := by
  induction ws generalizing vs with
  | nil => rwa [List.append_nil]
  | cons v ws ih =>
    rw [List.forall_mem_cons] at hws
    rw [List.append_cons]
    exact ih (h.visit hws.1) hws.2

theorem Expr.takes {e : Expr} (h : e.ownVisits? = none) (v : Visit) (ns : List SyntaxNode) :
    v.Takes (.expr e :: ns) e.node :=
  ⟨_, List.mem_cons_self, rfl, rfl, SyntaxNode.isOpen_expr h v⟩

theorem Expr.takes_own {e : Expr} {v : Visit} (h : e.ownVisits? = some [v])
    (ns : List SyntaxNode) : v.Takes (.expr e :: ns) e.node :=
  ⟨_, List.mem_cons_self, rfl, rfl, SyntaxNode.owns_expr h List.mem_cons_self⟩

theorem Pattern.takes {p : Pattern} (h : p.isRest = false) (v : Visit) (ns : List SyntaxNode) :
    v.Takes (.pattern p :: ns) p.node :=
  ⟨_, List.mem_cons_self, rfl, h, SyntaxNode.isOpen_pattern p v⟩

/-- The rule for a tagged template is about it, its tag and its parts. -/
theorem Visit.of_ofTagged {e : Expr} (he : e.ownVisits? = none) {ns : List SyntaxNode}
    {qs : List Position} {quasi : Template} {tag : Expr} (htag : .expr tag ∈ ns)
    (hparts : Expr.nodesList quasi.parts ⊆ ns) (hreturns : Expr.returnsList quasi.parts ⊆ qs)
    (outer : Option NodeId) : ∀ v ∈ ofTagged e.node quasi outer tag, v.Of outer (.expr e :: ns) qs := by
  have htemplate (tag : Tag) (label : String) (chained : Bool) :
      ∀ v ∈ [Visit.template e.node tag label quasi chained], v.Of outer (.expr e :: ns) qs :=
    List.forall_mem_singleton.2
      ⟨Expr.takes he _ _, List.subset_cons_of_subset _ hparts, hreturns⟩
  have hinherit : ∀ m i inner (tag' : Tag) (label : String), tag = .tagged m (.ident i) inner →
      ∀ v ∈ [Visit.inherit e.id m.id, Visit.template e.node tag' label quasi true],
        v.Of outer (.expr e :: ns) qs := by
    rintro m i inner tag' label rfl
    exact List.forall_mem_cons.2 ⟨⟨⟨_, Expr.takes he _ _, rfl⟩, _, List.mem_cons_of_mem _ htag, rfl⟩,
      htemplate _ _ _⟩
  have hannotate (text : String) :
      ∀ v ∈ [Visit.annotate e.node text outer], v.Of outer (.expr e :: ns) qs :=
    List.forall_mem_singleton.2 ⟨Expr.takes he _ _, rfl⟩
  have hnil : ∀ v ∈ ([] : List Visit), v.Of outer (.expr e :: ns) qs := nofun
  unfold ofTagged
  split
  · split
    · exact hnil
    · split
      · exact htemplate _ _ _
      · exact hannotate _
    · split
      · exact htemplate _ _ _
      · exact hnil
    · exact htemplate _ _ _
  · dsimp only
    split
    · exact hinherit _ _ _ _ _ rfl
    · exact hinherit _ _ _ _ _ rfl
    · exact hnil
  · exact hnil

theorem Expr.subset_nodesList {es : List Expr} {e : Expr} (h : e ∈ es) :
    .expr e ∈ Expr.nodesList es := by
  induction es with
  | nil => cases h
  | cons a es ih =>
    rw [Expr.nodesList, List.mem_append]
    rcases List.mem_cons.1 h with rfl | h
    · exact .inl e.mem_nodes
    · exact .inr (ih h)

mutual

theorem Expr.tour : (e : Expr) → (place : Place) →
    Tour place.outer e.nodes e.returns [] (e.visits place)
  | .number .., _ | .bigint .., _ | .str .., _ | .bool .., _ | .null _, _ | .regex .., _ =>
    .visit (.cons rfl .nil) ⟨_, Expr.takes_own rfl _, rfl⟩
  | .this _, _ => .cons rfl .nil
  | .ident _, _ => .visit (.cons rfl .nil) ⟨⟨_, List.mem_cons_self, rfl⟩, trivial⟩
  | .template _ ⟨_, _, parts⟩, _ =>
    .anywhere (.visit (.cons rfl (Expr.tourList parts)) ⟨_, Expr.takes rfl _ _, rfl⟩)
  | .tagged n tag ⟨pos, quasis, parts⟩, place => by
    have hrule : ∀ v ∈ Visit.ofTagged n ⟨pos, quasis, parts⟩ place.outer tag,
        v.Of place.outer (.expr (.tagged n tag ⟨pos, quasis, parts⟩) ::
          (tag.nodes ++ Expr.nodesList parts)) (tag.returns ++ Expr.returnsList parts) :=
      Visit.of_ofTagged (e := .tagged n tag ⟨pos, quasis, parts⟩) rfl
        (List.mem_append_left _ tag.mem_nodes) (List.subset_append_right ..)
        (List.subset_append_right ..) _
    by_cases hident : ∃ i, tag = .ident i
    · obtain ⟨i, rfl⟩ := hident
      have htag : Tour place.outer [.expr (.tagged n (.ident i) ⟨pos, quasis, parts⟩),
          .expr (.ident i)] [] [] [.identifier i (.templateTag n.id)] :=
        .visit (.cons rfl (.cons rfl .nil)) ⟨⟨.expr (.ident i), by simp, rfl⟩, _, Expr.takes rfl _ _, rfl⟩
      rw [Expr.visits]
      exact .visits (htag.append (Expr.tourList parts).anywhere) hrule
    · rw [Expr.visits]
      · exact .visits (.tag rfl rfl ((tag.tour { outer := some n.id }).append
          (Expr.tourList parts).anywhere)) hrule
      · exact fun i hi => hident ⟨i, hi⟩
  | .array _ es, _ => .anywhere (.array (Element.tour es _))
  | .object _ props, _ =>
    .anywhere (.visit (.cons rfl (Property.tour props)) ⟨_, Expr.takes_own rfl _, rfl⟩)
  | .function f, place => .anywhere (f.tour rfl place.name)
  | .unary _ _ e, _ | .update _ _ _ e, _ => .anywhere (.visit (.cons rfl (e.tour {}))
    ⟨⟨_, Expr.takes rfl _ _, rfl⟩, e, List.mem_cons_of_mem _ e.mem_nodes, rfl⟩)
  | .binary _ _ l r, _ => by
    refine .anywhere (.visit (.cons rfl ((l.tour {}).append (r.tour {})))
      ⟨Expr.takes rfl _ _, ⟨l, ?_, rfl⟩, r, ?_, rfl⟩)
    all_goals simp [Expr.nodes, l.mem_nodes, r.mem_nodes]
  | .logical _ op l r, _ => by
    rw [Expr.visits, List.append_cons]
    refine .anywhere (.visit (.visit (.cons rfl ((l.tour {}).append (r.tour {})))
      ⟨⟨rfl, by cases op <;> decide⟩, l, ?_, rfl⟩)
      ⟨⟨_, Expr.takes rfl _ _, rfl⟩, ⟨l, ?_, rfl⟩, r, ?_, rfl⟩)
    all_goals simp [Expr.nodes, l.mem_nodes, r.mem_nodes]
  | .conditional _ t c a, _ => by
    rw [Expr.visits, List.append_cons]
    refine .anywhere (.visit (.visit
      (.cons rfl (((t.tour {}).append (c.tour {})).append (a.tour {})))
      ⟨⟨rfl, by decide⟩, t, ?_, rfl⟩) ⟨⟨_, Expr.takes rfl _ _, rfl⟩, ⟨c, ?_, rfl⟩, a, ?_, rfl⟩)
    all_goals simp [Expr.nodes, t.mem_nodes, c.mem_nodes, a.mem_nodes]
  | .assign n target value, _ => by
    refine .anywhere (.visit (.cons rfl ((target.tour .plain trivial).append
      (value.tour { name := target.asIdent?.map (·.name) }))) ⟨?_, ⟨?_, ?_⟩, ?_⟩)
    · rintro _ ⟨⟩
      exact ⟨_, Expr.takes rfl _ _, rfl⟩
    all_goals simp [Expr.nodes, Expr.returns]
  | .assignMember _ target value, _ => .anywhere (.cons rfl ((target.tour {}).append (value.tour {})))
  | .sequence n parts, _ => by
    refine .anywhere (.visits (.cons rfl (Expr.tourList parts)) fun v hv => ?_)
    obtain ⟨e, he, rfl⟩ := Option.map_eq_some_iff.1 (Option.mem_toList.1 hv)
    have hown : (Expr.sequence n parts).ownVisits? = some [.inherit n.id e.id] := by
      simp [Expr.ownVisits?, he]
    exact ⟨⟨_, Expr.takes_own hown _, rfl⟩, e,
      List.mem_cons_of_mem _ (Expr.subset_nodesList (List.mem_of_getLast? he)), rfl⟩
  | .call _ callee args, _ => by
    refine .anywhere (.visit (.cons rfl ((callee.tour {}).append (Element.tour args _)))
      ⟨Expr.takes rfl _ _, ⟨?_, ?_⟩, ?_, ?_⟩)
    all_goals simp [Expr.nodes, Expr.returns]
  | .new _ callee args, _ => .anywhere (.visit (.cons rfl ((callee.tour {}).append
    (Element.tour args _))) ⟨_, Expr.takes rfl _ _, rfl⟩)
  | .member _ object key, _ => .anywhere (.cons rfl ((object.tour {}).append key.tour))

theorem Expr.tourList : (es : List Expr) →
    Tour none (Expr.nodesList es) (Expr.returnsList es) [] (Expr.visitsList es)
  | [] => .nil
  | e :: es => (e.tour {}).append (Expr.tourList es)

theorem Expr.tourOption : (e? : Option Expr) →
    Tour none (Expr.nodesOption e?) (Expr.returnsOption e?) [] (Expr.visitsOption e?)
  | none => .nil
  | some e => e.tour {}

theorem Key.tour : (k : Key) → Tour none k.nodes k.returns [] k.visits
  | .name _ => .nil
  | .computed e => e.tour {}

theorem Element.tour : (es : List Element) → (expected : Option Tag) →
    Tour none (Element.nodes es) (Element.returns es) [] (Element.visits expected es)
  | [], _ => .nil
  | .hole :: es, expected => Element.tour es expected
  | .item e :: es, expected => (e.tour {}).append (Element.tour es expected)
  | .spread n e :: es, expected => by
    have hspread : Tour none (.spread n e :: e.nodes) e.returns []
        (e.visits {} ++ (expected.map fun t => Visit.spread n.pos e.id t).toList) := by
      refine .visits (.cons rfl (e.tour {})) fun v hv => ?_
      obtain ⟨t, -, rfl⟩ := Option.map_eq_some_iff.1 (Option.mem_toList.1 hv)
      exact ⟨⟨_, List.mem_cons_self, rfl⟩, e, by simp [e.mem_nodes], rfl⟩
    exact hspread.append (Element.tour es expected)

theorem Property.tour : (ps : List Property) →
    Tour none (Property.nodes ps) (Property.returns ps) [] (Property.visits ps)
  | [] => .nil
  | .keyValue k value _ :: ps =>
    (k.tour.append (value.tour { name := k.asName? })).append (Property.tour ps)
  | .method k f :: ps => by
    rw [Property.visits, List.append_assoc]
    have hf : Tour none (.method f :: f.nodes) f.returns [] (f.visits k.asName?) := f.tour rfl _
    exact k.tour.append (hf.append (Property.tour ps))
  | .spread n e :: ps => by
    have hspread : Tour none (.spread n e :: e.nodes) e.returns []
        (e.visits {} ++ [Visit.spread n.pos e.id .object]) :=
      .visit (.cons rfl (e.tour {})) ⟨⟨_, List.mem_cons_self, rfl⟩, e, by simp [e.mem_nodes], rfl⟩
    exact hspread.append (Property.tour ps)

theorem Pattern.tour (role : Role) (hrole : role.IsFree) : (p : Pattern) →
    Tour none p.nodes p.returns [] (p.visits role)
  | .ident i => .visit (.cons rfl .nil) ⟨⟨_, List.mem_cons_self, rfl⟩, by
    cases role <;> first | exact hrole | exact hrole.elim⟩
  | .array _ ps =>
    .visit (.cons rfl (Pattern.tourElements ps)) ⟨_, Pattern.takes rfl _ _, rfl⟩
  | .object _ ps => .visit (.cons rfl (PatternProp.tour ps)) ⟨_, Pattern.takes rfl _ _, rfl⟩
  | .withDefault n target value => by
    have htarget := target.tour .defaultTarget trivial
    have hassign : (Visit.assignDefault n.id target value).Of none
        (.pattern (.withDefault n target value) :: (target.nodes ++ value.nodes))
        (target.returns ++ value.returns) :=
      ⟨⟨_, Pattern.takes rfl _ _, rfl⟩, by simp, by simp⟩
    by_cases hvalue : ∃ i, value = .ident i
    · obtain ⟨i, rfl⟩ := hvalue
      have hi : Tour none (Expr.ident i).nodes [] [] [.identifier i .defaultValue] :=
        .visit (.cons rfl .nil) ⟨⟨_, List.mem_cons_self, rfl⟩, trivial⟩
      rw [Pattern.visits, List.append_cons]
      exact .visit (.cons rfl (htarget.append hi)) hassign
    · rw [Pattern.visits]
      · exact .visit (.cons rfl (htarget.append (value.tour { name := target.asIdent?.map (·.name) })))
          hassign
      · exact fun i hi => hvalue ⟨i, hi⟩
  | .rest n argument => .visit (.cons rfl (argument.tour .plain trivial))
    ⟨⟨n, List.mem_cons_self, rfl⟩, List.mem_cons_of_mem _ argument.mem_nodes⟩

theorem Pattern.tourElements : (ps : List (Option Pattern)) →
    Tour none (Pattern.nodesElements ps) (Pattern.returnsElements ps) [] (Pattern.visitsElements ps)
  | [] => .nil
  | none :: ps => Pattern.tourElements ps
  | some p :: ps => (p.tour .plain trivial).append (Pattern.tourElements ps)

theorem Pattern.tourList : (ps : List Pattern) →
    Tour none (Pattern.nodesList ps) (Pattern.returnsList ps) [] (Pattern.visitsList ps)
  | [] => .nil
  | p :: ps => (p.tour .plain trivial).append (Pattern.tourList ps)

theorem PatternProp.tour : (ps : List PatternProp) →
    Tour none (PatternProp.nodes ps) (PatternProp.returns ps) [] (PatternProp.visits ps)
  | [] => .nil
  | .prop _ p :: ps | .rest p :: ps => (p.tour .plain trivial).append (PatternProp.tour ps)

theorem Func.tour {x : SyntaxNode} : (f : Func) → x.func? = some f → (place : Option String) →
    Tour none (x :: f.nodes) f.returns [] (f.visits place)
  | ⟨_, _, _, _, params, body⟩, hx, place => .function hx place (Pattern.tourList params) body.tour

theorem Body.tour : (b : Body) → Tour none b.nodes b.returns b.ownReturns b.visits
  | .block ⟨_, stmts⟩ => Stmt.tourList stmts
  | .expr e => e.tour { tail := true }

theorem Stmt.tour : (s : Stmt) → Tour none s.nodes s.returns s.ownReturns s.visits
  | .declare _ _ ds => Declarator.tour ds
  | .function f => f.tour rfl none
  | .return_ pos none => .return_ pos .nil nofun
  | .return_ pos (some e) => by
    refine .return_ pos (e.tour { tail := true }) ?_
    rintro _ ⟨⟩
    exact e.mem_nodes
  | .if_ _ t c none => .visit ((t.tour {}).append c.tour)
    ⟨⟨rfl, by decide⟩, t, by simp [Stmt.nodes, t.mem_nodes], rfl⟩
  | .if_ _ t c (some a) => .visit (((t.tour {}).append c.tour).append a.tour)
    ⟨⟨rfl, by decide⟩, t, by simp [Stmt.nodes, t.mem_nodes], rfl⟩
  | .while_ _ t b => .visit ((t.tour {}).append b.tour)
    ⟨⟨rfl, by decide⟩, t, by simp [Stmt.nodes, t.mem_nodes], rfl⟩
  | .doWhile _ b t => by
    have hparts := b.tour.append (t.tour {})
    rw [List.append_nil] at hparts
    exact .visit hparts.swap ⟨⟨rfl, by decide⟩, t, by simp [Stmt.nodes, t.mem_nodes], rfl⟩
  | .for_ _ init test update body =>
    ((init.tour.append (Expr.tourOption test)).append (Expr.tourOption update)).append body.tour
  | .block ⟨_, stmts⟩ => Stmt.tourList stmts
  | .expr e => e.tour {}
  | .break_ _ | .continue_ _ | .empty _ => .nil

theorem Stmt.tourList : (ss : List Stmt) →
    Tour none (Stmt.nodesList ss) (Stmt.returnsList ss) (Stmt.ownReturnsList ss) (Stmt.visitsList ss)
  | [] => .nil
  | s :: ss => s.tour.append (Stmt.tourList ss)

theorem Declarator.tour : (ds : List Declarator) →
    Tour none (Declarator.nodes ds) (Declarator.returns ds) [] (Declarator.visits ds)
  | [] => .nil
  | ⟨_, target, some e⟩ :: ds => by
    have hassign : (Visit.assign none e target).Of none (target.nodes ++ e.nodes)
        (target.returns ++ e.returns) := ⟨nofun, by simp, by simp⟩
    exact (((target.tour .plain trivial).append (e.tour { name := target.asIdent?.map (·.name) })).visit
      hassign).append (Declarator.tour ds)
  | ⟨_, target, none⟩ :: ds => by
    refine .append (.visits (target.tour .plain trivial) fun v hv => ?_) (Declarator.tour ds)
    obtain ⟨i, hi, rfl⟩ := Option.map_eq_some_iff.1 (Option.mem_toList.1 hv)
    exact ⟨_, target.mem_nodes, hi⟩

theorem ForInit.tour : (init : ForInit) → Tour none init.nodes init.returns [] init.visits
  | .absent => .nil
  | .declare _ ds => Declarator.tour ds
  | .expr e => e.tour {}

end

end TagCheck
