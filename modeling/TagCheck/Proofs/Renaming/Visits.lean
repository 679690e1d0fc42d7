import TagCheck.Proofs.Check.Ownership
import TagCheck.Proofs.Renaming.Syntax
import TagCheck.Proofs.Renaming.Wording

/-! A program with other identifiers is visited part by part like the program itself: the visits are
the same up to the identifiers in them and the names that functions are reported under. -/
namespace TagCheck

section

variable {f : Ident → Ident} (hf : ∀ i, (f i).node = i.node)
include hf

theorem Expr.node_rename (e : Expr) : (e.rename f).node = e.node := by
  cases e with
  | ident i => exact hf i
  | function g => cases g; rfl
  | template n t | tagged n tag t => cases t; rfl
  | _ => rfl

theorem Expr.id_rename (e : Expr) : (e.rename f).id = e.id := by
  rw [Expr.id, Expr.id, e.node_rename hf]

theorem Expr.pos_rename (e : Expr) : (e.rename f).pos = e.pos := by
  rw [Expr.pos, Expr.pos, e.node_rename hf]

theorem Pattern.node_rename (p : Pattern) : (p.rename f).node = p.node := by
  cases p with
  | ident i => exact hf i
  | _ => rfl

theorem Pattern.id_rename (p : Pattern) : (p.rename f).id = p.id := by
  rw [Pattern.id, Pattern.id, p.node_rename hf]

theorem Body.result?_rename (b : Body) : (b.rename f).result? = b.result? := by
  cases b with
  | block b => cases b; rfl
  | expr e => exact congrArg some (e.id_rename hf)

end

section

variable (f : Ident → Ident)

@[simp] theorem Expr.renameList_eq (es : List Expr) :
    Expr.renameList f es = es.map (Expr.rename f) := by
  induction es with
  | nil => rfl
  | cons e es ih => rw [Expr.renameList, ih, List.map_cons]

theorem Expr.asIdent?_rename (e : Expr) : (e.rename f).asIdent? = e.asIdent?.map f := by
  cases e with
  | template n t | tagged n tag t => cases t; rfl
  | _ => rfl

theorem Expr.rename_ne_ident (e : Expr) (h : ¬ ∃ i, e = .ident i) (i : Ident) :
    e.rename f ≠ .ident i := by
  intro hi
  have hnew := e.asIdent?_rename f
  rw [hi] at hnew
  obtain ⟨j, hj, -⟩ := Option.map_eq_some_iff.1 hnew.symm
  exact h ⟨j, Expr.eq_ident_of_asIdent? hj⟩

theorem Pattern.asIdent?_rename (p : Pattern) : (p.rename f).asIdent? = p.asIdent?.map f := by
  cases p <;> rfl

end

def Template.rename (f : Ident → Ident) (t : Template) : Template :=
  ⟨t.pos, t.quasis, Expr.renameList f t.parts⟩

theorem Template.loneText?_rename (f : Ident → Ident) (t : Template) :
    (t.rename f).loneText? = t.loneText? := by
  obtain ⟨pos, quasis, parts⟩ := t
  cases parts with
  | nil => rfl
  | cons e es => rcases quasis with _ | ⟨q, _ | ⟨q', qs⟩⟩ <;> rfl

namespace Visit

def rename (f : Ident → Ident) : Visit → Visit
  | identifier i role => identifier (f i) role
  | parameters params => parameters (Pattern.renameList f params)
  | return_ pos argument => return_ pos (Expr.renameOption f argument)
  | declare i => declare (f i)
  | assign n value target => assign n (value.rename f) (target.rename f)
  | assignDefault n target value => assignDefault n (target.rename f) (value.rename f)
  | rest n argument => rest n (argument.rename f)
  | arrayLiteral n elements => arrayLiteral n (Element.rename f elements)
  | call n callee args tail => call n (callee.rename f) (Element.rename f args) tail
  | template n tag label quasi chained => template n tag label (quasi.rename f) chained
  | v => v

/-- The identifiers whose names matter to the visit are as `P` says. A condition reports faults. -/
def Suits (P : Ident → Prop) : Visit → Prop
  | identifier i _ | declare i => P i
  | assign _ _ target | assignDefault _ target _ => ∀ i ∈ target.idents, P i
  | rest _ argument => ∀ i, argument.asIdent? = some i → P i
  | call _ callee _ _ => ∀ i, callee.asIdent? = some i → P i
  | condition code _ _ => code.subject = .fault
  | _ => True

/-- A visit and its counterpart. A function may be reported under another name. -/
inductive Follows (P : Ident → Prop) (f : Ident → Ident) : Visit → Visit → Prop
  | rename {v : Visit} (h : v.Suits P) : Follows P f v (v.rename f)
  | leave (pos : Position) (name name' : String) (result : Option NodeId) :
    Follows P f (leaveFunction pos name result) (leaveFunction pos name' result)

/-- Whether it ends a function that starts at the position. -/
def leavesAt (pos : Position) : Visit → Bool
  | leaveFunction p _ _ => p == pos
  | _ => false

end Visit

def SyntaxNode.isFuncAt (pos : Position) (x : SyntaxNode) : Bool := x.func?.any (·.node.pos == pos)

def Named (P : Ident → Prop) (ns : List SyntaxNode) : Prop := ∀ x ∈ ns, ∀ i, x.ident? = some i → P i

/-- The visits of the nodes `ns` before and after. Each function among the nodes is left at most
once. -/
structure Mirrors (P : Ident → Prop) (f : Ident → Ident) (ns : List SyntaxNode)
    (vs vs' : List Visit) : Prop where
  follows : Named P ns → List.Forall₂ (Visit.Follows P f) vs vs'
  leaves (pos : Position) : vs.countP (Visit.leavesAt pos) ≤ ns.countP (SyntaxNode.isFuncAt pos)

namespace Mirrors

variable {P : Ident → Prop} {f : Ident → Ident} {ns ns' : List SyntaxNode}
  {vs vs' ws ws' : List Visit} {v : Visit} {x : SyntaxNode}

theorem nil : Mirrors P f ns [] [] := ⟨fun _ => .nil, by simp⟩

theorem append (h : Mirrors P f ns vs vs') (h' : Mirrors P f ns' ws ws') :
    Mirrors P f (ns ++ ns') (vs ++ ws) (vs' ++ ws') where
  follows hns := List.rel_append (h.follows fun x hx => hns x (List.mem_append_left _ hx))
    (h'.follows fun x hx => hns x (List.mem_append_right _ hx))
  leaves pos := by
    have := h.leaves pos
    have := h'.leaves pos
    simp only [List.countP_append]
    omega

theorem cons (h : Mirrors P f ns vs vs') : Mirrors P f (x :: ns) vs vs' where
  follows hns := h.follows fun y hy => hns y (List.mem_cons_of_mem x hy)
  leaves pos := Nat.le_trans (h.leaves pos) (by simp [List.countP_cons])

theorem perm (h : Mirrors P f ns vs vs') (hns : ns.Perm ns') : Mirrors P f ns' vs vs' where
  follows hnamed := h.follows fun x hx => hnamed x (hns.subset hx)
  leaves pos := hns.countP_eq _ ▸ h.leaves pos

/-- More visits of the same nodes, none of which ends a function. -/
theorem within (h : Mirrors P f ns vs vs')
    (hws : Named P ns → List.Forall₂ (Visit.Follows P f) ws ws')
    (hleaves : ∀ pos, ws.countP (Visit.leavesAt pos) = 0) :
    Mirrors P f ns (vs ++ ws) (vs' ++ ws') where
  follows hns := List.rel_append (h.follows hns) (hws hns)
  leaves pos := by
    rw [List.countP_append, hleaves pos]
    exact h.leaves pos

theorem then_ (h : Mirrors P f ns vs vs') (hv : Named P ns → v.Suits P)
    (hleaves : ∀ pos, v.leavesAt pos = false) :
    Mirrors P f ns (vs ++ [v]) (vs' ++ [v.rename f]) :=
  h.within (fun hns => .cons (.rename (hv hns)) .nil) fun pos => by simp [hleaves]

theorem single (hv : Named P ns → v.Suits P) (hleaves : ∀ pos, v.leavesAt pos = false) :
    Mirrors P f ns [v] [v.rename f] :=
  nil.then_ hv hleaves

/-- A visit to which no names matter. -/
theorem quiet (h : Mirrors P f ns vs vs') (hv : v.Suits P)
    (hleaves : ∀ pos, v.leavesAt pos = false) :
    Mirrors P f ns (vs ++ [v]) (vs' ++ [v.rename f]) :=
  h.then_ (fun _ => hv) hleaves

/-- The end of a function. -/
theorem leave {g : Func} (h : Mirrors P f ns vs vs') (hx : x.func? = some g) (name name' : String)
    (result : Option NodeId) :
    Mirrors P f (x :: ns) (vs ++ [Visit.leaveFunction g.node.pos name result])
      (vs' ++ [Visit.leaveFunction g.node.pos name' result]) where
  follows hns := List.rel_append (h.cons.follows hns) (.cons (.leave ..) .nil)
  leaves pos := by
    have hsame : SyntaxNode.isFuncAt pos x = (g.node.pos == pos) := by
      rw [SyntaxNode.isFuncAt, hx, Option.any_some]
    simpa [List.countP_cons, Visit.leavesAt, hsame] using h.leaves pos

end Mirrors

theorem Named.of_pattern {P : Ident → Prop} {p : Pattern} {ns : List SyntaxNode} (h : Named P ns)
    (hp : p.nodes ⊆ ns) : ∀ i ∈ p.idents, P i :=
  fun i hi => h _ (hp (p.mem_nodes_of_mem_idents i hi)) i rfl

theorem Named.of_expr {P : Ident → Prop} {e : Expr} {ns : List SyntaxNode} (h : Named P ns)
    (he : .expr e ∈ ns) : ∀ i, e.asIdent? = some i → P i :=
  fun i hi => h _ he i hi

theorem Named.of_asIdent? {P : Ident → Prop} {p : Pattern} {ns : List SyntaxNode} (h : Named P ns)
    (hp : .pattern p ∈ ns) : ∀ i, p.asIdent? = some i → P i :=
  fun i hi => h _ hp i hi

/-- New names for identifiers at the same nodes. Those in `P` keep the name of a tag, and get none. -/
structure Renaming (P : Ident → Prop) where
  toFun : Ident → Ident
  node : ∀ i, (toFun i).node = i.node
  tag : ∀ i, P i → (toFun i).name = i.name ∨
    Tag.ofName? i.name = none ∧ Tag.ofName? (toFun i).name = none

instance {P : Ident → Prop} : CoeFun (Renaming P) fun _ => Ident → Ident := ⟨Renaming.toFun⟩

/-- The rule for a tagged template ends no function. -/
theorem Visit.countP_ofTagged (pos : Position) (n : Node) (quasi : Template)
    (outer : Option NodeId) (tag : Expr) :
    (ofTagged n quasi outer tag).countP (leavesAt pos) = 0 := by
  rw [List.countP_eq_zero]
  unfold ofTagged
  split
  · split
    · simp
    · split <;> simp [leavesAt]
    · split <;> simp [leavesAt]
    · simp [leavesAt]
  · dsimp only
    split <;> simp [leavesAt]
  · simp

/-- The rule for a template whose tag is kept. -/
theorem Visit.forall₂_ofTagged_ident {P : Ident → Prop} {f : Ident → Ident} {i i' : Ident}
    (hname : i'.name = i.name) (n : Node) (quasi : Template) (outer : Option NodeId) :
    List.Forall₂ (Follows P f) (ofTagged n quasi outer (.ident i))
      (ofTagged n (quasi.rename f) outer (.ident i')) := by
  have htemplate (t : Tag) : List.Forall₂ (Follows P f) [.template n t i.name quasi false]
      [.template n t i.name (quasi.rename f) false] := .cons (.rename trivial) .nil
  have hannotate (text : String) : List.Forall₂ (Follows P f) [.annotate n text outer]
      [.annotate n text outer] := .cons (.rename trivial) .nil
  simp only [ofTagged, hname, Template.loneText?_rename]
  cases Tag.ofName? i.name with
  | none => exact .nil
  | some t =>
    cases t <;> cases quasi.loneText? <;> dsimp only <;> (try split) <;>
      first | exact htemplate _ | exact hannotate _ | exact .nil

variable {P : Ident → Prop} (f : Renaming P)

/-- The rule for a tagged template is the same, since the tag is. -/
theorem Visit.forall₂_ofTagged (n : Node) (quasi : Template) (outer : Option NodeId) (tag : Expr)
    (hns : Named P tag.nodes) : List.Forall₂ (Follows P f) (ofTagged n quasi outer tag)
      (ofTagged n (quasi.rename f) outer (tag.rename f)) := by
  cases tag with
  | ident i =>
    rcases f.tag i (hns _ (Expr.mem_nodes _) i rfl) with hname | ⟨hold, hnew⟩
    · exact forall₂_ofTagged_ident hname n quasi outer
    · simp [ofTagged, Expr.rename, hold, hnew]
  | tagged m tag inner =>
    obtain ⟨pos, quasis, parts⟩ := inner
    cases tag with
    | ident i =>
      simp only [ofTagged, Expr.rename]
      rcases f.tag i (hns (.expr (.ident i)) (by simp [Expr.nodes]) i rfl) with
        hname | ⟨hold, hnew⟩
      · rw [hname]
        split
        · exact .cons (.rename trivial) (.cons (.rename trivial) .nil)
        · exact .cons (.rename trivial) (.cons (.rename trivial) .nil)
        · exact .nil
      · simp [hold, hnew]
    | template n' t | tagged n' t' t => cases t; exact .nil
    | _ => exact .nil
  | template n' t => cases t; exact .nil
  | _ => exact .nil

inductive Place.Agrees : Place → Place → Prop
  | names {name name' : Option String} {tail : Bool} {outer : Option NodeId} :
    Agrees ⟨name, tail, outer⟩ ⟨name', tail, outer⟩

mutual

theorem Expr.mirrors : (e : Expr) → ∀ {place place' : Place}, place.Agrees place' →
    Mirrors P f e.nodes (e.visits place) ((e.rename f).visits place')
  | .number _ _, _, _, _ | .bigint _ _, _, _, _ | .str _ _, _, _, _ | .bool _ _, _, _, _
  | .null _, _, _, _ | .regex _ _ _, _, _, _ => .single (fun _ => trivial) fun _ => rfl
  | .this _, _, _, _ => .nil
  | .ident i, _, _, _ => .single (fun h => h _ (Expr.mem_nodes _) i rfl) fun _ => rfl
  | .template n ⟨_, _, parts⟩, _, _, _ => (Expr.mirrorsList parts).cons.quiet trivial fun _ => rfl
  | .tagged n tag ⟨pos, quasis, parts⟩, _, _, @Place.Agrees.names _ _ _ outer => by
    have hrule (hns : Named P (Expr.tagged n tag ⟨pos, quasis, parts⟩).nodes) :=
      Visit.forall₂_ofTagged f n ⟨pos, quasis, parts⟩ outer tag
        (fun x hx => hns x (by simp [Expr.nodes, hx]))
    rw [Expr.nodes] at hrule ⊢
    by_cases hident : ∃ i, tag = .ident i
    · obtain ⟨i, rfl⟩ := hident
      rw [Expr.rename, Expr.rename, Expr.visits, Expr.visits]
      refine Mirrors.within ?_ hrule fun _ => Visit.countP_ofTagged ..
      have htag : Mirrors P f (Expr.ident i).nodes [.identifier i (.templateTag n.id)]
          [.identifier (f i) (.templateTag n.id)] :=
        .single (fun h => h _ (Expr.mem_nodes _) i rfl) fun _ => rfl
      exact (htag.append (Expr.mirrorsList parts)).cons
    · rw [Expr.rename, Expr.visits, Expr.visits]
      · refine Mirrors.within ?_ hrule fun _ => Visit.countP_ofTagged ..
        exact ((tag.mirrors .names).append (Expr.mirrorsList parts)).cons
      · exact tag.rename_ne_ident f hident
      · exact fun i hi => hident ⟨i, hi⟩
  | .array n es, _, _, _ => (Element.mirrors es _).cons.quiet trivial fun _ => rfl
  | .object n props, _, _, _ => (Property.mirrors props).cons.quiet trivial fun _ => rfl
  | .function g, _, _, _ => g.mirrors rfl
  | .unary n op e, _, _, _ | .update n op _ e, _, _, _ => by
    rw [Expr.rename, Expr.visits, Expr.visits, Expr.nodes, e.node_rename f.node]
    exact (e.mirrors .names).cons.quiet trivial fun _ => rfl
  | .binary n op l r, _, _, _ => by
    rw [Expr.rename, Expr.visits, Expr.visits, Expr.nodes, l.node_rename f.node, r.node_rename f.node]
    exact ((l.mirrors .names).append (r.mirrors .names)).cons.quiet trivial fun _ => rfl
  | .logical n op l r, _, _, _ => by
    rw [Expr.rename, Expr.visits, Expr.visits, Expr.nodes, l.node_rename f.node, l.id_rename f.node,
      r.id_rename f.node, List.append_cons, List.append_cons ((l.rename f).visits {} ++ _)]
    exact (((l.mirrors .names).append (r.mirrors .names)).cons.quiet (by rfl)
      (fun _ => by rfl)).quiet trivial fun _ => rfl
  | .conditional n t c a, _, _, _ => by
    rw [Expr.rename, Expr.visits, Expr.visits, Expr.nodes, t.node_rename f.node, c.id_rename f.node,
      a.id_rename f.node, List.append_cons, List.append_cons ((t.rename f).visits {} ++ _ ++ _)]
    exact ((((t.mirrors .names).append (c.mirrors .names)).append (a.mirrors .names)).cons.quiet
      (by rfl) fun _ => by rfl).quiet trivial fun _ => rfl
  | .assign n target value, _, _, _ => by
    rw [Expr.rename, Expr.visits, Expr.visits, Expr.nodes]
    refine Mirrors.then_ ?_ (fun h => h.of_pattern (by simp)) fun _ => rfl
    exact ((target.mirrors .plain).append (value.mirrors .names)).cons
  | .assignMember _ target value, _, _, _ =>
    ((target.mirrors .names).append (value.mirrors .names)).cons
  | .sequence n parts, _, _, _ => by
    rw [Expr.rename, Expr.visits, Expr.visits, Expr.nodes]
    have hparts := (Expr.mirrorsList parts).cons (x := .expr (.sequence n parts))
    have hlast : (Expr.renameList f parts).getLast? = parts.getLast?.map (Expr.rename f) := by
      rw [Expr.renameList_eq, List.getLast?_map]
    cases h : parts.getLast? with
    | none => simpa [hlast, h] using hparts
    | some e =>
      simp only [hlast, h, Option.map_some, Option.toList_some, e.id_rename f.node]
      exact hparts.quiet trivial fun _ => rfl
  | .call n callee args, _, _, .names => by
    rw [Expr.rename, Expr.visits, Expr.visits, Expr.nodes]
    refine Mirrors.then_ ?_ (fun h => h.of_expr (by simp [callee.mem_nodes])) fun _ => rfl
    exact ((callee.mirrors .names).append (Element.mirrors args _)).cons
  | .new n callee args, _, _, _ =>
    ((callee.mirrors .names).append (Element.mirrors args none)).cons.quiet trivial
      fun _ => rfl
  | .member _ object key, _, _, _ => ((object.mirrors .names).append key.mirrors).cons

theorem Expr.mirrorsList : (es : List Expr) →
    Mirrors P f (Expr.nodesList es) (Expr.visitsList es) (Expr.visitsList (Expr.renameList f es))
  | [] => .nil
  | e :: es => (e.mirrors .names).append (Expr.mirrorsList es)

theorem Expr.mirrorsOption : (e? : Option Expr) →
    Mirrors P f (Expr.nodesOption e?) (Expr.visitsOption e?)
      (Expr.visitsOption (Expr.renameOption f e?))
  | none => .nil
  | some e => e.mirrors .names

theorem Key.mirrors : (k : Key) → Mirrors P f k.nodes k.visits (k.rename f).visits
  | .name _ => .nil
  | .computed e => e.mirrors .names

theorem Element.mirrors : (es : List Element) → (expected : Option Tag) →
    Mirrors P f (Element.nodes es) (Element.visits expected es)
      (Element.visits expected (Element.rename f es))
  | [], _ => .nil
  | .hole :: es, expected => Element.mirrors es expected
  | .item e :: es, expected => (e.mirrors .names).append (Element.mirrors es expected)
  | .spread n e :: es, expected => by
    rw [Element.rename, Element.visits, Element.visits, Element.nodes, e.id_rename f.node]
    have hspread : Mirrors P f e.nodes
        (e.visits {} ++ (expected.map fun t => Visit.spread n.pos e.id t).toList)
        ((e.rename f).visits {} ++ (expected.map fun t => Visit.spread n.pos e.id t).toList) := by
      cases expected with
      | none => simpa using e.mirrors .names
      | some t => exact (e.mirrors .names).quiet trivial fun _ => rfl
    exact (hspread.append (Element.mirrors es expected)).cons

theorem Property.mirrors : (ps : List Property) →
    Mirrors P f (Property.nodes ps) (Property.visits ps) (Property.visits (Property.rename f ps))
  | [] => .nil
  | .keyValue k v _ :: ps => (k.mirrors.append (v.mirrors .names)).append (Property.mirrors ps)
  | .method k g :: ps => by
    rw [Property.rename, Property.visits, Property.visits, Property.nodes, List.append_assoc,
      List.append_assoc]
    exact k.mirrors.append ((g.mirrors (x := .method g) rfl).append (Property.mirrors ps))
  | .spread n e :: ps => by
    rw [Property.rename, Property.visits, Property.visits, Property.nodes, e.id_rename f.node]
    exact (((e.mirrors .names).quiet (by trivial) fun _ => by rfl).append
      (Property.mirrors ps)).cons

theorem Pattern.mirrors : (p : Pattern) → (role : Role) →
    Mirrors P f p.nodes (p.visits role) ((p.rename f).visits role)
  | .ident i, _ => .single (fun h => h _ (Pattern.mem_nodes _) i rfl) fun _ => rfl
  | .array n ps, _ => (Pattern.mirrorsElements ps).cons.quiet trivial fun _ => rfl
  | .object n ps, _ => (PatternProp.mirrors ps).cons.quiet trivial fun _ => rfl
  | .withDefault n target value, _ => by
    rw [Pattern.rename, Pattern.nodes]
    by_cases hident : ∃ i, value = .ident i
    · obtain ⟨i, rfl⟩ := hident
      rw [Expr.rename, Pattern.visits, Pattern.visits, List.append_cons,
        List.append_cons ((target.rename f).visits _)]
      have hvalue : Mirrors P f (Expr.ident i).nodes [.identifier i .defaultValue]
          [.identifier (f i) .defaultValue] :=
        .single (fun h => h _ (Expr.mem_nodes _) i rfl) fun _ => rfl
      refine Mirrors.then_ ?_ (fun h => h.of_pattern (by simp)) fun _ => rfl
      exact ((target.mirrors .defaultTarget).append hvalue).cons
    · rw [Pattern.visits, Pattern.visits]
      · refine Mirrors.then_ ?_ (fun h => h.of_pattern (by simp)) fun _ => rfl
        exact ((target.mirrors .defaultTarget).append (value.mirrors .names)).cons
      · exact value.rename_ne_ident f hident
      · exact fun i hi => hident ⟨i, hi⟩
  | .rest n argument, _ =>
    (argument.mirrors .plain).cons.then_
      (fun h => h.of_asIdent? (by simp [argument.mem_nodes])) fun _ => rfl

theorem Pattern.mirrorsElements : (ps : List (Option Pattern)) →
    Mirrors P f (Pattern.nodesElements ps) (Pattern.visitsElements ps)
      (Pattern.visitsElements (Pattern.renameElements f ps))
  | [] => .nil
  | none :: ps => Pattern.mirrorsElements ps
  | some p :: ps => (p.mirrors .plain).append (Pattern.mirrorsElements ps)

theorem Pattern.mirrorsList : (ps : List Pattern) →
    Mirrors P f (Pattern.nodesList ps) (Pattern.visitsList ps)
      (Pattern.visitsList (Pattern.renameList f ps))
  | [] => .nil
  | p :: ps => (p.mirrors .plain).append (Pattern.mirrorsList ps)

theorem PatternProp.mirrors : (ps : List PatternProp) →
    Mirrors P f (PatternProp.nodes ps) (PatternProp.visits ps)
      (PatternProp.visits (PatternProp.rename f ps))
  | [] => .nil
  | .prop _ p :: ps | .rest p :: ps => (p.mirrors .plain).append (PatternProp.mirrors ps)

theorem Func.mirrors {x : SyntaxNode} : (g : Func) → x.func? = some g →
    ∀ {name name' : Option String},
      Mirrors P f (x :: g.nodes) (g.visits name) ((g.rename f).visits name')
  | ⟨node, func, form, name, params, body⟩, hx, place, place' => by
    rw [Func.rename, Func.visits, Func.visits, Func.nodes, body.result?_rename f.node]
    have hname : Mirrors P f (name.toList.map .name)
        ([Visit.enterFunction node.id func] ++
          (name.map fun i => Visit.identifier i (.functionName node)).toList)
        ([Visit.enterFunction node.id func] ++
          ((name.map f).map fun i => Visit.identifier i (.functionName node)).toList) := by
      have henter : Mirrors P f (name.toList.map .name) [.enterFunction node.id func]
          [.enterFunction node.id func] := .single (fun _ => trivial) fun _ => rfl
      cases name with
      | none => exact henter
      | some i => exact henter.then_ (fun h => h (.name i) (by simp) i rfl) fun _ => rfl
    have hparams := (hname.append (Pattern.mirrorsList params)).quiet
      (v := .parameters params) trivial fun _ => rfl
    exact (hparams.append body.mirrors).leave hx _ _ _

theorem Body.mirrors : (b : Body) → Mirrors P f b.nodes b.visits (b.rename f).visits
  | .block ⟨_, stmts⟩ => Stmt.mirrorsList stmts
  | .expr e => e.mirrors .names

theorem Stmt.mirrors : (s : Stmt) → Mirrors P f s.nodes s.visits (s.rename f).visits
  | .declare _ _ ds => Declarator.mirrors ds
  | .function g => g.mirrors rfl
  | .return_ _ none => .single (fun _ => trivial) fun _ => rfl
  | .return_ _ (some e) => (e.mirrors .names).quiet trivial fun _ => rfl
  | .if_ _ t c none => by
    rw [Stmt.rename, Stmt.visits, Stmt.visits, Stmt.nodes, Visit.ofTest, Visit.ofTest,
      t.node_rename f.node]
    exact ((t.mirrors .names).append c.mirrors).quiet rfl fun _ => rfl
  | .if_ _ t c (some a) => by
    rw [Stmt.rename, Stmt.visits, Stmt.visits, Stmt.nodes, Visit.ofTest, Visit.ofTest,
      t.node_rename f.node]
    exact (((t.mirrors .names).append c.mirrors).append a.mirrors).quiet rfl fun _ => rfl
  | .while_ _ t b => by
    rw [Stmt.rename, Stmt.visits, Stmt.visits, Stmt.nodes, Visit.ofTest, Visit.ofTest,
      t.node_rename f.node]
    exact ((t.mirrors .names).append b.mirrors).quiet rfl fun _ => rfl
  | .doWhile _ b t => by
    rw [Stmt.rename, Stmt.visits, Stmt.visits, Stmt.nodes, Visit.ofTest, Visit.ofTest,
      t.node_rename f.node]
    refine Mirrors.quiet ?_ rfl fun _ => rfl
    exact (b.mirrors.append (t.mirrors .names)).perm List.perm_append_comm
  | .for_ _ init test update body =>
    ((init.mirrors.append (Expr.mirrorsOption test)).append
      (Expr.mirrorsOption update)).append body.mirrors
  | .block ⟨_, stmts⟩ => Stmt.mirrorsList stmts
  | .expr e => e.mirrors .names
  | .break_ _ | .continue_ _ | .empty _ => .nil

theorem Stmt.mirrorsList : (ss : List Stmt) →
    Mirrors P f (Stmt.nodesList ss) (Stmt.visitsList ss) (Stmt.visitsList (Stmt.renameList f ss))
  | [] => .nil
  | s :: ss => s.mirrors.append (Stmt.mirrorsList ss)

theorem Declarator.mirrors : (ds : List Declarator) →
    Mirrors P f (Declarator.nodes ds) (Declarator.visits ds)
      (Declarator.visits (Declarator.rename f ds))
  | [] => .nil
  | ⟨_, target, some e⟩ :: ds => by
    rw [Declarator.rename, Expr.renameOption, Declarator.visits, Declarator.visits,
      Declarator.nodes]
    refine Mirrors.append ?_ (Declarator.mirrors ds)
    refine Mirrors.then_ ?_ (fun h => h.of_pattern (by simp)) fun _ => rfl
    exact (target.mirrors .plain).append (e.mirrors .names)
  | ⟨_, target, none⟩ :: ds => by
    rw [Declarator.rename, Expr.renameOption, Declarator.visits, Declarator.visits,
      Declarator.nodes, target.asIdent?_rename]
    have hdeclare : Mirrors P f target.nodes
        (target.visits .plain ++ (target.asIdent?.map Visit.declare).toList)
        ((target.rename f).visits .plain ++
          ((target.asIdent?.map f).map Visit.declare).toList) := by
      cases h : target.asIdent? with
      | none => simpa using target.mirrors .plain
      | some i =>
        exact (target.mirrors .plain).then_
          (fun hns => hns.of_asIdent? target.mem_nodes i h) fun _ => rfl
    exact hdeclare.append (Declarator.mirrors ds)

theorem ForInit.mirrors : (init : ForInit) →
    Mirrors P f init.nodes init.visits (init.rename f).visits
  | .absent => .nil
  | .declare _ ds => Declarator.mirrors ds
  | .expr e => e.mirrors .names

end

end TagCheck
