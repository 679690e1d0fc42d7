import TagCheck.Proofs.Program.Nodes

/-! Parts of programs that have only certain nodes, functions and places of `return` statements. -/
namespace TagCheck

def SyntaxNode.node : SyntaxNode → Node
  | expr e => e.node
  | pattern p => p.node
  | spread n _ => n
  | name i => i.node
  | declaration f | method f => f.node

theorem SyntaxNode.id_node (x : SyntaxNode) : x.node.id = x.id := by
  cases x <;> rfl

theorem SyntaxNode.node_of_ident? {x : SyntaxNode} {i : Ident} (h : x.ident? = some i) :
    x.node = i.node := by
  cases x with
  | expr e => cases e <;> cases h; rfl
  | pattern p => cases p <;> cases h; rfl
  | name i => cases h; rfl
  | _ => cases h

theorem SyntaxNode.node_of_func? {x : SyntaxNode} {f : Func} (h : x.func? = some f) :
    x.node = f.node := by
  cases x with
  | expr e => cases e <;> cases h; rfl
  | declaration f | method f => cases h; rfl
  | _ => cases h

theorem SyntaxNode.id_of_ident? {x : SyntaxNode} {i : Ident} (h : x.ident? = some i) :
    x.id = i.node.id :=
  x.id_node ▸ congrArg Node.id (node_of_ident? h)

theorem SyntaxNode.id_of_func? {x : SyntaxNode} {f : Func} (h : x.func? = some f) :
    x.id = f.node.id :=
  x.id_node ▸ congrArg Node.id (node_of_func? h)

mutual

def Expr.returns : Expr → List Position
  | .number .. | .bigint .. | .str .. | .bool .. | .null _ | .regex .. | .this _ | .ident _ => []
  | .template _ ⟨_, _, parts⟩ => Expr.returnsList parts
  | .tagged _ tag ⟨_, _, parts⟩ => tag.returns ++ Expr.returnsList parts
  | .array _ elements => Element.returns elements
  | .object _ props => Property.returns props
  | .function f => f.returns
  | .unary _ _ a | .update _ _ _ a => a.returns
  | .binary _ _ l r | .logical _ _ l r => l.returns ++ r.returns
  | .conditional _ t c a => t.returns ++ c.returns ++ a.returns
  | .assign _ target value => target.returns ++ value.returns
  | .assignMember _ target value => target.returns ++ value.returns
  | .sequence _ parts => Expr.returnsList parts
  | .call _ callee args | .new _ callee args => callee.returns ++ Element.returns args
  | .member _ object key => object.returns ++ key.returns

def Expr.returnsList : List Expr → List Position
  | [] => []
  | e :: es => e.returns ++ Expr.returnsList es

def Expr.returnsOption : Option Expr → List Position
  | none => []
  | some e => e.returns

def Key.returns : Key → List Position
  | .name _ => []
  | .computed e => e.returns

def Element.returns : List Element → List Position
  | [] => []
  | .hole :: es => Element.returns es
  | .item e :: es => e.returns ++ Element.returns es
  | .spread _ e :: es => e.returns ++ Element.returns es

def Property.returns : List Property → List Position
  | [] => []
  | .keyValue k v _ :: ps => k.returns ++ v.returns ++ Property.returns ps
  | .method k f :: ps => k.returns ++ (f.returns ++ Property.returns ps)
  | .spread _ e :: ps => e.returns ++ Property.returns ps

def Pattern.returns : Pattern → List Position
  | .ident _ => []
  | .array _ elements => Pattern.returnsElements elements
  | .object _ props => PatternProp.returns props
  | .withDefault _ target value => target.returns ++ value.returns
  | .rest _ argument => argument.returns

def Pattern.returnsElements : List (Option Pattern) → List Position
  | [] => []
  | none :: ps => Pattern.returnsElements ps
  | some p :: ps => p.returns ++ Pattern.returnsElements ps

def Pattern.returnsList : List Pattern → List Position
  | [] => []
  | p :: ps => p.returns ++ Pattern.returnsList ps

def PatternProp.returns : List PatternProp → List Position
  | [] => []
  | .prop _ p :: ps | .rest p :: ps => p.returns ++ PatternProp.returns ps

def Func.returns : Func → List Position
  | ⟨_, _, _, _, params, body⟩ => Pattern.returnsList params ++ body.returns

def Body.returns : Body → List Position
  | .block ⟨_, stmts⟩ => Stmt.returnsList stmts
  | .expr e => e.returns

def Stmt.returns : Stmt → List Position
  | .declare _ _ ds => Declarator.returns ds
  | .function f => f.returns
  | .return_ pos none => [pos]
  | .return_ pos (some e) => pos :: e.returns
  | .if_ _ t c none => t.returns ++ c.returns
  | .if_ _ t c (some a) => t.returns ++ c.returns ++ a.returns
  | .while_ _ t b => t.returns ++ b.returns
  | .doWhile _ b t => t.returns ++ b.returns
  | .for_ _ init test update body =>
    init.returns ++ Expr.returnsOption test ++ Expr.returnsOption update ++ body.returns
  | .block ⟨_, stmts⟩ => Stmt.returnsList stmts
  | .expr e => e.returns
  | .break_ _ | .continue_ _ | .empty _ => []

def Stmt.returnsList : List Stmt → List Position
  | [] => []
  | s :: ss => s.returns ++ Stmt.returnsList ss

def Declarator.returns : List Declarator → List Position
  | [] => []
  | ⟨_, target, none⟩ :: ds => target.returns ++ Declarator.returns ds
  | ⟨_, target, some e⟩ :: ds => target.returns ++ e.returns ++ Declarator.returns ds

def ForInit.returns : ForInit → List Position
  | .absent => []
  | .declare _ ds => Declarator.returns ds
  | .expr e => e.returns

end

def Program.returns (p : Program) : List Position := Stmt.returnsList p.body

/-- The nodes, functions and places of `return` statements that a part of a program may have. -/
structure Region where
  node : Node → Prop
  func : FuncId → Prop
  return_ : Position → Prop

theorem Func.returns_eq (f : Func) :
    f.returns = Pattern.returnsList f.params ++ f.body.returns := by
  obtain ⟨⟩ := f
  rw [Func.returns]

namespace Region

def id (r : Region) (n : NodeId) : Prop := ∃ m, r.node m ∧ m.id = n

def pos (r : Region) (q : Position) : Prop := r.return_ q ∨ ∃ m, r.node m ∧ m.pos = q

/-- A part with these nodes and `return` statements belongs to the region. -/
structure Has (r : Region) (ns : List SyntaxNode) (rs : List Position) : Prop where
  nodes : ∀ x ∈ ns, r.node x.node
  funcs : ∀ x ∈ ns, ∀ f, x.func? = some f → r.func f.func
  returns : ∀ q ∈ rs, r.return_ q

variable {r : Region} {ns ns' : List SyntaxNode} {rs rs' : List Position} {x : SyntaxNode}

theorem Has.mono (h : r.Has ns rs) (hns : ns' ⊆ ns) (hrs : rs' ⊆ rs) : r.Has ns' rs' :=
  ⟨fun x hx => h.nodes x (hns hx), fun x hx => h.funcs x (hns hx), fun q hq => h.returns q (hrs hq)⟩

theorem id_of_node {n : Node} (h : r.node n) : r.id n.id := ⟨n, h, rfl⟩

theorem pos_of_node {n : Node} (h : r.node n) : r.pos n.pos := .inr ⟨n, h, rfl⟩

@[simp] theorem has_nil : r.Has [] [] := ⟨by simp, by simp, by simp⟩

@[simp] theorem has_cons : r.Has (x :: ns) rs ↔
    (r.node x.node ∧ ∀ f, x.func? = some f → r.func f.func) ∧ r.Has ns rs := by
  constructor
  · rintro ⟨hnodes, hfuncs, hreturns⟩
    rw [List.forall_mem_cons] at hnodes hfuncs
    exact ⟨⟨hnodes.1, hfuncs.1⟩, hnodes.2, hfuncs.2, hreturns⟩
  · rintro ⟨⟨hnode, hfunc⟩, hns⟩
    exact ⟨List.forall_mem_cons.2 ⟨hnode, hns.nodes⟩, List.forall_mem_cons.2 ⟨hfunc, hns.funcs⟩,
      hns.returns⟩

@[simp] theorem has_append : r.Has (ns ++ ns') (rs ++ rs') ↔ r.Has ns rs ∧ r.Has ns' rs' := by
  constructor
  · rintro ⟨hnodes, hfuncs, hreturns⟩
    rw [List.forall_mem_append] at hnodes hfuncs hreturns
    exact ⟨⟨hnodes.1, hfuncs.1, hreturns.1⟩, hnodes.2, hfuncs.2, hreturns.2⟩
  · rintro ⟨h, h'⟩
    exact ⟨List.forall_mem_append.2 ⟨h.nodes, h'.nodes⟩,
      List.forall_mem_append.2 ⟨h.funcs, h'.funcs⟩,
      List.forall_mem_append.2 ⟨h.returns, h'.returns⟩⟩

@[simp] theorem has_return {q : Position} : r.Has ns (q :: rs) ↔ r.return_ q ∧ r.Has ns rs := by
  constructor
  · rintro ⟨hnodes, hfuncs, hreturns⟩
    rw [List.forall_mem_cons] at hreturns
    exact ⟨hreturns.1, hnodes, hfuncs, hreturns.2⟩
  · rintro ⟨hq, h⟩
    exact ⟨h.nodes, h.funcs, List.forall_mem_cons.2 ⟨hq, h.returns⟩⟩

theorem has_name {name : Option Ident} : r.Has (name.toList.map .name ++ ns) rs ↔
    (∀ i ∈ name, r.node i.node) ∧ r.Has ns rs := by
  cases name with
  | none => simp
  | some i => simp [SyntaxNode.node, SyntaxNode.func?]

end Region

/-! A list of parts belongs to a region if each of them does. -/

section

variable {r : Region}

theorem Expr.has_list {es : List Expr} : r.Has (Expr.nodesList es) (Expr.returnsList es) ↔
    ∀ e ∈ es, r.Has e.nodes e.returns := by
  induction es with
  | nil => simp [Expr.nodesList, Expr.returnsList]
  | cons e es ih => simp [Expr.nodesList, Expr.returnsList, ih]

theorem Element.has_list {es : List Element} : r.Has (Element.nodes es) (Element.returns es) ↔
    ∀ e ∈ es, r.Has (Element.nodes [e]) (Element.returns [e]) := by
  induction es with
  | nil => simp [Element.nodes, Element.returns]
  | cons e es ih =>
    rw [List.forall_mem_cons, ← ih]
    cases e <;> simp [Element.nodes, Element.returns, and_assoc]

theorem Property.has_list {ps : List Property} :
    r.Has (Property.nodes ps) (Property.returns ps) ↔
      ∀ p ∈ ps, r.Has (Property.nodes [p]) (Property.returns [p]) := by
  induction ps with
  | nil => simp [Property.nodes, Property.returns]
  | cons p ps ih =>
    rw [List.forall_mem_cons, ← ih]
    cases p <;> simp [Property.nodes, Property.returns, and_assoc]

theorem Pattern.has_elements {ps : List (Option Pattern)} :
    r.Has (Pattern.nodesElements ps) (Pattern.returnsElements ps) ↔
      ∀ o ∈ ps, ∀ p ∈ o, r.Has p.nodes p.returns := by
  induction ps with
  | nil => simp [Pattern.nodesElements, Pattern.returnsElements]
  | cons o ps ih =>
    rw [List.forall_mem_cons, ← ih]
    cases o <;> simp [Pattern.nodesElements, Pattern.returnsElements]

theorem Pattern.has_list {ps : List Pattern} :
    r.Has (Pattern.nodesList ps) (Pattern.returnsList ps) ↔ ∀ p ∈ ps, r.Has p.nodes p.returns := by
  induction ps with
  | nil => simp [Pattern.nodesList, Pattern.returnsList]
  | cons p ps ih => simp [Pattern.nodesList, Pattern.returnsList, ih]

theorem PatternProp.has_list {ps : List PatternProp} :
    r.Has (PatternProp.nodes ps) (PatternProp.returns ps) ↔
      ∀ p ∈ ps, r.Has (PatternProp.nodes [p]) (PatternProp.returns [p]) := by
  induction ps with
  | nil => simp [PatternProp.nodes, PatternProp.returns]
  | cons p ps ih =>
    rw [List.forall_mem_cons, ← ih]
    cases p <;> simp [PatternProp.nodes, PatternProp.returns]

theorem Stmt.has_list {ss : List Stmt} : r.Has (Stmt.nodesList ss) (Stmt.returnsList ss) ↔
    ∀ s ∈ ss, r.Has s.nodes s.returns := by
  induction ss with
  | nil => simp [Stmt.nodesList, Stmt.returnsList]
  | cons s ss ih => simp [Stmt.nodesList, Stmt.returnsList, ih]

theorem Declarator.has_list {ds : List Declarator} :
    r.Has (Declarator.nodes ds) (Declarator.returns ds) ↔
      ∀ d ∈ ds, r.Has (Declarator.nodes [d]) (Declarator.returns [d]) := by
  induction ds with
  | nil => simp [Declarator.nodes, Declarator.returns]
  | cons d ds ih =>
    rw [List.forall_mem_cons, ← ih]
    obtain ⟨pos, target, init⟩ := d
    cases init <;> simp [Declarator.nodes, Declarator.returns, and_assoc]

end

end TagCheck
