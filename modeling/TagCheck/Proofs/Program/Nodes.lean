import TagCheck.Program.Basic

/-! The numbered parts of a program. Every expression and every pattern has a number, and so have
spreads, the names of functions, and the functions that are no expressions. An identifier is listed
as the expression, the pattern or the name that it is, and a function expression as an expression,
so nothing is listed twice. -/
namespace TagCheck

inductive SyntaxNode where
  | expr (e : Expr)
  | pattern (p : Pattern)
  | spread (n : Node) (argument : Expr)
  /-- The name of a function. -/
  | name (i : Ident)
  | declaration (f : Func)
  | method (f : Func)

namespace SyntaxNode

def id : SyntaxNode → NodeId
  | expr e => e.id
  | pattern p => p.id
  | spread n _ => n.id
  | name i => i.node.id
  | declaration f | method f => f.node.id

def ident? : SyntaxNode → Option Ident
  | expr e => e.asIdent?
  | pattern p => p.asIdent?
  | name i => some i
  | _ => none

def func? : SyntaxNode → Option Func
  | expr e => e.asFunc?
  | declaration f | method f => some f
  | _ => none

/-- Whether a function is of the form that its place demands. A method has no name of its own. -/
def isInPlace : SyntaxNode → Bool
  | expr (.function f) => f.form == .expression || f.form == .arrow
  | declaration f => f.form == .declaration
  | method f => f.form == .method && f.name.isNone
  | _ => true

end SyntaxNode

mutual

def Expr.nodes : Expr → List SyntaxNode
  | e@(.number ..) | e@(.bigint ..) | e@(.str ..) | e@(.bool ..) | e@(.null _) => [.expr e]
  | e@(.regex ..) | e@(.this _) | e@(.ident _) => [.expr e]
  | e@(.template _ ⟨_, _, parts⟩) => .expr e :: Expr.nodesList parts
  | e@(.tagged _ tag ⟨_, _, parts⟩) => .expr e :: (tag.nodes ++ Expr.nodesList parts)
  | e@(.array _ elements) => .expr e :: Element.nodes elements
  | e@(.object _ props) => .expr e :: Property.nodes props
  | e@(.function f) => .expr e :: f.nodes
  | e@(.unary _ _ a) | e@(.update _ _ _ a) => .expr e :: a.nodes
  | e@(.binary _ _ l r) | e@(.logical _ _ l r) => .expr e :: (l.nodes ++ r.nodes)
  | e@(.conditional _ t c a) => .expr e :: (t.nodes ++ c.nodes ++ a.nodes)
  | e@(.assign _ target value) => .expr e :: (target.nodes ++ value.nodes)
  | e@(.assignMember _ target value) => .expr e :: (target.nodes ++ value.nodes)
  | e@(.sequence _ parts) => .expr e :: Expr.nodesList parts
  | e@(.call _ callee args) | e@(.new _ callee args) =>
    .expr e :: (callee.nodes ++ Element.nodes args)
  | e@(.member _ object key) => .expr e :: (object.nodes ++ key.nodes)

def Expr.nodesList : List Expr → List SyntaxNode
  | [] => []
  | e :: es => e.nodes ++ Expr.nodesList es

def Expr.nodesOption : Option Expr → List SyntaxNode
  | none => []
  | some e => e.nodes

def Key.nodes : Key → List SyntaxNode
  | .name _ => []
  | .computed e => e.nodes

def Element.nodes : List Element → List SyntaxNode
  | [] => []
  | .hole :: es => Element.nodes es
  | .item e :: es => e.nodes ++ Element.nodes es
  | .spread n e :: es => .spread n e :: (e.nodes ++ Element.nodes es)

def Property.nodes : List Property → List SyntaxNode
  | [] => []
  | .keyValue k v _ :: ps => k.nodes ++ v.nodes ++ Property.nodes ps
  | .method k f :: ps => k.nodes ++ .method f :: (f.nodes ++ Property.nodes ps)
  | .spread n e :: ps => .spread n e :: (e.nodes ++ Property.nodes ps)

def Pattern.nodes : Pattern → List SyntaxNode
  | .ident i => [.pattern (.ident i)]
  | p@(.array _ elements) => .pattern p :: Pattern.nodesElements elements
  | p@(.object _ props) => .pattern p :: PatternProp.nodes props
  | p@(.withDefault _ target value) => .pattern p :: (target.nodes ++ value.nodes)
  | p@(.rest _ argument) => .pattern p :: argument.nodes

def Pattern.nodesElements : List (Option Pattern) → List SyntaxNode
  | [] => []
  | none :: ps => Pattern.nodesElements ps
  | some p :: ps => p.nodes ++ Pattern.nodesElements ps

def Pattern.nodesList : List Pattern → List SyntaxNode
  | [] => []
  | p :: ps => p.nodes ++ Pattern.nodesList ps

def PatternProp.nodes : List PatternProp → List SyntaxNode
  | [] => []
  | .prop _ p :: ps | .rest p :: ps => p.nodes ++ PatternProp.nodes ps

/-- The nodes inside a function. Its own node is that of its place. -/
def Func.nodes : Func → List SyntaxNode
  | ⟨_, _, _, name, params, body⟩ =>
    name.toList.map .name ++ Pattern.nodesList params ++ body.nodes

def Body.nodes : Body → List SyntaxNode
  | .block ⟨_, stmts⟩ => Stmt.nodesList stmts
  | .expr e => e.nodes

def Stmt.nodes : Stmt → List SyntaxNode
  | .declare _ _ ds => Declarator.nodes ds
  | .function f => .declaration f :: f.nodes
  | .return_ _ none => []
  | .return_ _ (some e) => e.nodes
  | .if_ _ t c none => t.nodes ++ c.nodes
  | .if_ _ t c (some a) => t.nodes ++ c.nodes ++ a.nodes
  | .while_ _ t b => t.nodes ++ b.nodes
  | .doWhile _ b t => t.nodes ++ b.nodes
  | .for_ _ init test update body =>
    init.nodes ++ Expr.nodesOption test ++ Expr.nodesOption update ++ body.nodes
  | .block ⟨_, stmts⟩ => Stmt.nodesList stmts
  | .expr e => e.nodes
  | .break_ _ | .continue_ _ | .empty _ => []

def Stmt.nodesList : List Stmt → List SyntaxNode
  | [] => []
  | s :: ss => s.nodes ++ Stmt.nodesList ss

def Declarator.nodes : List Declarator → List SyntaxNode
  | [] => []
  | ⟨_, target, none⟩ :: ds => target.nodes ++ Declarator.nodes ds
  | ⟨_, target, some e⟩ :: ds => target.nodes ++ e.nodes ++ Declarator.nodes ds

def ForInit.nodes : ForInit → List SyntaxNode
  | .absent => []
  | .declare _ ds => Declarator.nodes ds
  | .expr e => e.nodes

end

theorem Func.nodes_eq (f : Func) : f.nodes =
    f.name.toList.map .name ++ Pattern.nodesList f.params ++ f.body.nodes := by
  cases f
  rw [nodes]

namespace Program

def nodes (p : Program) : List SyntaxNode := Stmt.nodesList p.body

def funcs (p : Program) : List Func := p.nodes.filterMap SyntaxNode.func?

def identifiers (p : Program) : List Ident := p.nodes.filterMap SyntaxNode.ident?

end Program

theorem Expr.mem_nodes (e : Expr) : .expr e ∈ e.nodes := by
  cases e with
  | template n t | tagged n tag t =>
    cases t
    simp [Expr.nodes]
  | _ => simp [Expr.nodes]

theorem Pattern.mem_nodes (p : Pattern) : .pattern p ∈ p.nodes := by
  cases p <;> simp [Pattern.nodes]

end TagCheck
