import TagCheck.Program.Basic

/-! The statements, expressions, patterns and spreads of a program and how they stand inside each
other. An expression may begin with another one, its stem: the left operand of an operator, what is
called, constructed or tagged, or what a property is taken of. All else that stands directly in a
part is a branch of it. -/
namespace TagCheck

inductive Part where
  | stmt (s : Stmt)
  | expr (e : Expr)
  | pattern (p : Pattern)
  | spread (n : Node) (argument : Expr)

def Key.exprs : Key → List Expr
  | .name _ => []
  | .computed e => [e]

def Element.part? : Element → Option Part
  | .hole => none
  | .item e => some (.expr e)
  | .spread n e => some (.spread n e)

def Body.parts : Body → List Part
  | .block b => b.body.map .stmt
  | .expr e => [.expr e]

def Func.parts (f : Func) : List Part := f.params.map .pattern ++ f.body.parts

def Property.parts : Property → List Part
  | .keyValue k v _ => (k.exprs ++ [v]).map .expr
  | .method k f => k.exprs.map .expr ++ f.parts
  | .spread n e => [.spread n e]

def PatternProp.pattern : PatternProp → Pattern
  | .prop _ p | .rest p => p

def Declarator.parts (d : Declarator) : List Part := .pattern d.target :: d.init.toList.map .expr

def ForInit.parts : ForInit → List Part
  | .absent => []
  | .declare _ ds => ds.flatMap Declarator.parts
  | .expr e => [.expr e]

namespace Expr

def stem? : Expr → Option Expr
  | .binary _ _ l _ | .logical _ _ l _ => some l
  | .tagged _ tag _ => some tag
  | .call _ callee _ | .new _ callee _ => some callee
  | .member _ base _ => some base
  | .number .. | .bigint .. | .str .. | .bool .. | .null _ | .regex .. | .this _ | .ident _ => none
  | .template .. | .array .. | .object .. | .function _ | .unary .. | .update .. => none
  | .conditional .. | .assign .. | .assignMember .. | .sequence .. => none

def branches : Expr → List Part
  | .number .. | .bigint .. | .str .. | .bool .. | .null _ | .regex .. | .this _ | .ident _ => []
  | .template _ t | .tagged _ _ t => t.parts.map .expr
  | .array _ elements => elements.filterMap Element.part?
  | .object _ props => props.flatMap Property.parts
  | .function f => f.parts
  | .unary _ _ e | .update _ _ _ e => [.expr e]
  | .binary _ _ _ r | .logical _ _ _ r => [.expr r]
  | .conditional _ t c a => [.expr t, .expr c, .expr a]
  | .assign _ target value => [.pattern target, .expr value]
  | .assignMember _ target value => [.expr target, .expr value]
  | .sequence _ parts => parts.map .expr
  | .call _ _ args | .new _ _ args => args.filterMap Element.part?
  | .member _ _ key => key.exprs.map .expr

end Expr

def Pattern.branches : Pattern → List Part
  | .ident _ => []
  | .array _ elements => elements.flatMap fun o => o.toList.map .pattern
  | .object _ props => props.map fun q => .pattern q.pattern
  | .withDefault _ target value => [.pattern target, .expr value]
  | .rest _ argument => [.pattern argument]

def Stmt.branches : Stmt → List Part
  | .declare _ _ ds => ds.flatMap Declarator.parts
  | .function f => f.parts
  | .return_ _ e => e.toList.map .expr
  | .if_ _ t c a => .expr t :: .stmt c :: a.toList.map .stmt
  | .while_ _ t b => [.expr t, .stmt b]
  | .doWhile _ b t => [.stmt b, .expr t]
  | .for_ _ init t u b => init.parts ++ (t.toList ++ u.toList).map .expr ++ [.stmt b]
  | .block b => b.body.map .stmt
  | .expr e => [.expr e]
  | .break_ _ | .continue_ _ | .empty _ => []

namespace Part

def stem? : Part → Option Part
  | stmt _ | pattern _ | spread .. => none
  | expr e => e.stem?.map expr

def branches : Part → List Part
  | stmt s => s.branches
  | expr e => e.branches
  | pattern p => p.branches
  | spread _ argument => [expr argument]

/-- What stands directly in a part. -/
def children (x : Part) : List Part := x.stem?.toList ++ x.branches

end Part

/-- The parts of a program, at any depth. -/
inductive Program.HasPart (p : Program) : Part → Prop where
  | body {s : Stmt} : s ∈ p.body → p.HasPart (.stmt s)
  | child {x y : Part} : p.HasPart x → y ∈ x.children → p.HasPart y

end TagCheck
