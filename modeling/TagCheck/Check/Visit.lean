import TagCheck.Diagnostic.Code
import TagCheck.Program.Basic
import TagCheck.Tag
import TagCheck.Text.Basic

/-! The order in which a pass looks at the parts of a program. Every part comes after the parts
that it consists of, so its rule finds their types. -/
namespace TagCheck

/-- Where an identifier stands, as far as its type depends on it. -/
inductive Role where
  | plain
  /-- The tag of the template with this node. -/
  | templateTag (n : NodeId)
  | defaultValue
  /-- The name of the function with this node. -/
  | functionName (n : Node)
  /-- What has a default value. -/
  | defaultTarget

/-- One application of a rule. -/
inductive Visit where
  /-- The node is of this type, whatever its parts are. -/
  | infer (n : NodeId) (t : Tag)
  | identifier (i : Ident) (role : Role)
  | enterFunction (n : NodeId) (f : FuncId)
  | parameters (params : List Pattern)
  /-- A function ends whose result, if it is no block, has the given node. -/
  | leaveFunction (pos : Position) (name : String) (result : Option NodeId)
  | return_ (pos : Position) (argument : Option Expr)
  | condition (code : Code) (label : String) (n : Node)
  | declare (i : Ident)
  /-- The value goes to the target, and its type to the node of the assignment. -/
  | assign (n : Option NodeId) (value : Expr) (target : Pattern)
  | assignDefault (n : NodeId) (target : Pattern) (value : Expr)
  | rest (n : NodeId) (argument : Pattern)
  | spread (pos : Position) (argument : NodeId) (expected : Tag)
  | arrayLiteral (n : Node) (elements : List Element)
  | unary (n : NodeId) (op : UnaryOp) (argument : Node)
  | update (n : NodeId) (op : UpdateOp) (argument : Node)
  | binary (n : Node) (op : BinaryOp) (left right : Node)
  /-- The value of the node is one of two others. -/
  | select (n a b : NodeId)
  /-- The node is of the same type as another. -/
  | inherit (n source : NodeId)
  /-- In a tail call the value of the call is the value of the enclosing function. -/
  | call (n : Node) (callee : Expr) (args : List Element) (tail : Bool)
  /-- A tagged template whose text describes a shape. It may be the tag of another one. -/
  | annotate (n : Node) (text : String) (outer : Option NodeId)
  /-- A tagged template. If it is chained, its tag is an annotation. -/
  | template (n : Node) (tag : Tag) (label : String) (quasi : Template) (chained : Bool)

/-- What an expression is to the one that it is part of. -/
structure Place where
  /-- The name by which a function in this place is known. -/
  name : Option String := none
  /-- The value of the enclosing function. -/
  tail : Bool := false
  /-- The tagged template whose tag it is. -/
  outer : Option NodeId := none

/-- The text of a template without substitutions. -/
def Template.loneText? (t : Template) : Option String :=
  match t.quasis, t.parts with
  | [q], [] => some q.cooked
  | _, _ => none

/-- Whether the text stands between two characters, apart from blanks. -/
def isEnclosed (left right : Char) (s : String) : Bool :=
  match Text.trimChars s.toList with
  | c :: d :: cs => c == left && (d :: cs).getLast? == some right
  | _ => false

/-- The rule for a tagged template, whose parts have been visited. -/
def Visit.ofTagged (n : Node) (quasi : Template) (outer : Option NodeId) : Expr → List Visit
  | .ident i =>
    match Tag.ofName? i.name, quasi.loneText? with
    | none, _ => []
    | some .array, some text =>
      if isEnclosed '[' ']' text then [.template n .array i.name quasi false]
      else [.annotate n text outer]
    | some .object, some text =>
      if isEnclosed '\x7b' '\x7d' text then [.template n .object i.name quasi false] else []
    | some t, _ => [.template n t i.name quasi false]
  | .tagged m (.ident i) inner =>
    let label := i.name ++ "`" ++ ((inner.quasis.head?.map (·.raw)).getD "") ++ "`"
    match Tag.ofName? i.name with
    | some .array => [.inherit n.id m.id, .template n .array label quasi true]
    | some .object => [.inherit n.id m.id, .template n .object label quasi true]
    | _ => []
  | _ => []

def Visit.ofTest (code : Code) (label : String) (test : Expr) : Visit :=
  .condition code (label ++ ", unexpected type") test.node

def Visit.ofNumber (n : Node) (x : Double) : Visit :=
  .infer n.id (if x.isSafeInteger then .int else if x.isFinite then .finite else .number)

/-- The node of a body that is an expression. -/
def Body.result? : Body → Option NodeId
  | .block _ => none
  | .expr e => some e.id

/-- The name under which a function is reported. -/
def Func.reportName (name : Option Ident) (place : Option String) : String :=
  ((name.map (·.name)).orElse fun _ => place).getD "(anonymous)"

mutual

def Expr.visits (place : Place) : Expr → List Visit
  | .number n x => [.ofNumber n x]
  | .bigint n _ => [.infer n.id .bint]
  | .str n _ => [.infer n.id .string]
  | .bool n _ => [.infer n.id .bool]
  | .null n => [.infer n.id .nul]
  | .regex n _ _ => [.infer n.id .regex]
  | .this _ => []
  | .ident i => [.identifier i .plain]
  | .template n ⟨_, _, parts⟩ => Expr.visitsList parts ++ [.infer n.id .string]
  | .tagged n (.ident i) ⟨pos, quasis, parts⟩ =>
    [.identifier i (.templateTag n.id)] ++ Expr.visitsList parts
      ++ Visit.ofTagged n ⟨pos, quasis, parts⟩ place.outer (.ident i)
  | .tagged n tag ⟨pos, quasis, parts⟩ =>
    tag.visits { outer := some n.id } ++ Expr.visitsList parts
      ++ Visit.ofTagged n ⟨pos, quasis, parts⟩ place.outer tag
  | .array n elements => Element.visits (some .array) elements ++ [.arrayLiteral n elements]
  | .object n props => Property.visits props ++ [.infer n.id .object]
  | .function f => f.visits place.name
  | .unary n op e => e.visits {} ++ [.unary n.id op e.node]
  | .update n op _ e => e.visits {} ++ [.update n.id op e.node]
  | .binary n op l r => l.visits {} ++ r.visits {} ++ [.binary n op l.node r.node]
  | .logical n op l r =>
    let label := "Logical `" ++ op.text ++ "` expression, unexpected condition (left side) type"
    l.visits {} ++ r.visits {} ++ [.condition .logicalCondType label l.node, .select n.id l.id r.id]
  | .conditional n t c a =>
    let label := "Ternary `?:` expression, unexpected condition type"
    t.visits {} ++ c.visits {} ++ a.visits {}
      ++ [.condition .ternaryCondType label t.node, .select n.id c.id a.id]
  | .assign n target value =>
    target.visits .plain ++ value.visits { name := target.asIdent?.map (·.name) }
      ++ [.assign (some n.id) value target]
  | .assignMember _ target value => target.visits {} ++ value.visits {}
  | .sequence n parts =>
    Expr.visitsList parts ++ (parts.getLast?.map fun e => Visit.inherit n.id e.id).toList
  | .call n callee args =>
    callee.visits {} ++ Element.visits (some .array) args ++ [.call n callee args place.tail]
  | .new n callee args => callee.visits {} ++ Element.visits none args ++ [.infer n.id .object]
  | .member _ object key => object.visits {} ++ key.visits

def Expr.visitsList : List Expr → List Visit
  | [] => []
  | e :: es => e.visits {} ++ Expr.visitsList es

def Expr.visitsOption : Option Expr → List Visit
  | none => []
  | some e => e.visits {}

def Key.visits : Key → List Visit
  | .name _ => []
  | .computed e => e.visits {}

/-- The type that a spread is expected to have is checked if there is one. -/
def Element.visits (expected : Option Tag) : List Element → List Visit
  | [] => []
  | .hole :: es => Element.visits expected es
  | .item e :: es => e.visits {} ++ Element.visits expected es
  | .spread n e :: es =>
    e.visits {} ++ (expected.map fun t => Visit.spread n.pos e.id t).toList
      ++ Element.visits expected es

def Property.visits : List Property → List Visit
  | [] => []
  | .keyValue k v _ :: ps => k.visits ++ v.visits { name := k.asName? } ++ Property.visits ps
  | .method k f :: ps => k.visits ++ f.visits k.asName? ++ Property.visits ps
  | .spread n e :: ps => e.visits {} ++ [.spread n.pos e.id .object] ++ Property.visits ps

def Pattern.visits (role : Role) : Pattern → List Visit
  | .ident i => [.identifier i role]
  | .array n elements => Pattern.visitsElements elements ++ [.infer n.id .array]
  | .object n props => PatternProp.visits props ++ [.infer n.id .object]
  | .withDefault n target (.ident i) =>
    target.visits .defaultTarget
      ++ [.identifier i .defaultValue, .assignDefault n.id target (.ident i)]
  | .withDefault n target value =>
    target.visits .defaultTarget ++ value.visits { name := target.asIdent?.map (·.name) }
      ++ [.assignDefault n.id target value]
  | .rest n argument => argument.visits .plain ++ [.rest n.id argument]

def Pattern.visitsElements : List (Option Pattern) → List Visit
  | [] => []
  | none :: ps => Pattern.visitsElements ps
  | some p :: ps => p.visits .plain ++ Pattern.visitsElements ps

def Pattern.visitsList : List Pattern → List Visit
  | [] => []
  | p :: ps => p.visits .plain ++ Pattern.visitsList ps

def PatternProp.visits : List PatternProp → List Visit
  | [] => []
  | .prop _ p :: ps => p.visits .plain ++ PatternProp.visits ps
  | .rest p :: ps => p.visits .plain ++ PatternProp.visits ps

def Func.visits (place : Option String) : Func → List Visit
  | ⟨node, func, _, name, params, body⟩ =>
    [.enterFunction node.id func]
      ++ (name.map fun i => Visit.identifier i (.functionName node)).toList
      ++ Pattern.visitsList params ++ [.parameters params] ++ body.visits
      ++ [.leaveFunction node.pos (Func.reportName name place) body.result?]

def Body.visits : Body → List Visit
  | .block ⟨_, stmts⟩ => Stmt.visitsList stmts
  | .expr e => e.visits { tail := true }

def Stmt.visits : Stmt → List Visit
  | .declare _ _ ds => Declarator.visits ds
  | .function f => f.visits none
  | .return_ pos none => [.return_ pos none]
  | .return_ pos (some e) => e.visits { tail := true } ++ [.return_ pos (some e)]
  | .if_ _ t c none =>
    t.visits {} ++ c.visits ++ [.ofTest .ifConditional "If-statement conditional" t]
  | .if_ _ t c (some a) =>
    t.visits {} ++ c.visits ++ a.visits ++ [.ofTest .ifConditional "If-statement conditional" t]
  | .while_ _ t b =>
    t.visits {} ++ b.visits ++ [.ofTest .whileConditional "While-loop conditional" t]
  | .doWhile _ b t =>
    b.visits ++ t.visits {} ++ [.ofTest .doWhileConditional "Do..While-loop conditional" t]
  | .for_ _ init test update body =>
    init.visits ++ Expr.visitsOption test ++ Expr.visitsOption update ++ body.visits
  | .block ⟨_, stmts⟩ => Stmt.visitsList stmts
  | .expr e => e.visits {}
  | .break_ _ | .continue_ _ | .empty _ => []

def Stmt.visitsList : List Stmt → List Visit
  | [] => []
  | s :: ss => s.visits ++ Stmt.visitsList ss

def Declarator.visits : List Declarator → List Visit
  | [] => []
  | ⟨_, target, some e⟩ :: ds =>
    target.visits .plain ++ e.visits { name := target.asIdent?.map (·.name) }
      ++ [.assign none e target] ++ Declarator.visits ds
  | ⟨_, target, none⟩ :: ds =>
    target.visits .plain ++ (target.asIdent?.map Visit.declare).toList ++ Declarator.visits ds

def ForInit.visits : ForInit → List Visit
  | .absent => []
  | .declare _ ds => Declarator.visits ds
  | .expr e => e.visits {}

end

def Program.visits (p : Program) : List Visit := Stmt.visitsList p.body

end TagCheck
