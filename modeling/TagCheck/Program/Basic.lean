import TagCheck.Double.Basic
import TagCheck.Source

/-! The syntax trees of programs. -/
namespace TagCheck

/-- A node of the tree and where it begins. -/
structure Node where
  id : NodeId
  pos : Position
  deriving DecidableEq, Repr, Inhabited

structure Ident where
  node : Node
  name : String
  deriving DecidableEq, Repr, Inhabited

inductive DeclKind where
  | var | let_ | const
  deriving DecidableEq, Repr, Inhabited

def DeclKind.text : DeclKind → String
  | var => "var"
  | let_ => "let"
  | const => "const"

inductive UnaryOp where
  | plus | minus | bitNot | not | typeof | void | delete
  deriving DecidableEq, Repr, Inhabited

def UnaryOp.text : UnaryOp → String
  | plus => "+" | minus => "-" | bitNot => "~" | not => "!" | typeof => "typeof" | void => "void"
  | delete => "delete"

inductive UpdateOp where
  | increment | decrement
  deriving DecidableEq, Repr, Inhabited

def UpdateOp.text : UpdateOp → String
  | increment => "++"
  | decrement => "--"

inductive BinaryOp where
  | add | sub | mul | div | mod | bitAnd | bitOr | bitXor | shl | shr | ushr | lt | le | gt | ge
  | eq | notEq | strictEq | strictNotEq | in_ | instanceof
  deriving DecidableEq, Repr, Inhabited

def BinaryOp.text : BinaryOp → String
  | add => "+" | sub => "-" | mul => "*" | div => "/" | mod => "%" | bitAnd => "&" | bitOr => "|"
  | bitXor => "^" | shl => "<<" | shr => ">>" | ushr => ">>>" | lt => "<" | le => "<=" | gt => ">"
  | ge => ">=" | eq => "==" | notEq => "!=" | strictEq => "===" | strictNotEq => "!=="
  | in_ => "in" | instanceof => "instanceof"

inductive LogicalOp where
  | and | or
  deriving DecidableEq, Repr, Inhabited

def LogicalOp.text : LogicalOp → String
  | and => "&&"
  | or => "||"

/-- A stretch of template text, as it reads and as it is spelled. -/
structure Quasi where
  cooked : String
  raw : String
  pos : Position
  deriving DecidableEq, Repr, Inhabited

inductive FuncForm where
  | declaration | expression | arrow | method
  deriving DecidableEq, Repr, Inhabited

mutual

inductive Expr where
  | number (n : Node) (value : Double)
  | bigint (n : Node) (digits : String)
  | str (n : Node) (value : String)
  | bool (n : Node) (value : Bool)
  | null (n : Node)
  | regex (n : Node) (pattern flags : String)
  | this (n : Node)
  | ident (i : Ident)
  | template (n : Node) (quasi : Template)
  | tagged (n : Node) (tag : Expr) (quasi : Template)
  | array (n : Node) (elements : List Element)
  | object (n : Node) (props : List Property)
  | function (f : Func)
  | unary (n : Node) (op : UnaryOp) (argument : Expr)
  | update (n : Node) (op : UpdateOp) (leading : Bool) (argument : Expr)
  | binary (n : Node) (op : BinaryOp) (left right : Expr)
  | logical (n : Node) (op : LogicalOp) (left right : Expr)
  | conditional (n : Node) (test consequent alternate : Expr)
  | assign (n : Node) (target : Pattern) (value : Expr)
  | assignMember (n : Node) (target value : Expr)
  | sequence (n : Node) (parts : List Expr)
  | call (n : Node) (callee : Expr) (arguments : List Element)
  | new (n : Node) (callee : Expr) (arguments : List Element)
  | member (n : Node) (object : Expr) (key : Key)

/-- The text of a template and the expressions between its stretches. -/
structure Template where
  pos : Position
  quasis : List Quasi
  parts : List Expr

/-- The name of a property, written out or computed. -/
inductive Key where
  | name (s : String)
  | computed (e : Expr)

/-- An element of an array literal or an argument of a call. Arguments have no holes. -/
inductive Element where
  | hole
  | item (e : Expr)
  | spread (n : Node) (argument : Expr)

inductive Property where
  | keyValue (key : Key) (value : Expr) (shorthand : Bool)
  | method (key : Key) (f : Func)
  | spread (n : Node) (argument : Expr)

/-- What a declaration or assignment gives values to. -/
inductive Pattern where
  | ident (i : Ident)
  | array (n : Node) (elements : List (Option Pattern))
  | object (n : Node) (props : List PatternProp)
  | withDefault (n : Node) (target : Pattern) (value : Expr)
  | rest (n : Node) (argument : Pattern)

inductive PatternProp where
  | prop (key : String) (value : Pattern)
  | rest (p : Pattern)

structure Func where
  node : Node
  func : FuncId
  form : FuncForm
  name : Option Ident
  params : List Pattern
  body : Body

inductive Body where
  | block (b : Block)
  | expr (e : Expr)

structure Block where
  pos : Position
  body : List Stmt

inductive Stmt where
  | declare (pos : Position) (kind : DeclKind) (declarators : List Declarator)
  | function (f : Func)
  | return_ (pos : Position) (argument : Option Expr)
  | if_ (pos : Position) (test : Expr) (consequent : Stmt) (alternate : Option Stmt)
  | while_ (pos : Position) (test : Expr) (body : Stmt)
  | doWhile (pos : Position) (body : Stmt) (test : Expr)
  | for_ (pos : Position) (init : ForInit) (test update : Option Expr) (body : Stmt)
  | block (b : Block)
  | expr (e : Expr)
  | break_ (pos : Position)
  | continue_ (pos : Position)
  | empty (pos : Position)

structure Declarator where
  pos : Position
  target : Pattern
  init : Option Expr

inductive ForInit where
  | absent
  | declare (kind : DeclKind) (declarators : List Declarator)
  | expr (e : Expr)

end

structure Program where
  body : List Stmt
  nodeCount : Nat
  funcCount : Nat

namespace Expr

def node : Expr → Node
  | number n _ | bigint n _ | str n _ | bool n _ | null n | regex n _ _ | this n => n
  | ident i => i.node
  | template n _ | tagged n _ _ | array n _ | object n _ => n
  | function f => f.node
  | unary n _ _ | update n _ _ _ | binary n _ _ _ | logical n _ _ _ | conditional n _ _ _ => n
  | assign n _ _ | assignMember n _ _ | sequence n _ | call n _ _ | new n _ _ | member n _ _ => n

def id (e : Expr) : NodeId := e.node.id

def pos (e : Expr) : Position := e.node.pos

def asIdent? : Expr → Option Ident
  | ident i => some i
  | _ => none

def asFunc? : Expr → Option Func
  | function f => some f
  | _ => none

end Expr

namespace Pattern

def node : Pattern → Node
  | ident i => i.node
  | array n _ | object n _ | withDefault n _ _ | rest n _ => n

def id (p : Pattern) : NodeId := p.node.id

def pos (p : Pattern) : Position := p.node.pos

def asIdent? : Pattern → Option Ident
  | ident i => some i
  | _ => none

/-- The identifier of a name that may have a default value. -/
def simpleName? : Pattern → Option Ident
  | ident i => some i
  | withDefault _ target _ => target.asIdent?
  | _ => none

end Pattern

def Key.asName? : Key → Option String
  | name s => some s
  | computed _ => none

/-- The node of an element that is no hole. -/
def Element.node? : Element → Option Node
  | hole => none
  | item e => some e.node
  | spread n _ => some n

def Element.isSpread : Element → Bool
  | spread _ _ => true
  | _ => false

end TagCheck
