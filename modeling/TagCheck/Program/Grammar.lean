import TagCheck.Double.Text
import TagCheck.Program.Cursor
import TagCheck.Program.Target
import TagCheck.Token.Scan

/-! The grammar of programs, read by recursive descent.

Statements, binding targets, assignments and operands may stand inside each other. `grammar n` reads
them with at most `n` of them nested, and every rule is a function of the grammar that reads its
parts, one level further in. -/
namespace TagCheck

open Parse

/-- The readers of the parts that may nest. -/
structure Grammar where
  statement : Parse Stmt
  target : Parse Pattern
  assignment : Parse Expr
  operand : Parse Expr

/-- An operator between two operands. -/
inductive Connective where
  | binary (op : BinaryOp)
  | logical (op : LogicalOp)
  deriving DecidableEq, Repr

namespace Connective

/-- How tightly the operator holds its operands. -/
def precedence : Connective → Nat
  | logical .or => 1
  | logical .and => 2
  | binary .bitOr => 3
  | binary .bitXor => 4
  | binary .bitAnd => 5
  | binary .eq | binary .notEq | binary .strictEq | binary .strictNotEq => 6
  | binary .lt | binary .le | binary .gt | binary .ge | binary .in_ | binary .instanceof => 7
  | binary .shl | binary .shr | binary .ushr => 8
  | binary .add | binary .sub => 9
  | binary .mul | binary .div | binary .mod => 10

theorem precedence_le (c : Connective) : c.precedence ≤ 10 := by
  cases c with
  | binary op => cases op <;> decide
  | logical op => cases op <;> decide

def ofToken? : TokenKind → Option Connective
  | .punct .orOr => some (logical .or)
  | .punct .andAnd => some (logical .and)
  | .punct .pipe => some (binary .bitOr)
  | .punct .caret => some (binary .bitXor)
  | .punct .amp => some (binary .bitAnd)
  | .punct .eqEq => some (binary .eq)
  | .punct .notEq => some (binary .notEq)
  | .punct .eqEqEq => some (binary .strictEq)
  | .punct .notEqEq => some (binary .strictNotEq)
  | .punct .lt => some (binary .lt)
  | .punct .le => some (binary .le)
  | .punct .gt => some (binary .gt)
  | .punct .ge => some (binary .ge)
  | .keyword .in_ => some (binary .in_)
  | .keyword .instanceof => some (binary .instanceof)
  | .punct .shl => some (binary .shl)
  | .punct .shr => some (binary .shr)
  | .punct .ushr => some (binary .ushr)
  | .punct .plus => some (binary .add)
  | .punct .minus => some (binary .sub)
  | .punct .star => some (binary .mul)
  | .punct .slash => some (binary .div)
  | .punct .percent => some (binary .mod)
  | _ => none

def apply (n : Node) : Connective → Expr → Expr → Expr
  | binary op, left, right => .binary n op left right
  | logical op, left, right => .logical n op left right

end Connective

def UnaryOp.ofToken? : TokenKind → Option UnaryOp
  | .punct .bang => some .not
  | .punct .tilde => some .bitNot
  | .punct .plus => some .plus
  | .punct .minus => some .minus
  | .keyword .typeof => some .typeof
  | .keyword .void => some .void
  | .keyword .delete => some .delete
  | _ => none

def UpdateOp.ofToken? : TokenKind → Option UpdateOp
  | .punct .plusPlus => some .increment
  | .punct .minusMinus => some .decrement
  | _ => none

def DeclKind.ofToken? : TokenKind → Option DeclKind
  | .keyword .var => some .var
  | .keyword .let_ => some .let_
  | .keyword .const => some .const
  | _ => none

/-- Whether the bracket that closes the next one stands before an arrow on its line. -/
def isArrowHead : Nat → List Token → Bool
  | _, [] => false
  | depth, t :: ts =>
    match t.kind with
    | .punct .lparen => isArrowHead (depth + 1) ts
    | .punct .rparen =>
      if depth ≤ 1 then
        match ts with
        | [] => false
        | u :: _ => u.kind = .punct .arrow && !u.newlineBefore
      else isArrowHead (depth - 1) ts
    | .eof => false
    | _ => isArrowHead depth ts

namespace Parse

def isIdentNext : Parse Bool := do
  match ← peek with
  | .ident _ => return true
  | _ => return false

def isMemberNext : Parse Bool := do
  match ← peek with
  | .punct .dot | .punct .lbracket => return true
  | _ => return false

def isTemplateNext : Parse Bool := do
  match ← peek with
  | .template .whole _ _ | .template .head _ _ => return true
  | _ => return false

/-- Whether an arrow function is next: a name or a list of parameters before an arrow. -/
def isArrowNext : Parse Bool := do
  match (← get).rest with
  | [] => return false
  | t :: ts =>
    match t.kind with
    | .ident _ =>
      match ts with
      | [] => return false
      | u :: _ => return u.kind = .punct .arrow
    | .punct .lparen => return isArrowHead 1 ts
    | _ => return false

/-- Whether a statement may end here without a semicolon: before a closing brace, at the end, or
before a new line. -/
def endsHere : Parse Bool := do
  match ← peek with
  | .punct .rbrace | .eof => return true
  | _ => onNewLine

def endStatement : Parse Unit := do
  unless ← accept (.punct .semi) do
    unless ← endsHere do fail .expectedSemicolon

def ident : Parse Ident := do
  match ← peek with
  | .ident name =>
    let pos ← position
    advance
    return ⟨← newNode pos, name⟩
  | _ => fail .expectedIdentifier

def identPattern : Parse Pattern := return .ident (← ident)

/-- A property may be named by an identifier, a keyword, a string or a number. -/
def propertyName : Parse String := do
  match ← peek with
  | .ident name | .str name =>
    advance
    return name
  | .number value =>
    advance
    return value.text
  | .keyword k =>
    advance
    return k.text
  | _ => fail .expectedPropertyName

end Parse

namespace Grammar

variable (g : Grammar)

/-- One assignment, or several in sequence. -/
def expression : Parse Expr := do
  let first ← g.assignment
  if ← accept (.punct .comma) then
    let others ← separated g.assignment (← budget)
    return .sequence (← newNode first.pos) (first :: others)
  else
    return first

def parenthesized : Parse Expr := do
  expect (.punct .lparen)
  let e ← g.expression
  expect (.punct .rparen)
  return e

def withDefault (target : Pattern) : Parse Pattern := do
  if ← accept (.punct .eq) then
    let n ← newNode target.pos
    return .withDefault n target (← g.assignment)
  else
    return target

def bindingElement : Parse Pattern := do
  let target ← g.target
  g.withDefault target

def restPattern : Parse Pattern := do
  let pos ← position
  expect (.punct .ellipsis)
  let n ← newNode pos
  return .rest n (← g.target)

/-- A parameter or an element of an array pattern. -/
def bindingItem : Parse Pattern := do
  if ← isNext (.punct .ellipsis) then g.restPattern else g.bindingElement

def patternProp : Parse PatternProp := do
  if ← isNext (.punct .ellipsis) then
    return .rest (← g.restPattern)
  else
    let pos ← position
    let key ← propertyName
    if ← accept (.punct .colon) then
      return .prop key (← g.bindingElement)
    else
      let n ← newNode pos
      return .prop key (← g.withDefault (.ident ⟨n, key⟩))

def bindingTarget : Parse Pattern := do
  let pos ← position
  match ← peek with
  | .punct .lbracket =>
    advance
    let n ← newNode pos
    let elements ← holeyList (.punct .rbracket) g.bindingItem (← budget)
    expect (.punct .rbracket)
    return .array n elements
  | .punct .lbrace =>
    advance
    let n ← newNode pos
    let props ← commaList (.punct .rbrace) g.patternProp (← budget)
    expect (.punct .rbrace)
    return .object n props
  | _ => identPattern

def params : Parse (List Pattern) := do
  expect (.punct .lparen)
  let ps ← commaList (.punct .rparen) g.bindingItem (← budget)
  expect (.punct .rparen)
  return ps

def block : Parse Block := do
  let pos ← position
  expect (.punct .lbrace)
  let item : Parse (Option Stmt) := do
    match ← peek with
    | .punct .rbrace | .eof => return none
    | _ => return some (← g.statement)
  let body ← collect item (← budget)
  expect (.punct .rbrace)
  return ⟨pos, body⟩

/-- A function whose keyword, at `pos`, has been read. Only a declaration needs a name. -/
def function (pos : Position) (form : FuncForm) : Parse Func := do
  let node ← newNode pos
  let func ← newFunc
  let name ←
    if ← isIdentNext then some <$> ident
    else if form = .declaration then fail .expectedFunctionName
    else pure none
  let params ← g.params
  return ⟨node, func, form, name, params, .block (← g.block)⟩

def arrowFunction : Parse Expr := do
  let node ← newNode (← position)
  let func ← newFunc
  let params ←
    if ← isNext (.punct .lparen) then g.params
    else do
      let p ← identPattern
      pure [p]
  expect (.punct .arrow)
  let body ←
    if ← isNext (.punct .lbrace) then Body.block <$> g.block
    else Body.expr <$> g.assignment
  return .function ⟨node, func, .arrow, none, params, body⟩

/-- Three dots and what they spread. -/
def spread (build : Node → Expr → α) : Parse α := do
  let pos ← position
  expect (.punct .ellipsis)
  let n ← newNode pos
  return build n (← g.assignment)

def element : Parse Element := do
  if ← isNext (.punct .ellipsis) then g.spread .spread else Element.item <$> g.assignment

def arguments : Parse (List Element) := do
  expect (.punct .lparen)
  let es ← commaList (.punct .rparen) g.element (← budget)
  expect (.punct .rparen)
  return es

def propertyKey : Parse Key := do
  if ← accept (.punct .lbracket) then
    let e ← g.assignment
    expect (.punct .rbracket)
    return .computed e
  else
    return .name (← propertyName)

def property : Parse Property := do
  if ← isNext (.punct .ellipsis) then g.spread .spread
  else
    let pos ← position
    let key ← g.propertyKey
    if ← accept (.punct .colon) then
      return .keyValue key (← g.assignment) false
    else if ← isNext (.punct .lparen) then
      let node ← newNode pos
      let func ← newFunc
      let params ← g.params
      return .method key ⟨node, func, .method, none, params, .block (← g.block)⟩
    else
      match key with
      | .name s => return .keyValue key (.ident ⟨← newNode pos, s⟩) true
      | .computed _ => fail .expectedColonAfterKey

/-- The substitutions of a template behind its head, each with the text that follows it. -/
def substitutions : Nat → Parse (List (Expr × Quasi))
  | 0 => return []
  | fuel + 1 => do
    let e ← g.expression
    let pos ← position
    match ← peek with
    | .template .middle cooked raw =>
      advance
      return (e, ⟨cooked, raw, pos⟩) :: (← substitutions fuel)
    | .template .tail cooked raw =>
      advance
      return [(e, ⟨cooked, raw, pos⟩)]
    | _ => fail .expectedTemplateBrace

def template : Parse Template := do
  let pos ← position
  match ← peek with
  | .template .whole cooked raw =>
    advance
    return ⟨pos, [⟨cooked, raw, pos⟩], []⟩
  | .template .head cooked raw =>
    advance
    let subs ← g.substitutions (← budget)
    return ⟨pos, ⟨cooked, raw, pos⟩ :: subs.map Prod.snd, subs.map Prod.fst⟩
  | _ => fail .expectedTemplate

/-- A literal of one token. -/
def literal? : TokenKind → Option (Node → Expr)
  | .number value => some fun n => .number n value
  | .bigint digits => some fun n => .bigint n digits
  | .str value => some fun n => .str n value
  | .regex pattern flags => some fun n => .regex n pattern flags
  | .keyword .true_ => some fun n => .bool n true
  | .keyword .false_ => some fun n => .bool n false
  | .keyword .null => some .null
  | .keyword .this => some .this
  | _ => none

def arrayLiteral : Parse Expr := do
  let pos ← position
  expect (.punct .lbracket)
  let n ← newNode pos
  let es ← holeyList (.punct .rbracket) g.element (← budget)
  expect (.punct .rbracket)
  return .array n (es.map (·.getD .hole))

def objectLiteral : Parse Expr := do
  let pos ← position
  expect (.punct .lbrace)
  let n ← newNode pos
  let props ← commaList (.punct .rbrace) g.property (← budget)
  expect (.punct .rbrace)
  return .object n props

def primary : Parse Expr := do
  let pos ← position
  let kind ← peek
  match literal? kind with
  | some build =>
    advance
    return build (← newNode pos)
  | none =>
    match kind with
    | .template .whole _ _ | .template .head _ _ =>
      let t ← g.template
      return .template (← newNode pos) t
    | .ident _ => return .ident (← ident)
    | .keyword .function =>
      advance
      return .function (← g.function pos .expression)
    | .punct .lparen => g.parenthesized
    | .punct .lbracket => g.arrayLiteral
    | .punct .lbrace => g.objectLiteral
    | _ => fail .expectedExpression

/-- A property of `object`, by name or by a computed key. -/
def member (object : Expr) : Parse Expr := do
  let key ←
    if ← accept (.punct .dot) then Key.name <$> propertyName
    else do
      expect (.punct .lbracket)
      let e ← g.expression
      expect (.punct .rbracket)
      pure (Key.computed e)
  return .member (← newNode object.pos) object key

def memberNext (e : Expr) : Parse (Option Expr) := do
  if ← isMemberNext then some <$> g.member e else return none

def members (object : Expr) : Parse Expr := do extend g.memberNext (← budget) object

/-- Constructions nested in each other, whose keywords stand at the given places, outermost
first. -/
def construction : List Position → Parse Expr
  | [] => g.primary
  | pos :: inner => do
    let base ← construction inner
    let callee ← g.members base
    let args ← if ← isNext (.punct .lparen) then g.arguments else pure []
    return .new (← newNode pos) callee args

def newKeyword : Parse (Option Position) := do
  let pos ← position
  if ← accept (.keyword .new) then return some pos else return none

/-- What extends an operand: arguments, a property or a template that it tags. -/
def chainNext (e : Expr) : Parse (Option Expr) := do
  if ← isNext (.punct .lparen) then
    let args ← g.arguments
    return some (.call (← newNode e.pos) e args)
  else if ← isMemberNext then
    some <$> g.member e
  else if ← isTemplateNext then
    let t ← g.template
    return some (.tagged (← newNode e.pos) e t)
  else
    return none

def callChain : Parse Expr := do
  let news ← collect newKeyword (← budget)
  let first ← g.construction news
  extend g.chainNext (← budget) first

def trailingUpdate : Parse Expr := do
  let e ← g.callChain
  if ← onNewLine then return e
  match UpdateOp.ofToken? (← peek) with
  | none => return e
  | some op =>
    advance
    return .update (← newNode e.pos) op false e

def unary : Parse Expr := do
  let pos ← position
  let kind ← peek
  match UnaryOp.ofToken? kind with
  | some op =>
    advance
    let e ← g.operand
    return .unary (← newNode pos) op e
  | none =>
    match UpdateOp.ofToken? kind with
    | some op =>
      advance
      let e ← g.operand
      return .update (← newNode pos) op true e
    | none => g.trailingUpdate

mutual

/-- Operands joined by operators of at least this precedence. -/
def binary (least : Nat) : Parse Expr := do
  let first ← g.operand
  extend (joinNext least) (← budget) first
termination_by 2 * (11 - least) + 1

/-- Joins a left operand to the one behind the next operator, if that holds tightly enough. The right
operand has only operators that hold more tightly. -/
def joinNext (least : Nat) (left : Expr) : Parse (Option Expr) := do
  match Connective.ofToken? (← peek) with
  | none => return none
  | some c =>
    if h : c.precedence < least then
      return none
    else
      advance
      let right ← binary (c.precedence + 1)
      return some (c.apply (← newNode left.pos) left right)
termination_by 2 * (11 - least)
decreasing_by
  have hle := c.precedence_le
  omega

end

def conditional : Parse Expr := do
  let test ← g.binary 1
  if ← accept (.punct .question) then
    let consequent ← g.assignment
    expect (.punct .colon)
    let alternate ← g.assignment
    return .conditional (← newNode test.pos) test consequent alternate
  else
    return test

def assignmentOrArrow : Parse Expr := do
  if ← isArrowNext then g.arrowFunction
  else
    let left ← g.conditional
    if ← accept (.punct .eq) then
      match left with
      | .member _ _ _ =>
        let value ← g.assignment
        return .assignMember (← newNode left.pos) left value
      | .ident _ | .array _ _ | .object _ _ =>
        let target ← left.toPattern
        let value ← g.assignment
        return .assign (← newNode left.pos) target value
      | _ => failAt left.pos .badAssignmentTarget
    else
      return left

def declarator : Parse Declarator := do
  let pos ← position
  let target ← g.target
  let init ← if ← accept (.punct .eq) then some <$> g.assignment else pure none
  return ⟨pos, target, init⟩

/-- The declarators behind the keyword of a declaration. -/
def declarators : Parse (List Declarator) := do
  advance
  separated g.declarator (← budget)

def returnStatement : Parse Stmt := do
  let pos ← position
  advance
  let argument ←
    if (← isNext (.punct .semi)) || (← endsHere) then pure none else some <$> g.expression
  endStatement
  return .return_ pos argument

def ifStatement : Parse Stmt := do
  let pos ← position
  advance
  let test ← g.parenthesized
  let consequent ← g.statement
  let alternate ← if ← accept (.keyword .else_) then some <$> g.statement else pure none
  return .if_ pos test consequent alternate

def whileStatement : Parse Stmt := do
  let pos ← position
  advance
  let test ← g.parenthesized
  return .while_ pos test (← g.statement)

def doWhileStatement : Parse Stmt := do
  let pos ← position
  advance
  let body ← g.statement
  expect (.keyword .while_)
  let test ← g.parenthesized
  let _ ← accept (.punct .semi)
  return .doWhile pos body test

def forInit : Parse ForInit := do
  let kind ← peek
  match DeclKind.ofToken? kind with
  | some d => return .declare d (← g.declarators)
  | none => if kind = .punct .semi then return .absent else return .expr (← g.expression)

/-- An expression, unless the token that ends its place is next. -/
def optionalBefore (close : TokenKind) : Parse (Option Expr) := do
  if ← isNext close then return none else some <$> g.expression

def forStatement : Parse Stmt := do
  let pos ← position
  advance
  expect (.punct .lparen)
  let init ← g.forInit
  expect (.punct .semi)
  let test ← g.optionalBefore (.punct .semi)
  expect (.punct .semi)
  let update ← g.optionalBefore (.punct .rparen)
  expect (.punct .rparen)
  return .for_ pos init test update (← g.statement)

def anyStatement : Parse Stmt := do
  let pos ← position
  match ← peek with
  | .keyword .var => declaration pos .var
  | .keyword .let_ => declaration pos .let_
  | .keyword .const => declaration pos .const
  | .keyword .function =>
    advance
    return .function (← g.function pos .declaration)
  | .keyword .return_ => g.returnStatement
  | .keyword .if_ => g.ifStatement
  | .keyword .while_ => g.whileStatement
  | .keyword .do_ => g.doWhileStatement
  | .keyword .for_ => g.forStatement
  | .punct .lbrace => return .block (← g.block)
  | .punct .semi =>
    advance
    return .empty pos
  | .keyword .break_ =>
    advance
    endStatement
    return .break_ pos
  | .keyword .continue_ =>
    advance
    endStatement
    return .continue_ pos
  | _ =>
    let e ← g.expression
    endStatement
    return .expr e
where
  declaration (pos : Position) (kind : DeclKind) : Parse Stmt := do
    let ds ← g.declarators
    endStatement
    return .declare pos kind ds

end Grammar

/-- The deepest nesting that is read. -/
def maxNesting : Nat := 100

/-- The grammar with `n` levels of nesting left. -/
def grammar : Nat → Grammar
  | 0 => ⟨tooDeep, tooDeep, tooDeep, tooDeep⟩
  | n + 1 =>
    let inner := grammar n
    ⟨inner.anyStatement, inner.bindingTarget, inner.assignmentOrArrow, inner.unary⟩
where
  tooDeep {α : Type} : Parse α := fail (.tooDeep maxNesting)

/-- The statements up to the end. -/
def Grammar.statements (g : Grammar) : Parse (List Stmt) := do
  let item : Parse (Option Stmt) := do
    if ← isAtEnd then return none else some <$> g.statement
  collect item (← budget)

def Program.ofTokens (tokens : List Token) : Except SourceError Program := do
  let (body, c) ← ((grammar maxNesting).statements).run (.ofTokens tokens)
  return ⟨body, c.nextNode, c.nextFunc⟩

def Program.ofSource (source : String) : Except SourceError Program := do
  Program.ofTokens (← tokenize source)

/-- An expression and nothing after it. -/
def Grammar.lone (g : Grammar) : Parse Expr := do
  let e ← g.expression
  unless ← isAtEnd do fail .trailingToken
  return e

def Expr.ofTokens (tokens : List Token) : Except SourceError Expr :=
  Prod.fst <$> ((grammar maxNesting).lone).run (.ofTokens tokens)

def Expr.ofSource (source : String) : Except SourceError Expr := do
  Expr.ofTokens (← tokenize source)

end TagCheck
