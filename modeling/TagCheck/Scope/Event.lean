import TagCheck.Program.Basic

/-! What happens to scopes as a program is read: scopes are entered and left, names are declared in
the innermost one, and identifiers refer to names. -/
namespace TagCheck

inductive BindingKind where
  | var | let_ | const | function | param
  /-- The name of a function expression, which only the function itself sees. -/
  | functionName
  deriving DecidableEq, Repr, Inhabited

def DeclKind.bindingKind : DeclKind → BindingKind
  | var => .var
  | let_ => .let_
  | const => .const

inductive ScopeEvent where
  | enter
  | leave
  | declare (i : Ident) (kind : BindingKind)
  | refer (i : Ident)
  | function (f : Func)

mutual

/-- The identifiers that a pattern gives values to, from left to right. -/
def Pattern.idents : Pattern → List Ident
  | .ident i => [i]
  | .array _ elements => Pattern.identsOfElements elements
  | .object _ props => PatternProp.identsOfProps props
  | .withDefault _ target _ => target.idents
  | .rest _ argument => argument.idents

def Pattern.identsOfElements : List (Option Pattern) → List Ident
  | [] => []
  | none :: ps => Pattern.identsOfElements ps
  | some p :: ps => p.idents ++ Pattern.identsOfElements ps

def PatternProp.identsOfProps : List PatternProp → List Ident
  | [] => []
  | .prop _ p :: ps => p.idents ++ PatternProp.identsOfProps ps
  | .rest p :: ps => p.idents ++ PatternProp.identsOfProps ps

end

def Declarator.declares (kind : BindingKind) (ds : List Declarator) : List ScopeEvent :=
  ds.flatMap fun d => d.target.idents.map (.declare · kind)

mutual

/-- The `var` declarations in a statement, outside the functions in it. -/
def Stmt.hoisted : Stmt → List ScopeEvent
  | .declare _ .var ds => Declarator.declares .var ds
  | .if_ _ _ consequent none => consequent.hoisted
  | .if_ _ _ consequent (some alternate) => consequent.hoisted ++ alternate.hoisted
  | .while_ _ _ body => body.hoisted
  | .doWhile _ body _ => body.hoisted
  | .for_ _ (.declare .var ds) _ _ body => Declarator.declares .var ds ++ body.hoisted
  | .for_ _ _ _ _ body => body.hoisted
  | .block ⟨_, body⟩ => Stmt.hoistedList body
  | _ => []

def Stmt.hoistedList : List Stmt → List ScopeEvent
  | [] => []
  | s :: ss => s.hoisted ++ Stmt.hoistedList ss

end

/-- What a statement declares in the block that it stands in. -/
def Stmt.lexical : Stmt → List ScopeEvent
  | .declare _ .let_ ds => Declarator.declares .let_ ds
  | .declare _ .const ds => Declarator.declares .const ds
  | .function ⟨_, _, _, some name, _, _⟩ => [.declare name .function]
  | _ => []

def Stmt.lexicalList (ss : List Stmt) : List ScopeEvent := ss.flatMap Stmt.lexical

/-- A function expression declares its name inside itself. -/
def ScopeEvent.ofOwnName (form : FuncForm) (name : Option Ident) : List ScopeEvent :=
  match form, name with
  | .declaration, _ => []
  | _, none => []
  | _, some i => [.declare i .functionName, .refer i]

mutual

def Expr.scopeEvents : Expr → List ScopeEvent
  | .number _ _ | .bigint _ _ | .str _ _ | .bool _ _ | .null _ | .regex _ _ _ | .this _ => []
  | .ident i => [.refer i]
  | .template _ ⟨_, _, parts⟩ => Expr.scopeEventsList parts
  | .tagged _ tag ⟨_, _, parts⟩ => tag.scopeEvents ++ Expr.scopeEventsList parts
  | .array _ elements => Element.scopeEvents elements
  | .object _ props => Property.scopeEvents props
  | .function f => f.scopeEvents
  | .unary _ _ e | .update _ _ _ e => e.scopeEvents
  | .binary _ _ l r | .logical _ _ l r => l.scopeEvents ++ r.scopeEvents
  | .conditional _ t c a => t.scopeEvents ++ c.scopeEvents ++ a.scopeEvents
  | .assign _ target value => target.scopeEvents ++ value.scopeEvents
  | .assignMember _ target value => target.scopeEvents ++ value.scopeEvents
  | .sequence _ parts => Expr.scopeEventsList parts
  | .call _ callee args | .new _ callee args => callee.scopeEvents ++ Element.scopeEvents args
  | .member _ object key => object.scopeEvents ++ key.scopeEvents

def Expr.scopeEventsList : List Expr → List ScopeEvent
  | [] => []
  | e :: es => e.scopeEvents ++ Expr.scopeEventsList es

def Key.scopeEvents : Key → List ScopeEvent
  | .name _ => []
  | .computed e => e.scopeEvents

def Element.scopeEvents : List Element → List ScopeEvent
  | [] => []
  | .hole :: es => Element.scopeEvents es
  | .item e :: es => e.scopeEvents ++ Element.scopeEvents es
  | .spread _ e :: es => e.scopeEvents ++ Element.scopeEvents es

def Property.scopeEvents : List Property → List ScopeEvent
  | [] => []
  | .keyValue k v _ :: ps => k.scopeEvents ++ v.scopeEvents ++ Property.scopeEvents ps
  | .method k f :: ps => k.scopeEvents ++ f.scopeEvents ++ Property.scopeEvents ps
  | .spread _ e :: ps => e.scopeEvents ++ Property.scopeEvents ps

def Pattern.scopeEvents : Pattern → List ScopeEvent
  | .ident i => [.refer i]
  | .array _ elements => Pattern.scopeEventsElements elements
  | .object _ props => PatternProp.scopeEvents props
  | .withDefault _ target value => target.scopeEvents ++ value.scopeEvents
  | .rest _ argument => argument.scopeEvents

def Pattern.scopeEventsElements : List (Option Pattern) → List ScopeEvent
  | [] => []
  | none :: ps => Pattern.scopeEventsElements ps
  | some p :: ps => p.scopeEvents ++ Pattern.scopeEventsElements ps

def Pattern.scopeEventsList : List Pattern → List ScopeEvent
  | [] => []
  | p :: ps => p.scopeEvents ++ Pattern.scopeEventsList ps

def PatternProp.scopeEvents : List PatternProp → List ScopeEvent
  | [] => []
  | .prop _ p :: ps => p.scopeEvents ++ PatternProp.scopeEvents ps
  | .rest p :: ps => p.scopeEvents ++ PatternProp.scopeEvents ps

/-- All parameters are declared before any of them is read, and the declarations of the body only
after the parameters. -/
def Func.scopeEvents : Func → List ScopeEvent
  | ⟨node, func, form, name, params, body⟩ =>
    [.function ⟨node, func, form, name, params, body⟩, .enter] ++ ScopeEvent.ofOwnName form name
      ++ params.flatMap (fun p => p.idents.map (.declare · .param))
      ++ Pattern.scopeEventsList params ++ body.scopeEvents ++ [.leave]

def Body.scopeEvents : Body → List ScopeEvent
  | .block ⟨_, stmts⟩ =>
    Stmt.hoistedList stmts ++ Stmt.lexicalList stmts ++ Stmt.scopeEventsList stmts
  | .expr e => e.scopeEvents

def Stmt.scopeEvents : Stmt → List ScopeEvent
  | .declare _ _ ds => Declarator.scopeEvents ds
  | .function ⟨node, func, form, name, params, body⟩ =>
    name.toList.map .refer ++ Func.scopeEvents ⟨node, func, form, name, params, body⟩
  | .return_ _ none => []
  | .return_ _ (some e) => e.scopeEvents
  | .if_ _ t c none => t.scopeEvents ++ c.scopeEvents
  | .if_ _ t c (some a) => t.scopeEvents ++ c.scopeEvents ++ a.scopeEvents
  | .while_ _ t b => t.scopeEvents ++ b.scopeEvents
  | .doWhile _ b t => t.scopeEvents ++ b.scopeEvents
  | .for_ _ init test update body =>
    [.enter] ++ init.scopeEvents ++ Expr.scopeEventsOption test ++ Expr.scopeEventsOption update
      ++ body.scopeEvents ++ [.leave]
  | .block ⟨_, stmts⟩ =>
    [.enter] ++ Stmt.lexicalList stmts ++ Stmt.scopeEventsList stmts ++ [.leave]
  | .expr e => e.scopeEvents
  | .break_ _ | .continue_ _ | .empty _ => []

def Expr.scopeEventsOption : Option Expr → List ScopeEvent
  | none => []
  | some e => e.scopeEvents

def Stmt.scopeEventsList : List Stmt → List ScopeEvent
  | [] => []
  | s :: ss => s.scopeEvents ++ Stmt.scopeEventsList ss

def Declarator.scopeEvents : List Declarator → List ScopeEvent
  | [] => []
  | ⟨_, target, none⟩ :: ds => target.scopeEvents ++ Declarator.scopeEvents ds
  | ⟨_, target, some e⟩ :: ds => target.scopeEvents ++ e.scopeEvents ++ Declarator.scopeEvents ds

/-- The head of a loop declares what is not hoisted. -/
def ForInit.scopeEvents : ForInit → List ScopeEvent
  | .absent => []
  | .declare .var ds => Declarator.scopeEvents ds
  | .declare .let_ ds => Declarator.declares .let_ ds ++ Declarator.scopeEvents ds
  | .declare .const ds => Declarator.declares .const ds ++ Declarator.scopeEvents ds
  | .expr e => e.scopeEvents

end

def Program.scopeEvents (p : Program) : List ScopeEvent :=
  [.enter] ++ Stmt.hoistedList p.body ++ Stmt.lexicalList p.body ++ Stmt.scopeEventsList p.body
    ++ [.leave]

end TagCheck
