import TagCheck.Scope.Event

/-! Replacing the identifiers of a program. Nodes, positions and the keys of properties stay as they
are, and the program does to its scopes what it did, with the new identifiers in place of the old
ones. -/
namespace TagCheck

mutual

def Expr.rename (f : Ident → Ident) : Expr → Expr
  | .number n x => .number n x
  | .bigint n digits => .bigint n digits
  | .str n s => .str n s
  | .bool n b => .bool n b
  | .null n => .null n
  | .regex n pattern flags => .regex n pattern flags
  | .this n => .this n
  | .ident i => .ident (f i)
  | .template n ⟨pos, quasis, parts⟩ => .template n ⟨pos, quasis, Expr.renameList f parts⟩
  | .tagged n tag ⟨pos, quasis, parts⟩ =>
    .tagged n (tag.rename f) ⟨pos, quasis, Expr.renameList f parts⟩
  | .array n elements => .array n (Element.rename f elements)
  | .object n props => .object n (Property.rename f props)
  | .function g => .function (g.rename f)
  | .unary n op e => .unary n op (e.rename f)
  | .update n op leading e => .update n op leading (e.rename f)
  | .binary n op l r => .binary n op (l.rename f) (r.rename f)
  | .logical n op l r => .logical n op (l.rename f) (r.rename f)
  | .conditional n t c a => .conditional n (t.rename f) (c.rename f) (a.rename f)
  | .assign n target value => .assign n (target.rename f) (value.rename f)
  | .assignMember n target value => .assignMember n (target.rename f) (value.rename f)
  | .sequence n parts => .sequence n (Expr.renameList f parts)
  | .call n callee args => .call n (callee.rename f) (Element.rename f args)
  | .new n callee args => .new n (callee.rename f) (Element.rename f args)
  | .member n object key => .member n (object.rename f) (key.rename f)

def Expr.renameList (f : Ident → Ident) : List Expr → List Expr
  | [] => []
  | e :: es => e.rename f :: Expr.renameList f es

def Expr.renameOption (f : Ident → Ident) : Option Expr → Option Expr
  | none => none
  | some e => some (e.rename f)

def Key.rename (f : Ident → Ident) : Key → Key
  | .name s => .name s
  | .computed e => .computed (e.rename f)

def Element.rename (f : Ident → Ident) : List Element → List Element
  | [] => []
  | .hole :: es => .hole :: Element.rename f es
  | .item e :: es => .item (e.rename f) :: Element.rename f es
  | .spread n e :: es => .spread n (e.rename f) :: Element.rename f es

/-- A property whose identifier is no longer its key has to be written out. -/
def Property.rename (f : Ident → Ident) : List Property → List Property
  | [] => []
  | .keyValue k v shorthand :: ps =>
    .keyValue (k.rename f) (v.rename f)
      (shorthand && (v.rename f).asIdent?.map (·.name) == k.asName?) :: Property.rename f ps
  | .method k g :: ps => .method (k.rename f) (g.rename f) :: Property.rename f ps
  | .spread n e :: ps => .spread n (e.rename f) :: Property.rename f ps

def Pattern.rename (f : Ident → Ident) : Pattern → Pattern
  | .ident i => .ident (f i)
  | .array n elements => .array n (Pattern.renameElements f elements)
  | .object n props => .object n (PatternProp.rename f props)
  | .withDefault n target value => .withDefault n (target.rename f) (value.rename f)
  | .rest n argument => .rest n (argument.rename f)

def Pattern.renameElements (f : Ident → Ident) : List (Option Pattern) → List (Option Pattern)
  | [] => []
  | none :: ps => none :: Pattern.renameElements f ps
  | some p :: ps => some (p.rename f) :: Pattern.renameElements f ps

def Pattern.renameList (f : Ident → Ident) : List Pattern → List Pattern
  | [] => []
  | p :: ps => p.rename f :: Pattern.renameList f ps

def PatternProp.rename (f : Ident → Ident) : List PatternProp → List PatternProp
  | [] => []
  | .prop key p :: ps => .prop key (p.rename f) :: PatternProp.rename f ps
  | .rest p :: ps => .rest (p.rename f) :: PatternProp.rename f ps

def Func.rename (f : Ident → Ident) : Func → Func
  | ⟨node, func, form, name, params, body⟩ =>
    ⟨node, func, form, name.map f, Pattern.renameList f params, body.rename f⟩

def Body.rename (f : Ident → Ident) : Body → Body
  | .block ⟨pos, stmts⟩ => .block ⟨pos, Stmt.renameList f stmts⟩
  | .expr e => .expr (e.rename f)

def Stmt.rename (f : Ident → Ident) : Stmt → Stmt
  | .declare pos kind ds => .declare pos kind (Declarator.rename f ds)
  | .function g => .function (g.rename f)
  | .return_ pos argument => .return_ pos (Expr.renameOption f argument)
  | .if_ pos t c none => .if_ pos (t.rename f) (c.rename f) none
  | .if_ pos t c (some a) => .if_ pos (t.rename f) (c.rename f) (some (a.rename f))
  | .while_ pos t b => .while_ pos (t.rename f) (b.rename f)
  | .doWhile pos b t => .doWhile pos (b.rename f) (t.rename f)
  | .for_ pos init test update body =>
    .for_ pos (init.rename f) (Expr.renameOption f test) (Expr.renameOption f update)
      (body.rename f)
  | .block ⟨pos, stmts⟩ => .block ⟨pos, Stmt.renameList f stmts⟩
  | .expr e => .expr (e.rename f)
  | .break_ pos => .break_ pos
  | .continue_ pos => .continue_ pos
  | .empty pos => .empty pos

def Stmt.renameList (f : Ident → Ident) : List Stmt → List Stmt
  | [] => []
  | s :: ss => s.rename f :: Stmt.renameList f ss

def Declarator.rename (f : Ident → Ident) : List Declarator → List Declarator
  | [] => []
  | ⟨pos, target, init⟩ :: ds =>
    ⟨pos, target.rename f, Expr.renameOption f init⟩ :: Declarator.rename f ds

def ForInit.rename (f : Ident → Ident) : ForInit → ForInit
  | .absent => .absent
  | .declare kind ds => .declare kind (Declarator.rename f ds)
  | .expr e => .expr (e.rename f)

end

def Program.rename (f : Ident → Ident) (p : Program) : Program :=
  ⟨Stmt.renameList f p.body, p.nodeCount, p.funcCount⟩

def ScopeEvent.rename (f : Ident → Ident) : ScopeEvent → ScopeEvent
  | .enter => .enter
  | .leave => .leave
  | .declare i kind => .declare (f i) kind
  | .refer i => .refer (f i)
  | .function g => .function (g.rename f)

variable (f : Ident → Ident)

mutual

theorem Pattern.idents_rename : ∀ p : Pattern, (p.rename f).idents = p.idents.map f
  | .ident _ => rfl
  | .array _ elements => Pattern.identsOfElements_rename elements
  | .object _ props => PatternProp.identsOfProps_rename props
  | .withDefault _ target _ => target.idents_rename
  | .rest _ argument => argument.idents_rename

theorem Pattern.identsOfElements_rename : ∀ ps : List (Option Pattern),
    Pattern.identsOfElements (Pattern.renameElements f ps) = (Pattern.identsOfElements ps).map f
  | [] => rfl
  | none :: ps => Pattern.identsOfElements_rename ps
  | some p :: ps => by
    simp [Pattern.renameElements, Pattern.identsOfElements, p.idents_rename,
      Pattern.identsOfElements_rename ps]

theorem PatternProp.identsOfProps_rename : ∀ ps : List PatternProp,
    PatternProp.identsOfProps (PatternProp.rename f ps) = (PatternProp.identsOfProps ps).map f
  | [] => rfl
  | .prop _ p :: ps | .rest p :: ps => by
    simp [PatternProp.rename, PatternProp.identsOfProps, p.idents_rename,
      PatternProp.identsOfProps_rename ps]

end

theorem Pattern.declares_rename (kind : BindingKind) (ps : List Pattern) :
    (Pattern.renameList f ps).flatMap (fun p => p.idents.map (.declare · kind)) =
      (ps.flatMap fun p => p.idents.map (.declare · kind)).map (ScopeEvent.rename f) := by
  induction ps with
  | nil => simp [Pattern.renameList]
  | cons p ps ih => simp [Pattern.renameList, ih, p.idents_rename, ScopeEvent.rename]

theorem Declarator.declares_rename (kind : BindingKind) (ds : List Declarator) :
    Declarator.declares kind (Declarator.rename f ds) =
      (Declarator.declares kind ds).map (ScopeEvent.rename f) := by
  induction ds with
  | nil => simp [Declarator.rename, Declarator.declares]
  | cons d ds ih =>
    obtain ⟨pos, target, init⟩ := d
    simp only [Declarator.declares] at ih
    simp [Declarator.rename, Declarator.declares, ih, target.idents_rename, ScopeEvent.rename]

mutual

theorem Stmt.hoisted_rename : ∀ s : Stmt,
    (s.rename f).hoisted = s.hoisted.map (ScopeEvent.rename f)
  | .declare _ kind ds => by
    cases kind <;> simp [Stmt.rename, Stmt.hoisted, Declarator.declares_rename]
  | .if_ _ _ c none => c.hoisted_rename
  | .if_ _ _ c (some a) => by
    simp [Stmt.rename, Stmt.hoisted, c.hoisted_rename, a.hoisted_rename]
  | .while_ _ _ b | .doWhile _ b _ => b.hoisted_rename
  | .for_ _ init _ _ b => by
    cases init with
    | declare kind ds =>
      cases kind <;> simp [Stmt.rename, ForInit.rename, Stmt.hoisted, Declarator.declares_rename,
        b.hoisted_rename]
    | _ => simp [Stmt.rename, ForInit.rename, Stmt.hoisted, b.hoisted_rename]
  | .block ⟨_, stmts⟩ => Stmt.hoistedList_rename stmts
  | .function _ | .return_ .. | .expr _ | .break_ _ | .continue_ _ | .empty _ => rfl

theorem Stmt.hoistedList_rename : ∀ ss : List Stmt,
    Stmt.hoistedList (Stmt.renameList f ss) = (Stmt.hoistedList ss).map (ScopeEvent.rename f)
  | [] => rfl
  | s :: ss => by
    simp [Stmt.renameList, Stmt.hoistedList, s.hoisted_rename, Stmt.hoistedList_rename ss]

end

theorem Stmt.lexical_rename (s : Stmt) :
    (s.rename f).lexical = s.lexical.map (ScopeEvent.rename f) := by
  cases s with
  | declare pos kind ds =>
    cases kind <;> simp [Stmt.rename, Stmt.lexical, Declarator.declares_rename]
  | function g =>
    obtain ⟨node, func, form, name, params, body⟩ := g
    cases name <;> simp [Stmt.rename, Func.rename, Stmt.lexical, ScopeEvent.rename]
  | if_ pos t c a => cases a <;> simp [Stmt.rename, Stmt.lexical]
  | block b =>
    obtain ⟨pos, stmts⟩ := b
    simp [Stmt.rename, Stmt.lexical]
  | _ => simp [Stmt.rename, Stmt.lexical]

theorem Stmt.lexicalList_rename (ss : List Stmt) :
    Stmt.lexicalList (Stmt.renameList f ss) = (Stmt.lexicalList ss).map (ScopeEvent.rename f) := by
  induction ss with
  | nil => simp [Stmt.renameList, Stmt.lexicalList]
  | cons s ss ih =>
    simp only [Stmt.lexicalList] at ih
    simp [Stmt.renameList, Stmt.lexicalList, s.lexical_rename, ih]

theorem ScopeEvent.ofOwnName_rename (form : FuncForm) (name : Option Ident) :
    ScopeEvent.ofOwnName form (name.map f) =
      (ScopeEvent.ofOwnName form name).map (ScopeEvent.rename f) := by
  cases form <;> cases name <;> simp [ScopeEvent.ofOwnName, ScopeEvent.rename]

theorem append_rename {f : Ident → Ident} {es es' ds ds' : List ScopeEvent}
    (h : es' = es.map (ScopeEvent.rename f)) (h' : ds' = ds.map (ScopeEvent.rename f)) :
    es' ++ ds' = (es ++ ds).map (ScopeEvent.rename f) := by
  rw [h, h', List.map_append]

mutual

theorem Expr.scopeEvents_rename : ∀ e : Expr,
    (e.rename f).scopeEvents = e.scopeEvents.map (ScopeEvent.rename f)
  | .number .. | .bigint .. | .str .. | .bool .. | .null _ | .regex .. | .this _ => rfl
  | .ident i => by simp [Expr.rename, Expr.scopeEvents, ScopeEvent.rename]
  | .template _ ⟨_, _, parts⟩ => Expr.scopeEventsList_rename parts
  | .tagged _ tag ⟨_, _, parts⟩ =>
    append_rename tag.scopeEvents_rename (Expr.scopeEventsList_rename parts)
  | .array _ elements => Element.scopeEvents_rename elements
  | .object _ props => Property.scopeEvents_rename props
  | .function g => g.scopeEvents_rename
  | .unary _ _ e | .update _ _ _ e => e.scopeEvents_rename
  | .binary _ _ l r | .logical _ _ l r => append_rename l.scopeEvents_rename r.scopeEvents_rename
  | .conditional _ t c a =>
    append_rename (append_rename t.scopeEvents_rename c.scopeEvents_rename) a.scopeEvents_rename
  | .assign _ target value => append_rename target.scopeEvents_rename value.scopeEvents_rename
  | .assignMember _ target value => append_rename target.scopeEvents_rename value.scopeEvents_rename
  | .sequence _ parts => Expr.scopeEventsList_rename parts
  | .call _ callee args | .new _ callee args =>
    append_rename callee.scopeEvents_rename (Element.scopeEvents_rename args)
  | .member _ object key => append_rename object.scopeEvents_rename key.scopeEvents_rename

theorem Expr.scopeEventsList_rename : ∀ es : List Expr,
    Expr.scopeEventsList (Expr.renameList f es) =
      (Expr.scopeEventsList es).map (ScopeEvent.rename f)
  | [] => rfl
  | e :: es => append_rename e.scopeEvents_rename (Expr.scopeEventsList_rename es)

theorem Expr.scopeEventsOption_rename : ∀ o : Option Expr,
    Expr.scopeEventsOption (Expr.renameOption f o) =
      (Expr.scopeEventsOption o).map (ScopeEvent.rename f)
  | none => rfl
  | some e => e.scopeEvents_rename

theorem Key.scopeEvents_rename : ∀ k : Key,
    (k.rename f).scopeEvents = k.scopeEvents.map (ScopeEvent.rename f)
  | .name _ => rfl
  | .computed e => e.scopeEvents_rename

theorem Element.scopeEvents_rename : ∀ es : List Element,
    Element.scopeEvents (Element.rename f es) =
      (Element.scopeEvents es).map (ScopeEvent.rename f)
  | [] => rfl
  | .hole :: es => Element.scopeEvents_rename es
  | .item e :: es | .spread _ e :: es =>
    append_rename e.scopeEvents_rename (Element.scopeEvents_rename es)

theorem Property.scopeEvents_rename : ∀ ps : List Property,
    Property.scopeEvents (Property.rename f ps) =
      (Property.scopeEvents ps).map (ScopeEvent.rename f)
  | [] => rfl
  | .keyValue k v _ :: ps => append_rename (append_rename k.scopeEvents_rename v.scopeEvents_rename)
    (Property.scopeEvents_rename ps)
  | .method k g :: ps => append_rename (append_rename k.scopeEvents_rename g.scopeEvents_rename)
    (Property.scopeEvents_rename ps)
  | .spread _ e :: ps => append_rename e.scopeEvents_rename (Property.scopeEvents_rename ps)

theorem Pattern.scopeEvents_rename : ∀ p : Pattern,
    (p.rename f).scopeEvents = p.scopeEvents.map (ScopeEvent.rename f)
  | .ident i => by simp [Pattern.rename, Pattern.scopeEvents, ScopeEvent.rename]
  | .array _ elements => Pattern.scopeEventsElements_rename elements
  | .object _ props => PatternProp.scopeEvents_rename props
  | .withDefault _ target value => append_rename target.scopeEvents_rename value.scopeEvents_rename
  | .rest _ argument => argument.scopeEvents_rename

theorem Pattern.scopeEventsElements_rename : ∀ ps : List (Option Pattern),
    Pattern.scopeEventsElements (Pattern.renameElements f ps) =
      (Pattern.scopeEventsElements ps).map (ScopeEvent.rename f)
  | [] => rfl
  | none :: ps => Pattern.scopeEventsElements_rename ps
  | some p :: ps => append_rename p.scopeEvents_rename (Pattern.scopeEventsElements_rename ps)

theorem Pattern.scopeEventsList_rename : ∀ ps : List Pattern,
    Pattern.scopeEventsList (Pattern.renameList f ps) =
      (Pattern.scopeEventsList ps).map (ScopeEvent.rename f)
  | [] => rfl
  | p :: ps => append_rename p.scopeEvents_rename (Pattern.scopeEventsList_rename ps)

theorem PatternProp.scopeEvents_rename : ∀ ps : List PatternProp,
    PatternProp.scopeEvents (PatternProp.rename f ps) =
      (PatternProp.scopeEvents ps).map (ScopeEvent.rename f)
  | [] => rfl
  | .prop _ p :: ps | .rest p :: ps =>
    append_rename p.scopeEvents_rename (PatternProp.scopeEvents_rename ps)

theorem Func.scopeEvents_rename : ∀ g : Func,
    (g.rename f).scopeEvents = g.scopeEvents.map (ScopeEvent.rename f)
  | ⟨node, func, form, name, params, body⟩ => by
    simp [Func.rename, Func.scopeEvents, ScopeEvent.ofOwnName_rename, Pattern.declares_rename,
      Pattern.scopeEventsList_rename params, body.scopeEvents_rename, ScopeEvent.rename]

theorem Body.scopeEvents_rename : ∀ b : Body,
    (b.rename f).scopeEvents = b.scopeEvents.map (ScopeEvent.rename f)
  | .block ⟨_, stmts⟩ => by
    simp [Body.rename, Body.scopeEvents, Stmt.hoistedList_rename, Stmt.lexicalList_rename,
      Stmt.scopeEventsList_rename stmts]
  | .expr e => e.scopeEvents_rename

theorem Stmt.scopeEvents_rename : ∀ s : Stmt,
    (s.rename f).scopeEvents = s.scopeEvents.map (ScopeEvent.rename f)
  | .declare _ _ ds => Declarator.scopeEvents_rename ds
  | .function ⟨node, func, form, name, params, body⟩ => by
    have hfunction := Func.scopeEvents_rename ⟨node, func, form, name, params, body⟩
    rw [Func.rename] at hfunction
    cases name <;> simpa [Stmt.rename, Func.rename, Stmt.scopeEvents, ScopeEvent.rename]
      using hfunction
  | .return_ _ none => rfl
  | .return_ _ (some e) => e.scopeEvents_rename
  | .if_ _ t c none => append_rename t.scopeEvents_rename c.scopeEvents_rename
  | .if_ _ t c (some a) =>
    append_rename (append_rename t.scopeEvents_rename c.scopeEvents_rename) a.scopeEvents_rename
  | .while_ _ t b | .doWhile _ b t => append_rename t.scopeEvents_rename b.scopeEvents_rename
  | .for_ _ init test update body => by
    simp [Stmt.rename, Stmt.scopeEvents, init.scopeEvents_rename,
      Expr.scopeEventsOption_rename test, Expr.scopeEventsOption_rename update,
      body.scopeEvents_rename, ScopeEvent.rename]
  | .block ⟨_, stmts⟩ => by
    simp [Stmt.rename, Stmt.scopeEvents, Stmt.lexicalList_rename,
      Stmt.scopeEventsList_rename stmts, ScopeEvent.rename]
  | .expr e => e.scopeEvents_rename
  | .break_ _ | .continue_ _ | .empty _ => rfl

theorem Stmt.scopeEventsList_rename : ∀ ss : List Stmt,
    Stmt.scopeEventsList (Stmt.renameList f ss) =
      (Stmt.scopeEventsList ss).map (ScopeEvent.rename f)
  | [] => rfl
  | s :: ss => append_rename s.scopeEvents_rename (Stmt.scopeEventsList_rename ss)

theorem Declarator.scopeEvents_rename : ∀ ds : List Declarator,
    Declarator.scopeEvents (Declarator.rename f ds) =
      (Declarator.scopeEvents ds).map (ScopeEvent.rename f)
  | [] => rfl
  | ⟨_, target, none⟩ :: ds =>
    append_rename target.scopeEvents_rename (Declarator.scopeEvents_rename ds)
  | ⟨_, target, some e⟩ :: ds =>
    append_rename (append_rename target.scopeEvents_rename e.scopeEvents_rename)
      (Declarator.scopeEvents_rename ds)

theorem ForInit.scopeEvents_rename : ∀ i : ForInit,
    (i.rename f).scopeEvents = i.scopeEvents.map (ScopeEvent.rename f)
  | .absent => rfl
  | .declare kind ds => by
    cases kind <;> simp [ForInit.rename, ForInit.scopeEvents, Declarator.declares_rename,
      Declarator.scopeEvents_rename ds]
  | .expr e => e.scopeEvents_rename

end

theorem Program.scopeEvents_rename (p : Program) :
    (p.rename f).scopeEvents = p.scopeEvents.map (ScopeEvent.rename f) := by
  simp [Program.rename, Program.scopeEvents, Stmt.hoistedList_rename, Stmt.lexicalList_rename,
    Stmt.scopeEventsList_rename, ScopeEvent.rename]

end TagCheck
