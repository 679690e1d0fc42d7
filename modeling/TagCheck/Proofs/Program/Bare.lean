import TagCheck.Program.Target

/-! Syntax trees without the numbers of their nodes and functions and without their places. -/
namespace TagCheck

def Node.bare : Node := ⟨0, .start⟩

def Ident.bare (i : Ident) : Ident := ⟨.bare, i.name⟩

def Quasi.bare (q : Quasi) : Quasi := ⟨q.cooked, q.raw, .start⟩

mutual

def Expr.bare : Expr → Expr
  | .number _ value => .number .bare value
  | .bigint _ digits => .bigint .bare digits
  | .str _ value => .str .bare value
  | .bool _ value => .bool .bare value
  | .null _ => .null .bare
  | .regex _ pattern flags => .regex .bare pattern flags
  | .this _ => .this .bare
  | .ident i => .ident i.bare
  | .template _ t => .template .bare t.bare
  | .tagged _ tag t => .tagged .bare tag.bare t.bare
  | .array _ elements => .array .bare (Element.bares elements)
  | .object _ props => .object .bare (Property.bares props)
  | .function f => .function f.bare
  | .unary _ op e => .unary .bare op e.bare
  | .update _ op leading e => .update .bare op leading e.bare
  | .binary _ op l r => .binary .bare op l.bare r.bare
  | .logical _ op l r => .logical .bare op l.bare r.bare
  | .conditional _ t c a => .conditional .bare t.bare c.bare a.bare
  | .assign _ target value => .assign .bare target.bare value.bare
  | .assignMember _ target value => .assignMember .bare target.bare value.bare
  | .sequence _ parts => .sequence .bare (Expr.bares parts)
  | .call _ callee args => .call .bare callee.bare (Element.bares args)
  | .new _ callee args => .new .bare callee.bare (Element.bares args)
  | .member _ object key => .member .bare object.bare key.bare

def Template.bare : Template → Template
  | ⟨_, quasis, parts⟩ => ⟨.start, quasis.map Quasi.bare, Expr.bares parts⟩

def Expr.bares : List Expr → List Expr
  | [] => []
  | e :: es => e.bare :: Expr.bares es

def Expr.bareOption : Option Expr → Option Expr
  | none => none
  | some e => some e.bare

def Key.bare : Key → Key
  | .name s => .name s
  | .computed e => .computed e.bare

def Element.bare : Element → Element
  | .hole => .hole
  | .item e => .item e.bare
  | .spread _ e => .spread .bare e.bare

def Element.bares : List Element → List Element
  | [] => []
  | e :: es => e.bare :: Element.bares es

def Property.bare : Property → Property
  | .keyValue key value shorthand => .keyValue key.bare value.bare shorthand
  | .method key f => .method key.bare f.bare
  | .spread _ e => .spread .bare e.bare

def Property.bares : List Property → List Property
  | [] => []
  | p :: ps => p.bare :: Property.bares ps

def Pattern.bare : Pattern → Pattern
  | .ident i => .ident i.bare
  | .array _ elements => .array .bare (Pattern.bareElements elements)
  | .object _ props => .object .bare (PatternProp.bares props)
  | .withDefault _ target value => .withDefault .bare target.bare value.bare
  | .rest _ argument => .rest .bare argument.bare

def Pattern.bares : List Pattern → List Pattern
  | [] => []
  | p :: ps => p.bare :: Pattern.bares ps

def Pattern.bareOption : Option Pattern → Option Pattern
  | none => none
  | some p => some p.bare

def Pattern.bareElements : List (Option Pattern) → List (Option Pattern)
  | [] => []
  | p :: ps => Pattern.bareOption p :: Pattern.bareElements ps

def PatternProp.bare : PatternProp → PatternProp
  | .prop key p => .prop key p.bare
  | .rest p => .rest p.bare

def PatternProp.bares : List PatternProp → List PatternProp
  | [] => []
  | p :: ps => p.bare :: PatternProp.bares ps

def Func.bare : Func → Func
  | ⟨_, _, form, name, params, body⟩ =>
    ⟨.bare, 0, form, name.map Ident.bare, Pattern.bares params, body.bare⟩

def Body.bare : Body → Body
  | .block b => .block b.bare
  | .expr e => .expr e.bare

def Block.bare : Block → Block
  | ⟨_, body⟩ => ⟨.start, Stmt.bares body⟩

def Stmt.bare : Stmt → Stmt
  | .declare _ kind ds => .declare .start kind (Declarator.bares ds)
  | .function f => .function f.bare
  | .return_ _ argument => .return_ .start (Expr.bareOption argument)
  | .if_ _ t c a => .if_ .start t.bare c.bare (Stmt.bareOption a)
  | .while_ _ t b => .while_ .start t.bare b.bare
  | .doWhile _ b t => .doWhile .start b.bare t.bare
  | .for_ _ init test update b =>
    .for_ .start init.bare (Expr.bareOption test) (Expr.bareOption update) b.bare
  | .block b => .block b.bare
  | .expr e => .expr e.bare
  | .break_ _ => .break_ .start
  | .continue_ _ => .continue_ .start
  | .empty _ => .empty .start

def Stmt.bares : List Stmt → List Stmt
  | [] => []
  | s :: ss => s.bare :: Stmt.bares ss

def Stmt.bareOption : Option Stmt → Option Stmt
  | none => none
  | some s => some s.bare

def Declarator.bare : Declarator → Declarator
  | ⟨_, target, init⟩ => ⟨.start, target.bare, Expr.bareOption init⟩

def Declarator.bares : List Declarator → List Declarator
  | [] => []
  | d :: ds => d.bare :: Declarator.bares ds

def ForInit.bare : ForInit → ForInit
  | .absent => .absent
  | .declare kind ds => .declare kind (Declarator.bares ds)
  | .expr e => .expr e.bare

end

namespace Expr

@[simp] theorem bares_eq_map (es : List Expr) : bares es = es.map bare := by
  induction es <;> simp_all [bares]

@[simp] theorem bareOption_eq_map (o : Option Expr) : bareOption o = o.map bare := by
  cases o <;> rfl

end Expr

@[simp] theorem Element.bares_eq_map (es : List Element) : bares es = es.map bare := by
  induction es <;> simp_all [bares]

@[simp] theorem Property.bares_eq_map (ps : List Property) : bares ps = ps.map bare := by
  induction ps <;> simp_all [bares]

namespace Pattern

@[simp] theorem bares_eq_map (ps : List Pattern) : bares ps = ps.map bare := by
  induction ps <;> simp_all [bares]

@[simp] theorem bareOption_eq_map (o : Option Pattern) : bareOption o = o.map bare := by
  cases o <;> rfl

@[simp] theorem bareElements_eq_map (os : List (Option Pattern)) :
    bareElements os = os.map (Option.map bare) := by
  induction os <;> simp_all [bareElements]

end Pattern

@[simp] theorem PatternProp.bares_eq_map (ps : List PatternProp) : bares ps = ps.map bare := by
  induction ps <;> simp_all [bares]

namespace Stmt

@[simp] theorem bares_eq_map (ss : List Stmt) : bares ss = ss.map bare := by
  induction ss <;> simp_all [bares]

@[simp] theorem bareOption_eq_map (o : Option Stmt) : bareOption o = o.map bare := by
  cases o <;> rfl

end Stmt

@[simp] theorem Declarator.bares_eq_map (ds : List Declarator) : bares ds = ds.map bare := by
  induction ds <;> simp_all [bares]

/-! A pattern without numbers and places is that of the expression without them. -/

theorem toOption_bind {α β : Type} (x : Except SourceError α) (f : α → Except SourceError β) :
    (x >>= f).toOption = x.toOption.bind fun a => (f a).toOption := by
  cases x <;> rfl

theorem toOption_pure {α : Type} (a : α) :
    (pure a : Except SourceError α).toOption = some a := rfl

mutual

theorem Expr.toOption_toPattern_bare (e : Expr) :
    e.bare.toPattern.toOption = e.toPattern.toOption.map Pattern.bare := by
  cases e with
  | array n es =>
    simp only [Expr.bare, Element.bares_eq_map, Expr.toPattern, toOption_bind, toOption_pure,
      Element.toOption_toPatterns_bare es]
    cases (Element.toPatterns es).toOption <;> simp [Pattern.bare]
  | object n ps =>
    simp only [Expr.bare, Property.bares_eq_map, Expr.toPattern, toOption_bind, toOption_pure,
      Property.toOption_toPatterns_bare n.pos _ ps]
    cases (Property.toPatterns n.pos ps).toOption <;> simp [Pattern.bare]
  | _ => rfl

theorem Element.toOption_toPatterns_bare (es : List Element) :
    (Element.toPatterns (es.map Element.bare)).toOption =
      (Element.toPatterns es).toOption.map (List.map (Option.map Pattern.bare)) := by
  cases es with
  | nil => rfl
  | cons e es =>
    have hes := Element.toOption_toPatterns_bare es
    cases e with
    | hole =>
      simp only [List.map_cons, Element.bare, Element.toPatterns, toOption_bind, toOption_pure, hes]
      cases (Element.toPatterns es).toOption <;> simp
    | item e | spread _ e =>
      have he := Expr.toOption_toPattern_bare e
      simp only [List.map_cons, Element.bare, Element.toPatterns, toOption_bind, toOption_pure, he,
        hes]
      cases e.toPattern.toOption <;> cases (Element.toPatterns es).toOption <;>
        simp [Pattern.bare]

/-- The place only tells where the properties would be refused. -/
theorem Property.toOption_toPatterns_bare (pos pos' : Position) (ps : List Property) :
    (Property.toPatterns pos' (ps.map Property.bare)).toOption =
      (Property.toPatterns pos ps).toOption.map (List.map PatternProp.bare) := by
  cases ps with
  | nil => rfl
  | cons p ps =>
    have hps := Property.toOption_toPatterns_bare pos pos' ps
    cases p with
    | keyValue key e _ =>
      cases key with
      | name s =>
        have he := Expr.toOption_toPattern_bare e
        simp only [List.map_cons, Property.bare, Key.bare, Property.toPatterns, toOption_bind,
          toOption_pure, he, hps]
        cases e.toPattern.toOption <;> cases (Property.toPatterns pos ps).toOption <;>
          simp [PatternProp.bare]
      | computed e => rfl
    | method key f => rfl
    | spread n e =>
      have he := Expr.toOption_toPattern_bare e
      simp only [List.map_cons, Property.bare, Property.toPatterns, toOption_bind, toOption_pure,
        he, hps]
      cases e.toPattern.toOption <;> cases (Property.toPatterns pos ps).toOption <;>
        simp [PatternProp.bare, Pattern.bare]

end

theorem Expr.exists_toPattern {e e' : Expr} {p : Pattern} (h : e.toPattern = .ok p)
    (he : e'.bare = e.bare) : ∃ p', e'.toPattern = .ok p' ∧ p'.bare = p.bare := by
  have hp := e'.toOption_toPattern_bare
  rw [he, e.toOption_toPattern_bare, h] at hp
  cases hp' : e'.toPattern with
  | error err => simp [hp', Except.toOption] at hp
  | ok p' => exact ⟨p', rfl, by simpa [hp', Except.toOption, eq_comm] using hp⟩

end TagCheck
