import TagCheck.Scope.Resolution

/-! The scopes of a program as a tree, and the rule of lexical scoping over such trees: an
identifier means what the innermost scope around it that declares its name declares first under
that name. -/
namespace TagCheck

structure Declaration where
  ident : Ident
  kind : BindingKind
  deriving DecidableEq

namespace Declaration

def binding (d : Declaration) : Binding := ⟨d.ident.name, d.kind, d.ident.node.pos⟩

def ofOwnName (own : Option Ident) : List Declaration := own.toList.map (⟨·, .functionName⟩)

/-- What a scope with these declarations declares under a name: the first of them. -/
def find? (name : String) (ds : List Declaration) : Option Declaration :=
  ds.find? fun d => d.ident.name == name

def fresh (seen : List Declaration) : List Declaration → List Declaration
  | [] => []
  | d :: ds =>
    if (find? d.ident.name seen).isSome then fresh (seen ++ [d]) ds
    else d :: fresh (seen ++ [d]) ds

theorem fresh_sublist (seen ds : List Declaration) : (fresh seen ds).Sublist ds := by
  induction ds generalizing seen with
  | nil => exact .slnil
  | cons d ds ih =>
    rw [fresh]
    split
    · exact (ih _).cons d
    · exact (ih _).cons_cons d

end Declaration

/-- A part of a program, as far as scopes are concerned. -/
inductive ScopeTree where
  | use (i : Ident)
  /-- The whole scope sees what its head declares, and its body also what the body declares. -/
  | scope (head : List Declaration) (inHead : List ScopeTree)
      (body : List Declaration) (inBody : List ScopeTree)

/-- An identifier with the scopes around it, innermost first. -/
structure Site where
  ident : Ident
  scopes : List (List Declaration)

namespace Site

def id (s : Site) : NodeId := s.ident.node.id

def declaration? (s : Site) : Option Declaration :=
  s.scopes.findSome? (Declaration.find? s.ident.name)

def ownDeclaration? (s : Site) : Option Declaration :=
  s.scopes.head?.bind (Declaration.find? s.ident.name)

theorem isSome_declaration? {s : Site} {declared : List Declaration} {d : Declaration}
    (hscope : declared ∈ s.scopes) (hd : d ∈ declared) (hname : d.ident.name = s.ident.name) :
    s.declaration?.isSome = true := by
  rw [declaration?, List.findSome?_isSome_iff]
  refine ⟨declared, hscope, ?_⟩
  rw [Declaration.find?, List.find?_isSome]
  exact ⟨d, hd, by simp [hname]⟩

end Site

namespace ScopeTree

def block (declared : List Declaration) (inner : List ScopeTree) : ScopeTree :=
  .scope [] [] declared inner

mutual

def sites (scopes : List (List Declaration)) : ScopeTree → List Site
  | use i => [⟨i, scopes⟩]
  | scope head inHead body inBody =>
    sitesList (head :: scopes) inHead ++ sitesList ((head ++ body) :: scopes) inBody

def sitesList (scopes : List (List Declaration)) : List ScopeTree → List Site
  | [] => []
  | t :: ts => t.sites scopes ++ sitesList scopes ts

end

mutual

def declarations : ScopeTree → List Declaration
  | use _ => []
  | scope head inHead body inBody =>
    Declaration.fresh [] head ++ declarationsList inHead ++ Declaration.fresh head body
      ++ declarationsList inBody

def declarationsList : List ScopeTree → List Declaration
  | [] => []
  | t :: ts => t.declarations ++ declarationsList ts

end

mutual

/-- All that is written as a declaration, also of a name that its scope has declared before. -/
def written : ScopeTree → List Declaration
  | use _ => []
  | scope head inHead body inBody => head ++ writtenList inHead ++ body ++ writtenList inBody

def writtenList : List ScopeTree → List Declaration
  | [] => []
  | t :: ts => t.written ++ writtenList ts

end

theorem writtenList_append (ts ts' : List ScopeTree) :
    writtenList (ts ++ ts') = writtenList ts ++ writtenList ts' := by
  induction ts with
  | nil => simp [writtenList]
  | cons t ts ih => simp [writtenList, ih]

mutual

/-- The scopes around a site end with the scopes around the tree. -/
theorem suffix_of_mem_sites : ∀ {t : ScopeTree} {scopes : List (List Declaration)} {site : Site},
    site ∈ t.sites scopes → scopes <:+ site.scopes
  | use i, scopes, site, h => by
    rw [sites, List.mem_singleton] at h
    exact h ▸ List.suffix_refl _
  | scope head inHead body inBody, scopes, site, h => by
    rw [sites, List.mem_append] at h
    rcases h with h | h
    · exact (List.suffix_cons _ _).trans (suffix_of_mem_sitesList h)
    · exact (List.suffix_cons _ _).trans (suffix_of_mem_sitesList h)

theorem suffix_of_mem_sitesList : ∀ {ts : List ScopeTree} {scopes : List (List Declaration)}
    {site : Site}, site ∈ sitesList scopes ts → scopes <:+ site.scopes
  | [], scopes, site, h => by simp [sitesList] at h
  | t :: ts, scopes, site, h => by
    rw [sitesList, List.mem_append] at h
    rcases h with h | h
    · exact suffix_of_mem_sites h
    · exact suffix_of_mem_sitesList h

end

theorem declarationsList_append (ts ts' : List ScopeTree) :
    declarationsList (ts ++ ts') = declarationsList ts ++ declarationsList ts' := by
  induction ts with
  | nil => simp [declarationsList]
  | cons t ts ih => simp [declarationsList, ih]

theorem sitesList_append (scopes : List (List Declaration)) (ts ts' : List ScopeTree) :
    sitesList scopes (ts ++ ts') = sitesList scopes ts ++ sitesList scopes ts' := by
  induction ts with
  | nil => simp [sitesList]
  | cons t ts ih => simp [sitesList, ih]

end ScopeTree

def Pattern.declarations (kind : BindingKind) (p : Pattern) : List Declaration :=
  p.idents.map (⟨·, kind⟩)

def Declarator.declarations (kind : DeclKind) (ds : List Declarator) : List Declaration :=
  ds.flatMap fun d => d.target.declarations kind.bindingKind

mutual

/-- The statement and those inside it, but not inside its functions. -/
def Stmt.within : Stmt → List Stmt
  | s@(.if_ _ _ c none) => s :: c.within
  | s@(.if_ _ _ c (some a)) => s :: (c.within ++ a.within)
  | s@(.while_ _ _ b) | s@(.doWhile _ b _) | s@(.for_ _ _ _ _ b) => s :: b.within
  | s@(.block ⟨_, stmts⟩) => s :: Stmt.withinList stmts
  | s => [s]

def Stmt.withinList : List Stmt → List Stmt
  | [] => []
  | s :: ss => s.within ++ Stmt.withinList ss

end

def Stmt.vars : Stmt → List Declaration
  | .declare _ .var ds | .for_ _ (.declare .var ds) _ _ _ => Declarator.declarations .var ds
  | _ => []

def Stmt.locals : Stmt → List Declaration
  | .declare _ .var _ => []
  | .declare _ kind ds => Declarator.declarations kind ds
  | .function f => f.name.toList.map (⟨·, .function⟩)
  | _ => []

def Stmt.localsOf (ss : List Stmt) : List Declaration := ss.flatMap Stmt.locals

/-- What a program or the body of a function declares: each `var` in it outside of inner functions,
and what a block of the same statements does. -/
def Stmt.declared (ss : List Stmt) : List Declaration :=
  (Stmt.withinList ss).flatMap Stmt.vars ++ Stmt.localsOf ss

def ForInit.locals : ForInit → List Declaration
  | .declare .var _ => []
  | .declare kind ds => Declarator.declarations kind ds
  | _ => []

def Body.declared : Body → List Declaration
  | .block ⟨_, stmts⟩ => Stmt.declared stmts
  | .expr _ => []

mutual

def Expr.scopeTrees : Expr → List ScopeTree
  | .number _ _ | .bigint _ _ | .str _ _ | .bool _ _ | .null _ | .regex _ _ _ | .this _ => []
  | .ident i => [.use i]
  | .template _ ⟨_, _, parts⟩ => Expr.scopeTreesList parts
  | .tagged _ tag ⟨_, _, parts⟩ => tag.scopeTrees ++ Expr.scopeTreesList parts
  | .array _ elements => Element.scopeTrees elements
  | .object _ props => Property.scopeTrees props
  -- Only a function expression declares its own name.
  | .function f => [f.scopeTree f.name]
  | .unary _ _ e | .update _ _ _ e => e.scopeTrees
  | .binary _ _ l r | .logical _ _ l r => l.scopeTrees ++ r.scopeTrees
  | .conditional _ t c a => t.scopeTrees ++ c.scopeTrees ++ a.scopeTrees
  | .assign _ target value => target.scopeTrees ++ value.scopeTrees
  | .assignMember _ target value => target.scopeTrees ++ value.scopeTrees
  | .sequence _ parts => Expr.scopeTreesList parts
  | .call _ callee args | .new _ callee args => callee.scopeTrees ++ Element.scopeTrees args
  | .member _ object key => object.scopeTrees ++ key.scopeTrees

def Expr.scopeTreesList : List Expr → List ScopeTree
  | [] => []
  | e :: es => e.scopeTrees ++ Expr.scopeTreesList es

def Expr.scopeTreesOption : Option Expr → List ScopeTree
  | none => []
  | some e => e.scopeTrees

def Key.scopeTrees : Key → List ScopeTree
  | .name _ => []
  | .computed e => e.scopeTrees

def Element.scopeTrees : List Element → List ScopeTree
  | [] => []
  | .hole :: es => Element.scopeTrees es
  | .item e :: es | .spread _ e :: es => e.scopeTrees ++ Element.scopeTrees es

def Property.scopeTrees : List Property → List ScopeTree
  | [] => []
  | .keyValue k v _ :: ps => k.scopeTrees ++ v.scopeTrees ++ Property.scopeTrees ps
  | .method k f :: ps => k.scopeTrees ++ [f.scopeTree none] ++ Property.scopeTrees ps
  | .spread _ e :: ps => e.scopeTrees ++ Property.scopeTrees ps

def Pattern.scopeTrees : Pattern → List ScopeTree
  | .ident i => [.use i]
  | .array _ elements => Pattern.scopeTreesElements elements
  | .object _ props => PatternProp.scopeTrees props
  | .withDefault _ target value => target.scopeTrees ++ value.scopeTrees
  | .rest _ argument => argument.scopeTrees

def Pattern.scopeTreesElements : List (Option Pattern) → List ScopeTree
  | [] => []
  | none :: ps => Pattern.scopeTreesElements ps
  | some p :: ps => p.scopeTrees ++ Pattern.scopeTreesElements ps

def Pattern.scopeTreesList : List Pattern → List ScopeTree
  | [] => []
  | p :: ps => p.scopeTrees ++ Pattern.scopeTreesList ps

def PatternProp.scopeTrees : List PatternProp → List ScopeTree
  | [] => []
  | .prop _ p :: ps | .rest p :: ps => p.scopeTrees ++ PatternProp.scopeTrees ps

/-- The scope of a function, with its own name if it declares it. The parameters do not see what the
body declares. -/
def Func.scopeTree (own : Option Ident) : Func → ScopeTree
  | ⟨_, _, _, _, params, body⟩ =>
    .scope (Declaration.ofOwnName own ++ params.flatMap (Pattern.declarations .param))
      (own.toList.map .use ++ Pattern.scopeTreesList params) body.declared body.scopeTrees

def Body.scopeTrees : Body → List ScopeTree
  | .block ⟨_, stmts⟩ => Stmt.scopeTreesList stmts
  | .expr e => e.scopeTrees

def Stmt.scopeTrees : Stmt → List ScopeTree
  | .declare _ _ ds => Declarator.scopeTrees ds
  | .function f => f.name.toList.map .use ++ [f.scopeTree none]
  | .return_ _ none => []
  | .return_ _ (some e) => e.scopeTrees
  | .if_ _ t c none => t.scopeTrees ++ c.scopeTrees
  | .if_ _ t c (some a) => t.scopeTrees ++ c.scopeTrees ++ a.scopeTrees
  | .while_ _ t b => t.scopeTrees ++ b.scopeTrees
  | .doWhile _ b t => t.scopeTrees ++ b.scopeTrees
  | .for_ _ init test update body =>
    [.block init.locals (init.scopeTrees ++ Expr.scopeTreesOption test
      ++ Expr.scopeTreesOption update ++ body.scopeTrees)]
  | .block ⟨_, stmts⟩ => [.block (Stmt.localsOf stmts) (Stmt.scopeTreesList stmts)]
  | .expr e => e.scopeTrees
  | .break_ _ | .continue_ _ | .empty _ => []

def Stmt.scopeTreesList : List Stmt → List ScopeTree
  | [] => []
  | s :: ss => s.scopeTrees ++ Stmt.scopeTreesList ss

def Declarator.scopeTrees : List Declarator → List ScopeTree
  | [] => []
  | ⟨_, target, none⟩ :: ds => target.scopeTrees ++ Declarator.scopeTrees ds
  | ⟨_, target, some e⟩ :: ds => target.scopeTrees ++ e.scopeTrees ++ Declarator.scopeTrees ds

def ForInit.scopeTrees : ForInit → List ScopeTree
  | .absent => []
  | .declare _ ds => Declarator.scopeTrees ds
  | .expr e => e.scopeTrees

end

namespace Program

def scopeTree (p : Program) : ScopeTree :=
  .block (Stmt.declared p.body) (Stmt.scopeTreesList p.body)

def sites (p : Program) : List Site := p.scopeTree.sites []

def declarations (p : Program) : List Declaration := p.scopeTree.declarations

end Program

end TagCheck
