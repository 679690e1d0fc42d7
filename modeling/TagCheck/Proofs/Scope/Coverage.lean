import Mathlib.Data.List.Count
import TagCheck.Proofs.Program.Nodes
import TagCheck.Proofs.Scope.Tree

/-! The scopes of a program cover its identifiers: each of them is used at one place of their tree
and declared at most at one. Where it is declared it is used too, so a declaration of its name is
found there. -/
namespace TagCheck

open ScopeTree

def InPlace (ns : List SyntaxNode) : Prop := ∀ x ∈ ns, x.isInPlace = true

@[simp] theorem inPlace_cons {x : SyntaxNode} {ns : List SyntaxNode} :
    InPlace (x :: ns) ↔ x.isInPlace = true ∧ InPlace ns := List.forall_mem_cons

@[simp] theorem inPlace_append {ns ns' : List SyntaxNode} :
    InPlace (ns ++ ns') ↔ InPlace ns ∧ InPlace ns' := List.forall_mem_append

/-- The trees use the identifiers among the nodes. They declare some of them, but not those that the
nodes declare outside of the trees, in the scope around them. -/
structure Covers (ns : List SyntaxNode) (outer : List Ident) (ts : List ScopeTree) : Prop where
  ident_sites (scopes : List (List Declaration)) :
    (sitesList scopes ts).map Site.ident = ns.filterMap SyntaxNode.ident?
  count_le (i : Ident) : outer.count i + ((declarationsList ts).map Declaration.ident).count i ≤
    (ns.filterMap SyntaxNode.ident?).count i
  answered (scopes : List (List Declaration)) : ∀ d ∈ writtenList ts,
    ∃ site ∈ sitesList scopes ts, site.ident = d.ident ∧ site.declaration?.isSome = true

namespace Covers

variable {ns ns' : List SyntaxNode} {outer outer' : List Ident} {ts ts' : List ScopeTree}

theorem nil : Covers [] [] [] := ⟨fun _ => rfl, fun _ => Nat.le_refl _, by simp [writtenList]⟩

theorem append (h : Covers ns outer ts) (h' : Covers ns' outer' ts') :
    Covers (ns ++ ns') (outer ++ outer') (ts ++ ts') where
  ident_sites scopes := by
    rw [sitesList_append, List.map_append, h.ident_sites, h'.ident_sites, List.filterMap_append]
  count_le i := by
    have h₁ := h.count_le i
    have h₂ := h'.count_le i
    simp only [declarationsList_append, List.map_append, List.filterMap_append, List.count_append]
    omega
  answered scopes d hd := by
    rw [writtenList_append, List.mem_append] at hd
    rw [sitesList_append]
    rcases hd with hd | hd
    · obtain ⟨site, hsite, hd⟩ := h.answered scopes d hd
      exact ⟨site, List.mem_append_left _ hsite, hd⟩
    · obtain ⟨site, hsite, hd⟩ := h'.answered scopes d hd
      exact ⟨site, List.mem_append_right _ hsite, hd⟩

/-- A node that is no identifier. -/
theorem skip {x : SyntaxNode} (hx : x.ident? = none) (h : Covers ns outer ts) :
    Covers (x :: ns) outer ts := by
  have hns : (x :: ns).filterMap SyntaxNode.ident? = ns.filterMap SyntaxNode.ident? :=
    List.filterMap_cons_none hx
  exact ⟨fun scopes => hns ▸ h.ident_sites scopes, fun i => hns ▸ h.count_le i, h.answered⟩

/-- An identifier, which may be declared in the scope around it. -/
theorem use {x : SyntaxNode} {i : Ident} (hx : x.ident? = some i) : Covers [x] [i] [.use i] := by
  have hns : [x].filterMap SyntaxNode.ident? = [i] := List.filterMap_cons_some hx
  exact ⟨fun scopes => hns ▸ rfl, fun j => by simp [hns, declarationsList, declarations],
    by simp [writtenList, written]⟩

theorem mono (h : Covers ns outer ts) (hle : ∀ i, outer'.count i ≤ outer.count i) :
    Covers ns outer' ts :=
  ⟨h.ident_sites, fun i => Nat.le_trans (Nat.add_le_add_right (hle i) _) (h.count_le i), h.answered⟩

theorem count_fresh_le (i : Ident) (seen ds : List Declaration) :
    ((Declaration.fresh seen ds).map Declaration.ident).count i ≤
      (ds.map Declaration.ident).count i :=
  ((Declaration.fresh_sublist seen ds).map _).count_le i

/-- What the scope around the trees declares is used in them. -/
theorem answered_outer {declared : List Declaration} {d : Declaration} (h : Covers ns outer ts)
    (houter : d.ident ∈ outer) (hd : d ∈ declared) (scopes : List (List Declaration)) :
    ∃ site ∈ sitesList (declared :: scopes) ts,
      site.ident = d.ident ∧ site.declaration?.isSome = true := by
  have hcount := h.count_le d.ident
  have hmem : d.ident ∈ ns.filterMap SyntaxNode.ident? := by
    rw [← List.count_pos_iff] at houter ⊢
    omega
  rw [← h.ident_sites (declared :: scopes)] at hmem
  obtain ⟨site, hsite, hident⟩ := List.mem_map.1 hmem
  have hscope := (suffix_of_mem_sitesList hsite).subset (List.mem_cons_self ..)
  exact ⟨site, hsite, hident, Site.isSome_declaration? hscope hd (by rw [hident])⟩

/-- A scope keeps to itself what its head declares and some of what its body does. -/
theorem scope {head body : List Declaration} (h : Covers ns (head.map Declaration.ident) ts)
    (h' : Covers ns' (outer ++ body.map Declaration.ident) ts') :
    Covers (ns ++ ns') outer [.scope head ts body ts'] where
  ident_sites scopes := by
    simp [sitesList, sites, h.ident_sites, h'.ident_sites]
  count_le i := by
    have h₁ := h.count_le i
    have h₂ := h'.count_le i
    have hhead := count_fresh_le i [] head
    have hbody := count_fresh_le i head body
    simp only [declarationsList, declarations, List.map_append, List.filterMap_append,
      List.count_append, List.append_nil] at h₂ ⊢
    omega
  answered scopes d hd := by
    simp only [writtenList, written, List.append_nil, List.mem_append] at hd
    simp only [sitesList, sites, List.append_nil, List.mem_append]
    rcases hd with ((hd | hd) | hd) | hd
    · obtain ⟨site, hsite, hd⟩ := h.answered_outer (List.mem_map_of_mem hd) hd scopes
      exact ⟨site, .inl hsite, hd⟩
    · obtain ⟨site, hsite, hd⟩ := h.answered _ d hd
      exact ⟨site, .inl hsite, hd⟩
    · obtain ⟨site, hsite, hd⟩ := h'.answered_outer
        (List.mem_append_right _ (List.mem_map_of_mem hd)) (List.mem_append_right head hd) scopes
      exact ⟨site, .inr hsite, hd⟩
    · obtain ⟨site, hsite, hd⟩ := h'.answered _ d hd
      exact ⟨site, .inr hsite, hd⟩

end Covers

theorem Covers.ownName (own : Option Ident) :
    Covers (own.toList.map .name) own.toList (own.toList.map .use) := by
  cases own with
  | none => exact .nil
  | some i => exact .use rfl

theorem Pattern.map_ident_declarations (kind : BindingKind) (p : Pattern) :
    (p.declarations kind).map Declaration.ident = p.idents := by
  simp [Pattern.declarations, Function.comp_def]

theorem Declarator.map_ident_declarations (kind : DeclKind) (ds : List Declarator) :
    (Declarator.declarations kind ds).map Declaration.ident = ds.flatMap (·.target.idents) := by
  simp [Declarator.declarations, List.map_flatMap, Pattern.map_ident_declarations]

/-- The identifiers that the head of a loop declares, in its own scope or in the one around it. -/
def ForInit.idents : ForInit → List Ident
  | .declare _ ds => ds.flatMap (·.target.idents)
  | _ => []

namespace Stmt

def hoistedIdents (s : Stmt) : List Ident := (s.within.flatMap vars).map Declaration.ident

def outerIdents (s : Stmt) : List Ident := s.hoistedIdents ++ s.locals.map Declaration.ident

theorem count_hoistedIdents_le (s : Stmt) (i : Ident) :
    s.hoistedIdents.count i ≤ s.outerIdents.count i :=
  (List.sublist_append_left ..).count_le i

theorem outerIdents_declare (pos : Position) (kind : DeclKind) (ds : List Declarator) :
    (declare pos kind ds).outerIdents = ds.flatMap (·.target.idents) := by
  cases kind <;> simp [outerIdents, hoistedIdents, within, vars, locals,
    Declarator.map_ident_declarations]

theorem outerIdents_function (f : Func) : (function f).outerIdents = f.name.toList := by
  simp [outerIdents, hoistedIdents, within, vars, locals, Function.comp_def]

theorem outerIdents_if (pos : Position) (t : Expr) (c : Stmt) :
    (if_ pos t c none).outerIdents = c.hoistedIdents :=
  List.append_nil _

theorem outerIdents_if_else (pos : Position) (t : Expr) (c a : Stmt) :
    (if_ pos t c (some a)).outerIdents = c.hoistedIdents ++ a.hoistedIdents := by
  change ((c.within ++ a.within).flatMap vars).map Declaration.ident ++ [] = _
  rw [List.append_nil, List.flatMap_append, List.map_append]
  rfl

theorem outerIdents_while (pos : Position) (t : Expr) (b : Stmt) :
    (while_ pos t b).outerIdents = b.hoistedIdents :=
  List.append_nil _

theorem outerIdents_doWhile (pos : Position) (b : Stmt) (t : Expr) :
    (doWhile pos b t).outerIdents = b.hoistedIdents :=
  List.append_nil _

/-- The head of a loop declares each of its names in the loop or around it. -/
theorem count_outerIdents_for_le (pos : Position) (init : ForInit) (test update : Option Expr)
    (b : Stmt) (i : Ident) : ((for_ pos init test update b).outerIdents ++
      init.locals.map Declaration.ident).count i ≤ (init.idents ++ b.outerIdents).count i := by
  have hle := b.count_hoistedIdents_le i
  have hhoisted : (for_ pos init test update b).outerIdents ++ init.locals.map Declaration.ident =
      (for_ pos init test update b).vars.map Declaration.ident ++ b.hoistedIdents ++
        init.locals.map Declaration.ident := by
    simp [outerIdents, hoistedIdents, within, locals]
  rw [hhoisted]
  cases init with
  | declare kind ds =>
    cases kind <;> simp only [vars, ForInit.locals, ForInit.idents, List.map_nil, List.count_append,
      Declarator.map_ident_declarations, List.count_nil] <;> omega
  | absent | expr e => simpa [vars, ForInit.locals, ForInit.idents] using hle

theorem outerIdents_block (pos : Position) (ss : List Stmt) :
    (block ⟨pos, ss⟩).outerIdents ++ (localsOf ss).map Declaration.ident =
      (declared ss).map Declaration.ident := by
  change ((withinList ss).flatMap vars).map Declaration.ident ++ [] ++ _ = _
  rw [List.append_nil, ← List.map_append, declared]

theorem count_declared_cons (s : Stmt) (ss : List Stmt) (i : Ident) :
    ((declared (s :: ss)).map Declaration.ident).count i =
      (s.outerIdents ++ (declared ss).map Declaration.ident).count i := by
  simp only [declared, withinList, localsOf, outerIdents, hoistedIdents, List.flatMap_append,
    List.flatMap_cons, List.map_append, List.count_append]
  omega

end Stmt

theorem Declaration.map_ident_ofOwnName (own : Option Ident) :
    (Declaration.ofOwnName own).map Declaration.ident = own.toList := by
  simp [Declaration.ofOwnName, Function.comp_def]

theorem Pattern.map_ident_params (params : List Pattern) :
    (params.flatMap (Pattern.declarations .param)).map Declaration.ident =
      params.flatMap Pattern.idents := by
  simp [List.map_flatMap, Pattern.map_ident_declarations]

end TagCheck
