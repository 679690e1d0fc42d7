import Mathlib.Data.List.Basic
import Mathlib.Data.List.Forall2
import TagCheck.Proofs.Program.Numbering
import TagCheck.Proofs.Scope.Coverage

/-! Resolution is lexical scoping. -/
namespace TagCheck

namespace Declaration

def event (d : Declaration) : ScopeEvent := .declare d.ident d.kind

@[simp] theorem find?_nil (name : String) : find? name [] = none := rfl

theorem find?_concat (name : String) (ds : List Declaration) (d : Declaration) :
    find? name (ds ++ [d]) = (find? name ds).or (if d.ident.name = name then some d else none) := by
  simp only [find?, List.find?_append, List.find?_singleton, beq_iff_eq]

theorem fresh_append (seen ds ds' : List Declaration) :
    fresh seen (ds ++ ds') = fresh seen ds ++ fresh (seen ++ ds) ds' := by
  induction ds generalizing seen with
  | nil => simp [fresh]
  | cons d ds ih =>
    simp only [List.cons_append, fresh, ih]
    split <;> simp

end Declaration

structure Finding where
  ident : Ident
  declaration? : Option Declaration
  /-- The innermost scope declares the name. -/
  isOwn : Bool

def Site.finding (s : Site) : Finding := ⟨s.ident, s.declaration?, s.ownDeclaration?.isSome⟩

def Finding.reference? (ds : List Declaration) (f : Finding) : Option Reference :=
  f.declaration?.map fun d => ⟨ds.idxOf d, f.isOwn && d.kind != .param⟩

namespace Resolving

/-- The scope has the given declarations, each under its number among `ds`. -/
def Lists (ds : List Declaration) (scope : Scope) (declared : List Declaration) : Prop :=
  ∀ name, scope.lookup name = (Declaration.find? name declared).map ds.idxOf

/-- The state of a resolution after the declarations `ds` and the findings `fs`, in the scopes
`scopes`. -/
structure Tracks (nodes : Nat) (s : Resolving) (scopes : List (List Declaration))
    (ds : List Declaration) (fs : List Finding) : Prop where
  bindings : s.resolution.bindings.toList = ds.map Declaration.binding
  lists : List.Forall₂ (Lists ds) s.scopes scopes
  mem_of_find? : ∀ declared ∈ scopes, ∀ name d, Declaration.find? name declared = some d → d ∈ ds
  refs (n : NodeId) :
    s.resolution.reference? n = (fs.find? (·.ident.node.id == n)).bind (·.reference? ds)
  mem_of_mem : ∀ f ∈ fs, ∀ d, f.declaration? = some d → d ∈ ds
  size_refs : s.resolution.refs.size = nodes

variable {nodes : Nat} {s : Resolving} {scopes : List (List Declaration)}
  {declared ds : List Declaration} {fs : List Finding}

namespace Tracks

theorem enter (h : s.Tracks nodes scopes ds fs) :
    (s.step .enter).Tracks nodes ([] :: scopes) ds fs where
  bindings := h.bindings
  lists := .cons (fun name => by simp) h.lists
  mem_of_find? := List.forall_mem_cons.2 ⟨by simp, h.mem_of_find?⟩
  refs := h.refs
  mem_of_mem := h.mem_of_mem
  size_refs := h.size_refs

theorem leave (h : s.Tracks nodes (declared :: scopes) ds fs) :
    (s.step .leave).Tracks nodes scopes ds fs where
  bindings := h.bindings
  lists := by
    obtain ⟨scope, outer, -, houter, hs⟩ := List.forall₂_cons_right_iff.1 h.lists
    simpa [step, hs] using houter
  mem_of_find? := (List.forall_mem_cons.1 h.mem_of_find?).2
  refs := h.refs
  mem_of_mem := h.mem_of_mem
  size_refs := h.size_refs

theorem function (h : s.Tracks nodes scopes ds fs) (f : Func) :
    (s.step (.function f)).Tracks nodes scopes ds fs :=
  ⟨h.bindings, h.lists, h.mem_of_find?, h.refs, h.mem_of_mem, h.size_refs⟩

/-- Later declarations do not change what the earlier ones are numbered. -/
theorem reference?_append {f : Finding} (h : ∀ d, f.declaration? = some d → d ∈ ds)
    (ds' : List Declaration) : f.reference? (ds ++ ds') = f.reference? ds := by
  cases hd : f.declaration? with
  | none => simp [Finding.reference?, hd]
  | some d => simp [Finding.reference?, hd, List.idxOf_append_of_mem (h d hd)]

theorem lists_append {scope : Scope} (h : Lists ds scope declared)
    (hmem : ∀ name d, Declaration.find? name declared = some d → d ∈ ds) (ds' : List Declaration) :
    Lists (ds ++ ds') scope declared := by
  intro name
  rw [h name]
  cases hd : Declaration.find? name declared with
  | none => rfl
  | some d => simp [List.idxOf_append_of_mem (hmem name d hd)]

theorem forall₂_lists_append {outer : List Scope} (h : List.Forall₂ (Lists ds) outer scopes)
    (hmem : ∀ declared ∈ scopes, ∀ name d, Declaration.find? name declared = some d → d ∈ ds)
    (ds' : List Declaration) : List.Forall₂ (Lists (ds ++ ds')) outer scopes := by
  induction h with
  | nil => exact .nil
  | cons hscope _ ih =>
    obtain ⟨hdeclared, hscopes⟩ := List.forall_mem_cons.1 hmem
    exact .cons (lists_append hscope hdeclared ds') (ih hscopes)

/-- A name that the scope has declared is not declared again. -/
theorem declare_again (h : s.Tracks nodes (declared :: scopes) ds fs) {d : Declaration}
    (hd : (Declaration.find? d.ident.name declared).isSome = true) :
    (s.step d.event).Tracks nodes ((declared ++ [d]) :: scopes) ds fs := by
  obtain ⟨d', hd'⟩ := Option.isSome_iff_exists.1 hd
  obtain ⟨scope, outer, hscope, houter, hs⟩ := List.forall₂_cons_right_iff.1 h.lists
  have hstep : s.step d.event = s := by
    simp [step, Declaration.event, Resolving.declare, hs, hscope d.ident.name, hd']
  have hfind (name : String) :
      Declaration.find? name (declared ++ [d]) = Declaration.find? name declared := by
    rw [Declaration.find?_concat]
    split
    · rename_i hname
      rw [← hname, hd', Option.some_or]
    · exact Option.or_none
  rw [hstep]
  refine ⟨h.bindings, ?_, ?_, h.refs, h.mem_of_mem, h.size_refs⟩
  · rw [hs]
    exact .cons (fun name => by rw [hfind, hscope]) houter
  · obtain ⟨hdeclared, hscopes⟩ := List.forall_mem_cons.1 h.mem_of_find?
    exact List.forall_mem_cons.2 ⟨fun name e he => hdeclared name e (hfind name ▸ he), hscopes⟩

/-- A name that the scope has not declared gets the next number. -/
theorem declare_new (h : s.Tracks nodes (declared :: scopes) ds fs) {d : Declaration}
    (hd : Declaration.find? d.ident.name declared = none) (hnew : d ∉ ds) :
    (s.step d.event).Tracks nodes ((declared ++ [d]) :: scopes) (ds ++ [d]) fs := by
  obtain ⟨scope, outer, hscope, houter, hs⟩ := List.forall₂_cons_right_iff.1 h.lists
  obtain ⟨hdeclared, hscopes⟩ := List.forall_mem_cons.1 h.mem_of_find?
  have hsize : s.resolution.bindings.size = ds.length := by
    rw [← Array.length_toList, h.bindings, List.length_map]
  have hstep : s.step d.event = ⟨((d.ident.name, ds.length) :: scope) :: outer,
      { s.resolution with bindings := s.resolution.bindings.push d.binding }⟩ := by
    simp [step, Declaration.event, Resolving.declare, hs, hscope d.ident.name, hd, hsize,
      Declaration.binding]
  have hindex : (ds ++ [d]).idxOf d = ds.length := by
    simp [List.idxOf_append_of_notMem hnew]
  rw [hstep]
  refine ⟨by simp [h.bindings], .cons (fun name => ?_) (forall₂_lists_append houter hscopes [d]),
    List.forall_mem_cons.2 ⟨fun name e he => ?_, ?_⟩, fun n => ?_, ?_, h.size_refs⟩
  · rw [Declaration.find?_concat]
    by_cases hname : d.ident.name = name
    · subst hname
      simp [hd, hindex]
    · have hbeq : (name == d.ident.name) = false := by simpa using Ne.symm hname
      simp only [List.lookup_cons, hbeq, hname, if_false, Option.or_none]
      exact lists_append hscope hdeclared [d] name
  · rw [Declaration.find?_concat, Option.or_eq_some_iff] at he
    rcases he with he | ⟨-, he⟩
    · exact List.mem_append_left _ (hdeclared name e he)
    · split at he
      · cases he
        exact List.mem_append_right _ (List.mem_singleton.2 rfl)
      · cases he
  · exact fun declared' hmem name e he =>
      List.mem_append_left _ (hscopes declared' hmem name e he)
  · refine (h.refs n).trans (Option.bind_congr fun f hf => ?_)
    exact (reference?_append (h.mem_of_mem f (List.mem_of_find?_eq_some hf)) [d]).symm
  · exact fun f hf e he => List.mem_append_left _ (h.mem_of_mem f hf e he)

/-- A list of declarations adds those of new names. -/
theorem declares (h : s.Tracks nodes (declared :: scopes) ds fs) {new : List Declaration}
    (hnew : (ds ++ Declaration.fresh declared new).Nodup) :
    ((new.map Declaration.event).foldl step s).Tracks nodes ((declared ++ new) :: scopes)
      (ds ++ Declaration.fresh declared new) fs := by
  induction new generalizing s declared ds with
  | nil => simpa [Declaration.fresh] using h
  | cons d new ih =>
    rw [Declaration.fresh] at hnew ⊢
    split at hnew
    · rename_i hd
      simpa [hd] using ih (h.declare_again hd) hnew
    · rename_i hd
      have hnone : Declaration.find? d.ident.name declared = none := by simpa using hd
      have hmem : d ∉ ds := fun hmem => by
        simpa using List.disjoint_of_nodup_append hnew hmem
      have hstep := h.declare_new hnone hmem
      simpa [hnone] using ih hstep (by simpa using hnew)

theorem lookup?_eq {outer : List Scope} (h : List.Forall₂ (Lists ds) outer scopes) (name : String) :
    lookup? name outer = (scopes.findSome? (Declaration.find? name)).map ds.idxOf := by
  induction h with
  | nil => rfl
  | cons hscope _ ih =>
    rename_i scope declared outer scopes _
    rw [lookup?, hscope name, ih, List.findSome?_cons]
    cases Declaration.find? name declared <;> rfl

theorem bindings_getElem? (h : s.Tracks nodes scopes ds fs) {d : Declaration} (hd : d ∈ ds) :
    s.resolution.bindings[ds.idxOf d]? = some d.binding := by
  rw [← Array.getElem?_toList, h.bindings, List.getElem?_map]
  simp [List.getElem?_idxOf hd]

theorem isSome_head_lookup {outer : List Scope} (h : List.Forall₂ (Lists ds) outer scopes)
    (i : Ident) : (outer.head?.bind (·.lookup i.name)).isSome =
      (Site.ownDeclaration? ⟨i, scopes⟩).isSome := by
  cases h with
  | nil => rfl
  | cons hscope _ => simp [Site.ownDeclaration?, hscope i.name]

theorem find?_eq_none_of_notMem {n : NodeId} (h : n ∉ fs.map (·.ident.node.id)) :
    fs.find? (·.ident.node.id == n) = none := by
  rw [List.find?_eq_none]
  intro f hf heq
  exact h (List.mem_map.2 ⟨f, hf, by simpa using heq⟩)

theorem bind_find?_concat {f : Finding} (hnew : f.ident.node.id ∉ fs.map (·.ident.node.id))
    (n : NodeId) (r : Finding → Option Reference) :
    ((fs ++ [f]).find? (·.ident.node.id == n)).bind r =
      if f.ident.node.id = n then r f else (fs.find? (·.ident.node.id == n)).bind r := by
  rw [List.find?_append, List.find?_singleton]
  by_cases hn : f.ident.node.id = n
  · simp [hn, find?_eq_none_of_notMem (hn ▸ hnew)]
  · simp [hn]

theorem mem_of_declaration? (h : s.Tracks nodes scopes ds fs) {i : Ident} {d : Declaration}
    (hd : Site.declaration? ⟨i, scopes⟩ = some d) : d ∈ ds := by
  obtain ⟨declared, hmem, hfind⟩ := List.exists_of_findSome?_eq_some hd
  exact h.mem_of_find? declared hmem i.name d hfind

theorem refer (h : s.Tracks nodes scopes ds fs) {i : Ident}
    (hnew : i.node.id ∉ fs.map (·.ident.node.id)) (hi : i.node.id < nodes) :
    (s.step (.refer i)).Tracks nodes scopes ds (fs ++ [Site.finding ⟨i, scopes⟩]) := by
  have hlookup : lookup? i.name s.scopes = (Site.declaration? ⟨i, scopes⟩).map ds.idxOf :=
    lookup?_eq h.lists i.name
  have hmem : ∀ f ∈ fs ++ [Site.finding ⟨i, scopes⟩], ∀ d, f.declaration? = some d → d ∈ ds := by
    simp only [List.forall_mem_append, List.forall_mem_singleton]
    exact ⟨h.mem_of_mem, fun d hd => h.mem_of_declaration? hd⟩
  cases hd : Site.declaration? ⟨i, scopes⟩ with
  | none =>
    have hstep : s.step (.refer i) = s := by simp [step, Resolving.refer, hlookup, hd]
    rw [hstep]
    refine ⟨h.bindings, h.lists, h.mem_of_find?, fun n => ?_, hmem, h.size_refs⟩
    rw [bind_find?_concat hnew, h.refs n]
    split
    · rename_i hn
      have hnone := find?_eq_none_of_notMem (hn ▸ hnew)
      simp [hnone, Finding.reference?, Site.finding, hd]
    · rfl
  | some d =>
    have hparam : s.resolution.isParam (ds.idxOf d) = (d.kind == .param) := by
      simp [Resolution.isParam, h.bindings_getElem? (h.mem_of_declaration? hd), Declaration.binding]
    have hstep : s.step (.refer i) = { s with resolution := { s.resolution with
        refs := s.resolution.refs.setIfInBounds i.node.id
          ((Site.finding ⟨i, scopes⟩).reference? ds) } } := by
      simp [step, Resolving.refer, hlookup, hd, Site.finding, Finding.reference?, hparam,
        isSome_head_lookup h.lists, bne]
    rw [hstep]
    refine ⟨h.bindings, h.lists, h.mem_of_find?, fun n => ?_, hmem, by simpa using h.size_refs⟩
    rw [bind_find?_concat hnew]
    simp only [Resolution.reference?, Array.getElem?_setIfInBounds, h.size_refs]
    by_cases hn : i.node.id = n
    · subst hn
      simp [hi, Site.finding]
    · simpa [hn, Site.finding, Resolution.reference?] using h.refs n

end Tracks

/-- No declaration is there twice, and the identifiers are different nodes of the program. -/
structure Fresh (nodes : Nat) (ds : List Declaration) (fs : List Finding) : Prop where
  declarations : ds.Nodup
  ids : (fs.map (·.ident.node.id)).Nodup
  lt : ∀ f ∈ fs, f.ident.node.id < nodes

theorem Fresh.notMem {f : Finding} (h : Fresh nodes ds (fs ++ [f])) :
    f.ident.node.id ∉ fs.map (·.ident.node.id) := by
  have hids := h.ids
  rw [List.map_append] at hids
  exact fun hmem => List.disjoint_of_nodup_append hids hmem (List.mem_singleton.2 rfl)

theorem Fresh.lt_last {f : Finding} (h : Fresh nodes ds (fs ++ [f])) : f.ident.node.id < nodes :=
  h.lt f (List.mem_append_right _ (List.mem_singleton.2 rfl))

theorem Fresh.left_declarations {ds' : List Declaration} (h : Fresh nodes (ds ++ ds') fs) :
    Fresh nodes ds fs := ⟨h.declarations.of_append_left, h.ids, h.lt⟩

theorem Fresh.left {ds' : List Declaration} {fs' : List Finding}
    (h : Fresh nodes (ds ++ ds') (fs ++ fs')) : Fresh nodes ds fs where
  declarations := h.declarations.of_append_left
  ids := by
    have hids := h.ids
    rw [List.map_append] at hids
    exact hids.of_append_left
  lt := (List.forall_mem_append.1 h.lt).1

/-- The events do to a resolution what the trees say. -/
def Resolves (es : List ScopeEvent) (ts : List ScopeTree) : Prop :=
  ∀ ⦃nodes s scopes ds fs⦄, Tracks nodes s scopes ds fs →
    Fresh nodes (ds ++ ScopeTree.declarationsList ts)
      (fs ++ (ScopeTree.sitesList scopes ts).map Site.finding) →
    Tracks nodes (es.foldl step s) scopes (ds ++ ScopeTree.declarationsList ts)
      (fs ++ (ScopeTree.sitesList scopes ts).map Site.finding)

namespace Resolves

theorem nil : Resolves [] [] := fun _ _ _ _ _ h _ => by
  simpa [ScopeTree.declarationsList, ScopeTree.sitesList] using h

theorem append {es es' : List ScopeEvent} {ts ts' : List ScopeTree} (h : Resolves es ts)
    (h' : Resolves es' ts') : Resolves (es ++ es') (ts ++ ts') := by
  intro nodes s scopes ds fs hs hfresh
  simp only [ScopeTree.declarationsList_append, ScopeTree.sitesList_append, List.map_append,
    ← List.append_assoc] at hfresh ⊢
  rw [List.foldl_append]
  exact h' (h hs hfresh.left) hfresh

theorem refer (i : Ident) : Resolves [.refer i] [.use i] := by
  intro nodes s scopes ds fs hs hfresh
  simp only [ScopeTree.declarationsList, ScopeTree.declarations, ScopeTree.sitesList,
    ScopeTree.sites, List.append_nil, List.map_cons, List.map_nil] at hfresh ⊢
  exact hs.refer hfresh.notMem hfresh.lt_last

theorem function (f : Func) : Resolves [.function f] [] := fun _ _ _ _ _ h _ => by
  simpa [ScopeTree.declarationsList, ScopeTree.sitesList] using h.function f

/-- The name of a function expression is found before the parameters are declared, which makes no
difference. -/
theorem ownName (own : Option Ident) (head : List Declaration)
    (h : s.Tracks nodes ([] :: scopes) ds fs)
    (hfresh : Fresh nodes (ds ++ Declaration.ofOwnName own) (fs ++ (ScopeTree.sitesList
      ((Declaration.ofOwnName own ++ head) :: scopes) (own.toList.map .use)).map Site.finding)) :
    ((own.toList.flatMap fun i => [.declare i .functionName, .refer i]).foldl step s).Tracks nodes
      (Declaration.ofOwnName own :: scopes) (ds ++ Declaration.ofOwnName own)
      (fs ++ (ScopeTree.sitesList ((Declaration.ofOwnName own ++ head) :: scopes)
        (own.toList.map .use)).map Site.finding) := by
  cases own with
  | none => simpa [Declaration.ofOwnName, ScopeTree.sitesList] using h
  | some i =>
    have hfind : Site.finding ⟨i, (⟨i, .functionName⟩ :: head) :: scopes⟩ =
        Site.finding ⟨i, [⟨i, .functionName⟩] :: scopes⟩ := by
      simp [Site.finding, Site.declaration?, Site.ownDeclaration?, Declaration.find?]
    simp only [Declaration.ofOwnName, Option.toList_some, List.map_cons, List.map_nil,
      ScopeTree.sitesList, ScopeTree.sites, List.cons_append, List.nil_append, List.append_nil,
      hfind] at hfresh ⊢
    have hnew : (⟨i, .functionName⟩ : Declaration) ∉ ds := fun hmem =>
      List.disjoint_of_nodup_append hfresh.declarations hmem (List.mem_singleton.2 rfl)
    have hdeclare := h.declare_new rfl hnew
    exact hdeclare.refer hfresh.notMem hfresh.lt_last

theorem scope (own : Option Ident) (head body : List Declaration) {es es' : List ScopeEvent}
    {ts ts' : List ScopeTree} (h : Resolves es ts) (h' : Resolves es' ts') :
    Resolves ([ScopeEvent.enter] ++
        (own.toList.flatMap fun i => [ScopeEvent.declare i .functionName, .refer i]) ++
        head.map Declaration.event ++ es ++ body.map Declaration.event ++ es' ++
        [ScopeEvent.leave])
      [.scope (Declaration.ofOwnName own ++ head) (own.toList.map .use ++ ts) body ts'] := by
  intro nodes s scopes ds fs hs hfresh
  have hown : Declaration.fresh [] (Declaration.ofOwnName own) = Declaration.ofOwnName own := by
    cases own <;> simp [Declaration.fresh, Declaration.ofOwnName]
  have huses : ScopeTree.declarationsList (own.toList.map .use) = [] := by
    cases own <;> simp [ScopeTree.declarationsList, ScopeTree.declarations]
  simp only [ScopeTree.declarationsList, ScopeTree.declarations, ScopeTree.declarationsList_append,
    ScopeTree.sitesList, ScopeTree.sites, ScopeTree.sitesList_append, List.append_nil,
    Declaration.fresh_append, hown, huses, List.nil_append, List.map_append,
    ← List.append_assoc] at hfresh ⊢
  simp only [List.foldl_append, List.foldl_cons, List.foldl_nil]
  have hbody := hfresh.left
  have hinner := hbody.left_declarations
  have hhead := hinner.left
  have hopen := ownName own head hs.enter hhead.left_declarations
  have hdeclared := (h (hopen.declares hhead.declarations) hinner).declares hbody.declarations
  exact (h' hdeclared hfresh).leave

end Resolves

end Resolving

open Resolving

theorem Pattern.map_event_declarations (kind : BindingKind) (p : Pattern) :
    (p.declarations kind).map Declaration.event = p.idents.map (.declare · kind) := by
  simp [Pattern.declarations, Declaration.event]

theorem Declarator.map_event_declarations (kind : DeclKind) (ds : List Declarator) :
    (Declarator.declarations kind ds).map Declaration.event =
      Declarator.declares kind.bindingKind ds := by
  simp [Declarator.declarations, Declarator.declares, List.map_flatMap,
    Pattern.map_event_declarations]

theorem Stmt.map_event_locals (s : Stmt) : s.locals.map Declaration.event = s.lexical := by
  cases s with
  | declare pos kind ds =>
    cases kind <;> simp [locals, lexical, Declarator.map_event_declarations, DeclKind.bindingKind]
  | function f =>
    obtain ⟨node, func, form, name, params, body⟩ := f
    cases name <;> simp [locals, lexical, Declaration.event]
  | _ => rfl

theorem Stmt.map_event_localsOf (ss : List Stmt) :
    (Stmt.localsOf ss).map Declaration.event = Stmt.lexicalList ss := by
  simp [localsOf, lexicalList, List.map_flatMap, map_event_locals]

mutual

theorem Stmt.map_event_vars_within : ∀ s : Stmt,
    (s.within.flatMap Stmt.vars).map Declaration.event = s.hoisted
  | .declare _ kind ds => by
    cases kind <;>
      simp [Stmt.within, Stmt.vars, Stmt.hoisted, Declarator.map_event_declarations,
        DeclKind.bindingKind]
  | .if_ _ _ c none => c.map_event_vars_within
  | .if_ _ _ c (some a) => by
    simp [Stmt.within, Stmt.vars, Stmt.hoisted, c.map_event_vars_within, a.map_event_vars_within]
  | .while_ _ _ b | .doWhile _ b _ => b.map_event_vars_within
  | .for_ _ init _ _ b => by
    cases init with
    | declare kind ds =>
      cases kind <;>
        simp [Stmt.within, Stmt.vars, Stmt.hoisted, Declarator.map_event_declarations,
          DeclKind.bindingKind, b.map_event_vars_within]
    | _ => simp [Stmt.within, Stmt.vars, Stmt.hoisted, b.map_event_vars_within]
  | .block ⟨_, stmts⟩ => Stmt.map_event_vars_withinList stmts
  | .function _ | .return_ .. | .expr _ | .break_ _ | .continue_ _ | .empty _ => rfl

theorem Stmt.map_event_vars_withinList : ∀ ss : List Stmt,
    ((Stmt.withinList ss).flatMap Stmt.vars).map Declaration.event = Stmt.hoistedList ss
  | [] => rfl
  | s :: ss => by
    simp [Stmt.withinList, Stmt.hoistedList, s.map_event_vars_within,
      Stmt.map_event_vars_withinList ss]

end

theorem Stmt.map_event_declared (ss : List Stmt) :
    (Stmt.declared ss).map Declaration.event = Stmt.hoistedList ss ++ Stmt.lexicalList ss := by
  simp [declared, map_event_vars_withinList, map_event_localsOf]

/-- The functions that the events note are those among the nodes, and all that is in them is among
the nodes. -/
structure Registers (ns : List SyntaxNode) (es : List ScopeEvent) : Prop where
  mem_iff {f : Func} : .function f ∈ es ↔ ∃ x ∈ ns, x.func? = some f
  nodes {f : Func} {x : SyntaxNode} : x ∈ ns → x.func? = some f → f.nodes ⊆ ns

namespace Registers

variable {ns ns' : List SyntaxNode} {es es' : List ScopeEvent} {x : SyntaxNode} {f : Func}

theorem append (h : Registers ns es) (h' : Registers ns' es') :
    Registers (ns ++ ns') (es ++ es') where
  mem_iff := by simp [h.mem_iff, h'.mem_iff, or_and_right, exists_or]
  nodes hx hf := by
    rcases List.mem_append.1 hx with hx | hx
    · exact List.subset_append_of_subset_left _ (h.nodes hx hf)
    · exact List.subset_append_of_subset_right _ (h'.nodes hx hf)

/-- Neither the nodes nor the events are about functions. -/
theorem silent (hns : ∀ x ∈ ns, x.func? = none) (hes : ∀ f, .function f ∉ es) :
    Registers ns es where
  mem_iff {f} := by
    refine ⟨fun hf => absurd hf (hes f), ?_⟩
    rintro ⟨x, hx, hf⟩
    cases (hns x hx).symm.trans hf
  nodes hx hf := nomatch (hns _ hx).symm.trans hf

theorem cons (h : Registers ns es) (hx : x.func? = none) : Registers (x :: ns) es := by
  have hskip : Registers [x] [] := .silent (by simpa using hx) (by simp)
  exact hskip.append h

theorem function (h : Registers f.nodes (es ++ es')) (hx : x.func? = some f) :
    Registers (x :: f.nodes) (es ++ .function f :: es') where
  mem_iff {g} := by
    have hg := h.mem_iff (f := g)
    simp only [List.mem_append, List.mem_cons, ScopeEvent.function.injEq, exists_eq_or_imp, hx,
      Option.some.injEq, ← hg] at hg ⊢
    tauto
  nodes hy hg := by
    refine List.subset_cons_of_subset _ ?_
    rcases List.mem_cons.1 hy with rfl | hy
    · cases hx.symm.trans hg
      exact List.Subset.refl _
    · exact h.nodes hy hg

end Registers

/-- The nodes are accounted for by the events and by the trees, scope by scope. They may declare the
given identifiers in the scope around them. The trees are not those of functions out of place. -/
inductive Unfolds : List SyntaxNode → List Ident → List ScopeEvent → List ScopeTree → Prop
  | nil : Unfolds [] [] [] []
  | append {ns ns' : List SyntaxNode} {outer outer' : List Ident} {es es' : List ScopeEvent}
    {ts ts' : List ScopeTree} (h : Unfolds ns outer es ts) (h' : Unfolds ns' outer' es' ts') :
    Unfolds (ns ++ ns') (outer ++ outer') (es ++ es') (ts ++ ts')
  | skip {x : SyntaxNode} {ns : List SyntaxNode} {outer : List Ident} {es : List ScopeEvent}
    {ts : List ScopeTree} (hident : x.ident? = none) (hfunc : x.func? = none)
    (h : Unfolds ns outer es ts) : Unfolds (x :: ns) outer es ts
  | use {x : SyntaxNode} {i : Ident} (hx : x.ident? = some i) : Unfolds [x] [i] [.refer i] [.use i]
  | mono {ns : List SyntaxNode} {outer outer' : List Ident} {es : List ScopeEvent}
    {ts : List ScopeTree} (h : Unfolds ns outer es ts)
    (hle : ∀ i, outer'.count i ≤ outer.count i) : Unfolds ns outer' es ts
  | function {x : SyntaxNode} {f : Func} {ns ns' : List SyntaxNode} {outer outer' : List Ident}
    {es es' : List ScopeEvent} {ts ts' : List ScopeTree} (hx : x.func? = some f)
    (hnodes : f.nodes = ns ++ ns') (h : Unfolds ns outer es ts) (h' : Unfolds ns' outer' es' ts') :
    Unfolds (x :: f.nodes) (outer ++ outer') (es ++ .function f :: es') (ts ++ ts')
  | outOfPlace {x : SyntaxNode} {ns : List SyntaxNode} {outer : List Ident} {es : List ScopeEvent}
    {ts : List ScopeTree} (hx : x ∈ ns) (h : x.isInPlace ≠ true) (hes : Registers ns es) :
    Unfolds ns outer es ts
  | scope (own : Option Ident) (head body : List Declaration) {ns ns' : List SyntaxNode}
    {outer : List Ident} {es es' : List ScopeEvent} {ts ts' : List ScopeTree}
    (h : Unfolds ns (head.map Declaration.ident) es ts)
    (h' : Unfolds ns' (outer ++ body.map Declaration.ident) es' ts') :
    Unfolds (own.toList.map .name ++ ns ++ ns') outer ([ScopeEvent.enter] ++
        (own.toList.flatMap fun i => [ScopeEvent.declare i .functionName, .refer i]) ++
        head.map Declaration.event ++ es ++ body.map Declaration.event ++ es' ++
        [ScopeEvent.leave])
      [.scope (Declaration.ofOwnName own ++ head) (own.toList.map .use ++ ts) body ts']

/-- An identifier is no function. -/
theorem SyntaxNode.func?_of_ident? {x : SyntaxNode} {i : Ident} (h : x.ident? = some i) :
    x.func? = none := by
  cases x with
  | expr e => cases e <;> first | rfl | cases h
  | pattern | name => rfl
  | _ => cases h

namespace Unfolds

variable {ns ns' : List SyntaxNode} {outer : List Ident} {es es' : List ScopeEvent}
  {ts ts' : List ScopeTree}

theorem then_ (h : Unfolds ns outer es ts) (h' : Unfolds ns' [] es' ts') :
    Unfolds (ns ++ ns') outer (es ++ es') (ts ++ ts') :=
  List.append_nil outer ▸ h.append h'

theorem closed (h : Unfolds ns outer es ts) : Unfolds ns [] es ts := h.mono (by simp)

theorem placed {x : SyntaxNode} (hes : Registers (x :: ns) es)
    (h : x.isInPlace = true → Unfolds (x :: ns) outer es ts) : Unfolds (x :: ns) outer es ts :=
  (em _).elim h fun h => outOfPlace List.mem_cons_self h hes

theorem ofFunc {x : SyntaxNode} {f : Func} (hx : x.func? = some f)
    (h : Unfolds (f.name.toList.map .name ++ Pattern.nodesList f.params ++ f.body.nodes) []
      f.scopeEvents.tail ts) : Unfolds (x :: f.nodes) [] f.scopeEvents ts := by
  cases f
  exact .function hx (List.nil_append _).symm .nil h

theorem block (declared : List Declaration)
    (h : Unfolds ns (outer ++ declared.map Declaration.ident) es ts) :
    Unfolds ns outer ([ScopeEvent.enter] ++ declared.map Declaration.event ++ es ++
      [ScopeEvent.leave]) [.block declared ts] := by
  simpa [Declaration.ofOwnName, ScopeTree.block] using scope none [] declared nil h

theorem registers (h : Unfolds ns outer es ts) : Registers ns es := by
  induction h with
  | nil => exact .silent (by simp) (by simp)
  | append _ _ ih ih' => exact ih.append ih'
  | skip _ hfunc _ ih => exact ih.cons hfunc
  | use hx => exact .silent (by simpa using SyntaxNode.func?_of_ident? hx) (by simp)
  | mono _ _ ih => exact ih
  | function hx hnodes _ _ ih ih' => exact .function (hnodes ▸ ih.append ih') hx
  | outOfPlace _ _ hes => exact hes
  | scope own head body _ _ ih ih' =>
    have hown : Registers (own.toList.map .name) ([ScopeEvent.enter] ++
        (own.toList.flatMap fun i => [ScopeEvent.declare i .functionName, .refer i])) :=
      .silent (by simp [SyntaxNode.func?]) (by simp)
    have hdeclared (ds : List Declaration) : Registers [] (ds.map Declaration.event) :=
      .silent (by simp) (by simp [Declaration.event])
    have hleave : Registers [] [.leave] := .silent (by simp) (by simp)
    simpa using ((((hown.append (hdeclared head)).append ih).append (hdeclared body)).append
      ih').append hleave

theorem resolves (h : Unfolds ns outer es ts) (hns : InPlace ns) : Resolves es ts := by
  induction h with
  | nil => exact .nil
  | append _ _ ih ih' =>
    rw [inPlace_append] at hns
    exact (ih hns.1).append (ih' hns.2)
  | skip _ _ _ ih => exact ih (inPlace_cons.1 hns).2
  | use => exact .refer _
  | mono _ _ ih => exact ih hns
  | function _ hnodes _ _ ih ih' =>
    rw [inPlace_cons, hnodes, inPlace_append] at hns
    exact (ih hns.2.1).append ((Resolves.function _).append (ih' hns.2.2))
  | outOfPlace hx h _ => exact absurd (hns _ hx) h
  | scope own head body _ _ ih ih' =>
    simp only [inPlace_append] at hns
    exact .scope own head body (ih hns.1.2) (ih' hns.2)

theorem covers (h : Unfolds ns outer es ts) (hns : InPlace ns) : Covers ns outer ts := by
  induction h with
  | nil => exact .nil
  | append _ _ ih ih' =>
    rw [inPlace_append] at hns
    exact (ih hns.1).append (ih' hns.2)
  | skip hident _ _ ih => exact .skip hident (ih (inPlace_cons.1 hns).2)
  | use hx => exact .use hx
  | mono _ hle ih => exact (ih hns).mono hle
  | function hx hnodes _ _ ih ih' =>
    rw [inPlace_cons, hnodes, inPlace_append] at hns
    rw [hnodes]
    refine .skip (Option.eq_none_iff_forall_ne_some.2 fun i hi => ?_)
      ((ih hns.2.1).append (ih' hns.2.2))
    cases (SyntaxNode.func?_of_ident? hi).symm.trans hx
  | outOfPlace hx h _ => exact absurd (hns _ hx) h
  | scope own head body _ _ ih ih' =>
    simp only [inPlace_append] at hns
    refine .scope ?_ (ih' hns.2)
    rw [List.map_append, Declaration.map_ident_ofOwnName]
    exact (Covers.ownName own).append (ih hns.1.2)

/-- Every declaration and every identifier among the events is one of the trees. -/
theorem mem_trees (h : Unfolds ns outer es ts) (hns : InPlace ns) : (∀ i kind,
    .declare i kind ∈ es → ⟨i, kind⟩ ∈ ScopeTree.writtenList ts) ∧ ∀ i, .refer i ∈ es →
      ∀ scopes, i ∈ (ScopeTree.sitesList scopes ts).map Site.ident := by
  induction h with
  | nil => simp
  | append _ _ ih ih' | function _ hnodes _ _ ih ih' =>
    simp_all only [inPlace_cons, inPlace_append, List.mem_append, List.mem_cons, reduceCtorEq,
      false_or, ScopeTree.writtenList_append, ScopeTree.sitesList_append, List.map_append,
      true_implies]
    exact ⟨fun i kind h => h.imp (ih.1 i kind) (ih'.1 i kind),
      fun i h scopes => h.imp (ih.2 i · scopes) (ih'.2 i · scopes)⟩
  | skip _ _ _ ih => exact ih (inPlace_cons.1 hns).2
  | use => simp [ScopeTree.sitesList, ScopeTree.sites]
  | mono _ _ ih => exact ih hns
  | outOfPlace hx h _ => exact absurd (hns _ hx) h
  | scope own head body _ _ ih ih' =>
    simp only [inPlace_append] at hns
    replace ih := ih hns.1.2
    replace ih' := ih' hns.2
    have hevent {ds : List Declaration} {i : Ident} {kind : BindingKind}
        (h : .declare i kind ∈ ds.map Declaration.event) : ⟨i, kind⟩ ∈ ds := by
      obtain ⟨d, hd, heq⟩ := List.mem_map.1 h
      cases heq
      exact hd
    simp only [ScopeTree.writtenList, ScopeTree.written, ScopeTree.sitesList, ScopeTree.sites,
      ScopeTree.writtenList_append, ScopeTree.sitesList_append, List.mem_append, List.map_append,
      List.append_nil]
    refine ⟨fun i kind h => ?_, fun i h scopes => ?_⟩
    · rcases h with ((((((h | h) | h) | h) | h) | h) | h)
      · simp at h
      · cases own <;> simp_all [Declaration.ofOwnName]
      · exact .inl (.inl (.inl (.inr (hevent h))))
      · exact .inl (.inl (.inr (.inr (ih.1 i kind h))))
      · exact .inl (.inr (hevent h))
      · exact .inr (ih'.1 i kind h)
      · simp at h
    · rcases h with ((((((h | h) | h) | h) | h) | h) | h)
      · simp at h
      · refine .inl (.inl ?_)
        cases own <;> simp_all [ScopeTree.sitesList, ScopeTree.sites]
      · simp [Declaration.event] at h
      · exact .inl (.inr (ih.2 i h _))
      · simp [Declaration.event] at h
      · exact .inr (ih'.2 i h _)
      · simp at h

end Unfolds

/-- The name that a function declares inside itself. -/
def Func.own (f : Func) : Option Ident := if f.form = .declaration then none else f.name

theorem Func.ofOwnName_eq (f : Func) : ScopeEvent.ofOwnName f.form f.name =
    f.own.toList.flatMap fun i => [.declare i .functionName, .refer i] := by
  obtain ⟨_, _, form, name, _, _⟩ := f
  cases name <;> cases form <;> rfl

/-- Wherever a function is, it is noted with all that is in it. -/
theorem Registers.ofFunc {x : SyntaxNode} {f : Func} (hx : x.func? = some f)
    (h : Registers (f.own.toList.map .name ++ Pattern.nodesList f.params ++ f.body.nodes)
      f.scopeEvents.tail) : Registers (x :: f.nodes) f.scopeEvents := by
  have hnodes : Registers f.nodes ([] ++ f.scopeEvents.tail) := by
    obtain ⟨_, _, form, name, _, _⟩ := f
    cases name with
    | none => cases form <;> exact h
    | some i => cases form <;> first | exact h | exact h.cons (x := .name i) rfl
  cases f
  exact hnodes.function hx

mutual

theorem Expr.unfolds : ∀ e : Expr, Unfolds e.nodes [] e.scopeEvents e.scopeTrees
  | .number .. | .bigint .. | .str .. | .bool .. | .null _ | .regex .. | .this _ =>
    .skip rfl rfl .nil
  | .ident _ => (Unfolds.use rfl).closed
  | .template _ ⟨_, _, parts⟩ => .skip rfl rfl (Expr.unfoldsList parts)
  | .tagged _ tag ⟨_, _, parts⟩ => .skip rfl rfl (tag.unfolds.append (Expr.unfoldsList parts))
  | .array _ elements => .skip rfl rfl (Element.unfolds elements)
  | .object _ props => .skip rfl rfl (Property.unfolds props)
  | .function f => by
    refine .placed (.ofFunc rfl f.unfolds.registers) fun h => .ofFunc rfl ?_
    have hown : f.own = f.name := if_neg fun hform => by simp [SyntaxNode.isInPlace, hform] at h
    rw [Expr.scopeTrees, ← hown]
    exact f.unfolds
  | .unary _ _ e | .update _ _ _ e => .skip rfl rfl e.unfolds
  | .binary _ _ l r | .logical _ _ l r => .skip rfl rfl (l.unfolds.append r.unfolds)
  | .conditional _ t c a => .skip rfl rfl ((t.unfolds.append c.unfolds).append a.unfolds)
  | .assign _ target value => .skip rfl rfl (target.unfolds.closed.append value.unfolds)
  | .assignMember _ target value => .skip rfl rfl (target.unfolds.append value.unfolds)
  | .sequence _ parts => .skip rfl rfl (Expr.unfoldsList parts)
  | .call _ callee args | .new _ callee args =>
    .skip rfl rfl (callee.unfolds.append (Element.unfolds args))
  | .member _ object key => .skip rfl rfl (object.unfolds.append key.unfolds)

theorem Expr.unfoldsList : ∀ es : List Expr,
    Unfolds (Expr.nodesList es) [] (Expr.scopeEventsList es) (Expr.scopeTreesList es)
  | [] => .nil
  | e :: es => e.unfolds.append (Expr.unfoldsList es)

theorem Expr.unfoldsOption : ∀ o : Option Expr,
    Unfolds (Expr.nodesOption o) [] (Expr.scopeEventsOption o) (Expr.scopeTreesOption o)
  | none => .nil
  | some e => e.unfolds

theorem Key.unfolds : ∀ k : Key, Unfolds k.nodes [] k.scopeEvents k.scopeTrees
  | .name _ => .nil
  | .computed e => e.unfolds

theorem Element.unfolds : ∀ es : List Element,
    Unfolds (Element.nodes es) [] (Element.scopeEvents es) (Element.scopeTrees es)
  | [] => .nil
  | .hole :: es => Element.unfolds es
  | .item e :: es => e.unfolds.append (Element.unfolds es)
  | .spread _ e :: es => .skip rfl rfl (e.unfolds.append (Element.unfolds es))

theorem Property.unfolds : ∀ ps : List Property,
    Unfolds (Property.nodes ps) [] (Property.scopeEvents ps) (Property.scopeTrees ps)
  | [] => .nil
  | .keyValue k v _ :: ps => (k.unfolds.append v.unfolds).append (Property.unfolds ps)
  | .method k f :: ps => by
    have hf : Unfolds (.method f :: f.nodes) [] f.scopeEvents [f.scopeTree none] := by
      refine .placed (.ofFunc rfl f.unfolds.registers) fun h => .ofFunc rfl ?_
      simp only [SyntaxNode.isInPlace, Bool.and_eq_true, beq_iff_eq, Option.isNone_iff_eq_none] at h
      have hown : f.own = none := by simp [Func.own, h]
      rw [h.2]
      exact hown ▸ f.unfolds
    have hps := k.unfolds.append (hf.append (Property.unfolds ps))
    rw [← List.append_assoc k.scopeEvents, ← List.append_assoc k.scopeTrees] at hps
    exact hps
  | .spread _ e :: ps => .skip rfl rfl (e.unfolds.append (Property.unfolds ps))

theorem Pattern.unfolds : ∀ p : Pattern, Unfolds p.nodes p.idents p.scopeEvents p.scopeTrees
  | .ident _ => .use rfl
  | .array _ elements => .skip rfl rfl (Pattern.unfoldsElements elements)
  | .object _ props => .skip rfl rfl (PatternProp.unfolds props)
  | .withDefault _ target value => .skip rfl rfl (target.unfolds.then_ value.unfolds)
  | .rest _ argument => .skip rfl rfl argument.unfolds

theorem Pattern.unfoldsElements : ∀ ps : List (Option Pattern), Unfolds (Pattern.nodesElements ps)
    (Pattern.identsOfElements ps) (Pattern.scopeEventsElements ps) (Pattern.scopeTreesElements ps)
  | [] => .nil
  | none :: ps => Pattern.unfoldsElements ps
  | some p :: ps => p.unfolds.append (Pattern.unfoldsElements ps)

theorem Pattern.unfoldsList : ∀ ps : List Pattern, Unfolds (Pattern.nodesList ps)
    (ps.flatMap Pattern.idents) (Pattern.scopeEventsList ps) (Pattern.scopeTreesList ps)
  | [] => .nil
  | p :: ps => p.unfolds.append (Pattern.unfoldsList ps)

theorem PatternProp.unfolds : ∀ ps : List PatternProp, Unfolds (PatternProp.nodes ps)
    (PatternProp.identsOfProps ps) (PatternProp.scopeEvents ps) (PatternProp.scopeTrees ps)
  | [] => .nil
  | .prop _ p :: ps | .rest p :: ps => p.unfolds.append (PatternProp.unfolds ps)

theorem Func.unfolds : ∀ f : Func,
    Unfolds (f.own.toList.map .name ++ Pattern.nodesList f.params ++ f.body.nodes) []
      f.scopeEvents.tail [f.scopeTree f.own]
  | ⟨node, func, form, name, params, body⟩ => by
    obtain ⟨es, hes, hbody⟩ := body.unfolds
    have hown := Func.ofOwnName_eq ⟨node, func, form, name, params, body⟩
    have hparams := Pattern.unfoldsList params
    rw [← Pattern.map_ident_params] at hparams
    simpa [Func.scopeEvents, Func.scopeTree, hown, hes, List.map_flatMap,
      Pattern.map_event_declarations] using Unfolds.scope _ _ body.declared hparams hbody

theorem Body.unfolds : ∀ b : Body, ∃ es, b.scopeEvents = b.declared.map Declaration.event ++ es ∧
    Unfolds b.nodes (b.declared.map Declaration.ident) es b.scopeTrees
  | .block ⟨_, stmts⟩ => by
    refine ⟨Stmt.scopeEventsList stmts, ?_, Stmt.unfoldsList stmts⟩
    rw [Body.scopeEvents, Body.declared, Stmt.map_event_declared]
  | .expr e => ⟨e.scopeEvents, rfl, e.unfolds⟩

theorem Stmt.unfolds : ∀ s : Stmt, Unfolds s.nodes s.outerIdents s.scopeEvents s.scopeTrees
  | .declare pos kind ds => Stmt.outerIdents_declare pos kind ds ▸ Declarator.unfolds ds
  | .function ⟨node, func, form, name, params, body⟩ => by
    have hname : Unfolds (name.toList.map .name) name.toList (name.toList.map .refer)
        (name.toList.map .use) := by
      cases name with
      | none => exact .nil
      | some i => exact .use rfl
    have hf := Func.unfolds ⟨node, func, form, name, params, body⟩
    have hrefer : Registers [] (name.toList.map .refer) := .silent (by simp) (by simp)
    refine .placed (hrefer.append (.ofFunc rfl hf.registers)) fun h => ?_
    have hown : Func.own ⟨node, func, form, name, params, body⟩ = none :=
      if_pos (by simpa [SyntaxNode.isInPlace] using h)
    rw [Stmt.outerIdents_function, ← List.append_nil name.toList]
    rw [hown] at hf
    exact .function rfl (List.append_assoc ..) hname hf
  | .return_ _ none => .nil
  | .return_ _ (some e) => e.unfolds
  | .if_ _ t c none => by
    refine (t.unfolds.append c.unfolds).mono fun i => ?_
    rw [Stmt.outerIdents_if]
    exact c.count_hoistedIdents_le i
  | .if_ _ t c (some a) => by
    refine ((t.unfolds.append c.unfolds).append a.unfolds).mono fun i => ?_
    rw [Stmt.outerIdents_if_else, List.nil_append, List.count_append, List.count_append]
    exact Nat.add_le_add (c.count_hoistedIdents_le i) (a.count_hoistedIdents_le i)
  | .while_ _ t b => by
    refine (t.unfolds.append b.unfolds).mono fun i => ?_
    rw [Stmt.outerIdents_while]
    exact b.count_hoistedIdents_le i
  | .doWhile _ b t => by
    refine (t.unfolds.append b.unfolds).mono fun i => ?_
    rw [Stmt.outerIdents_doWhile]
    exact b.count_hoistedIdents_le i
  | .for_ pos init test update body => by
    obtain ⟨es, hes, hinit⟩ := init.unfolds
    have hinner := ((hinit.then_ (Expr.unfoldsOption test)).then_
      (Expr.unfoldsOption update)).append body.unfolds
    have hblock := Unfolds.block init.locals
      (hinner.mono (Stmt.count_outerIdents_for_le pos init test update body))
    simpa [Stmt.nodes, Stmt.scopeEvents, Stmt.scopeTrees, hes] using hblock
  | .block ⟨pos, stmts⟩ => by
    have hinner := Stmt.unfoldsList stmts
    rw [← Stmt.outerIdents_block pos] at hinner
    rw [Stmt.scopeEvents, Stmt.scopeTrees, ← Stmt.map_event_localsOf]
    exact .block _ hinner
  | .expr e => e.unfolds
  | .break_ _ | .continue_ _ | .empty _ => .nil

theorem Stmt.unfoldsList : ∀ ss : List Stmt, Unfolds (Stmt.nodesList ss)
    ((Stmt.declared ss).map Declaration.ident) (Stmt.scopeEventsList ss) (Stmt.scopeTreesList ss)
  | [] => .nil
  | s :: ss => (s.unfolds.append (Stmt.unfoldsList ss)).mono fun i =>
    Nat.le_of_eq (Stmt.count_declared_cons s ss i)

theorem Declarator.unfolds : ∀ ds : List Declarator, Unfolds (Declarator.nodes ds)
    (ds.flatMap (·.target.idents)) (Declarator.scopeEvents ds) (Declarator.scopeTrees ds)
  | [] => .nil
  | ⟨_, target, none⟩ :: ds => target.unfolds.append (Declarator.unfolds ds)
  | ⟨_, target, some e⟩ :: ds => (target.unfolds.then_ e.unfolds).append (Declarator.unfolds ds)

theorem ForInit.unfolds : ∀ i : ForInit, ∃ es,
    i.scopeEvents = i.locals.map Declaration.event ++ es ∧ Unfolds i.nodes i.idents es i.scopeTrees
  | .absent => ⟨[], rfl, .nil⟩
  | .declare kind ds => by
    refine ⟨Declarator.scopeEvents ds, ?_, Declarator.unfolds ds⟩
    cases kind <;>
      simp [ForInit.scopeEvents, ForInit.locals, Declarator.map_event_declarations,
        DeclKind.bindingKind]
  | .expr e => ⟨e.scopeEvents, rfl, e.unfolds⟩

end

namespace Resolving

theorem tracks_empty (nodes funcs : Nat) :
    Tracks nodes ⟨[], .empty nodes funcs⟩ [] [] [] where
  bindings := rfl
  lists := .nil
  mem_of_find? := by simp
  refs n := by
    simp only [Resolution.reference?, Resolution.empty, Array.getElem?_replicate]
    split <;> rfl
  mem_of_mem := by simp
  size_refs := by simp [Resolution.empty]

end Resolving

theorem SyntaxNode.map_id_idents_sublist (ns : List SyntaxNode) :
    ((ns.filterMap SyntaxNode.ident?).map (·.node.id)).Sublist (ns.map SyntaxNode.id) := by
  induction ns with
  | nil => exact .slnil
  | cons x ns ih =>
    cases hx : x.ident? with
    | none =>
      rw [List.filterMap_cons_none hx]
      exact ih.cons _
    | some i =>
      rw [List.filterMap_cons_some hx, List.map_cons, List.map_cons, SyntaxNode.id_of_ident? hx]
      exact ih.cons_cons _

namespace Program

variable {p : Program}

theorem WellFormed.nodup_ids (hp : p.WellFormed) : (p.nodes.map SyntaxNode.id).Nodup :=
  hp.nodes.nodup_iff.2 List.nodup_range

theorem WellFormed.id_lt (hp : p.WellFormed) {x : SyntaxNode} (hx : x ∈ p.nodes) :
    x.id < p.nodeCount :=
  List.mem_range.1 (hp.nodes.subset (List.mem_map_of_mem hx))

theorem WellFormed.nodup_identifiers (hp : p.WellFormed) :
    (p.identifiers.map (·.node.id)).Nodup :=
  (SyntaxNode.map_id_idents_sublist p.nodes).nodup hp.nodup_ids

theorem unfolds (p : Program) : Unfolds p.nodes [] p.scopeEvents [p.scopeTree] := by
  have hbody : Unfolds p.nodes [] _ _ := .block (Stmt.declared p.body) (Stmt.unfoldsList p.body)
  simpa [Program.scopeEvents, Stmt.map_event_declared, Program.scopeTree] using hbody

theorem WellFormed.covers (hp : p.WellFormed) : Covers p.nodes [] [p.scopeTree] :=
  p.unfolds.covers hp.isInPlace

theorem WellFormed.ident_sites (hp : p.WellFormed) : p.sites.map Site.ident = p.identifiers := by
  have hsites := hp.covers.ident_sites []
  simpa [ScopeTree.sitesList, Program.sites, Program.identifiers] using hsites

theorem WellFormed.nodup_declarations (hp : p.WellFormed) : p.declarations.Nodup := by
  refine List.Nodup.of_map Declaration.ident (List.nodup_iff_count_le_one.2 fun i => ?_)
  have hcount := hp.covers.count_le i
  have hident : p.identifiers.count i ≤ 1 :=
    List.nodup_iff_count_le_one.1 hp.nodup_identifiers.of_map i
  simp only [ScopeTree.declarationsList, List.append_nil, List.count_nil, Nat.zero_add] at hcount
  exact hcount.trans hident

theorem WellFormed.fresh (hp : p.WellFormed) :
    Fresh p.nodeCount p.declarations (p.sites.map Site.finding) := by
  have hids : (p.sites.map Site.finding).map (·.ident.node.id) =
      p.identifiers.map (·.node.id) := by
    rw [← hp.ident_sites, List.map_map, List.map_map]
    rfl
  refine ⟨hp.nodup_declarations, hids ▸ hp.nodup_identifiers, fun f hf => ?_⟩
  have hmem : f.ident.node.id ∈ p.identifiers.map (·.node.id) := hids ▸ List.mem_map_of_mem hf
  have hnode := (SyntaxNode.map_id_idents_sublist p.nodes).subset hmem
  exact List.mem_range.1 (hp.nodes.subset hnode)

/-- All events of the program are accounted for by its scopes. -/
theorem WellFormed.tracks_resolve (hp : p.WellFormed) : ∃ s : Resolving, s.resolution = p.resolve ∧
    s.Tracks p.nodeCount [] p.declarations (p.sites.map Site.finding) := by
  refine ⟨p.scopeEvents.foldl step ⟨[], .empty p.nodeCount p.funcCount⟩, rfl, ?_⟩
  have htracks := p.unfolds.resolves hp.isInPlace
    (tracks_empty p.nodeCount p.funcCount)
    (by simpa [ScopeTree.declarationsList, ScopeTree.sitesList, Program.declarations,
      Program.sites] using hp.fresh)
  simpa [ScopeTree.declarationsList, ScopeTree.sitesList, Program.declarations, Program.sites]
    using htracks

end Program

theorem Finding.find?_eq_some {fs : List Finding} (hids : (fs.map (·.ident.node.id)).Nodup)
    {f : Finding} (hf : f ∈ fs) : fs.find? (·.ident.node.id == f.ident.node.id) = some f := by
  induction fs with
  | nil => cases hf
  | cons g fs ih =>
    obtain ⟨hg, hfs⟩ := List.nodup_cons.1 hids
    rcases List.mem_cons.1 hf with rfl | hf
    · simp
    · have hne : (g.ident.node.id == f.ident.node.id) = false := by
        rw [beq_eq_false_iff_ne]
        intro heq
        exact hg (List.mem_map.2 ⟨f, hf, heq.symm⟩)
      rw [List.find?_cons, hne]
      exact ih hfs hf

theorem Site.declaration?_of_ownDeclaration? {site : Site} {d : Declaration}
    (h : site.ownDeclaration? = some d) : site.declaration? = some d := by
  obtain ⟨i, scopes⟩ := site
  cases scopes with
  | nil => cases h
  | cons declared outer =>
    have hfind : Declaration.find? i.name declared = some d := h
    simp [declaration?, hfind]

/-- The resolution has for an identifier what is found out about it at its site. -/
theorem Program.WellFormed.reference?_eq {p : Program} (hp : p.WellFormed) {site : Site}
    (hsite : site ∈ p.sites) :
    p.resolve.reference? site.id = site.finding.reference? p.declarations := by
  obtain ⟨s, hs, htracks⟩ := hp.tracks_resolve
  have hfind := Finding.find?_eq_some hp.fresh.ids (List.mem_map_of_mem hsite)
  rw [← hs, htracks.refs]
  simp only [Site.finding] at hfind
  simp [Site.id, hfind, Site.finding]

theorem Program.WellFormed.bindingOf?_eq {p : Program} (hp : p.WellFormed) {site : Site}
    (hsite : site ∈ p.sites) :
    p.resolve.bindingOf? site.id = site.declaration?.map p.declarations.idxOf := by
  simp [Resolution.bindingOf?, hp.reference?_eq hsite, Finding.reference?, Site.finding,
    Function.comp_def]

/-- Scopes are lexical. Every identifier stands at one site, and it means the first declaration of
its name in the innermost scope around the site that declares it. -/
theorem Program.resolve_lexical {tokens : List Token} {p : Program}
    (h : Program.ofTokens tokens = .ok p) :
    p.sites.map Site.ident = p.identifiers ∧
    p.declarations.Nodup ∧
    p.resolve.bindings.toList = p.declarations.map Declaration.binding ∧
    ∀ site ∈ p.sites,
      (∀ d, site.declaration? = some d → d ∈ p.declarations) ∧
      p.resolve.bindingOf? site.id = site.declaration?.map p.declarations.idxOf ∧
      (p.resolve.isLocalNonParam site.id = true ↔
        ∃ d, site.ownDeclaration? = some d ∧ d.kind ≠ .param) := by
  have hp := Program.wellFormed_of_ofTokens h
  obtain ⟨s, hs, htracks⟩ := hp.tracks_resolve
  refine ⟨hp.ident_sites, hp.nodup_declarations, hs ▸ htracks.bindings, fun site hsite => ?_⟩
  have hmem : site.finding ∈ p.sites.map Site.finding := List.mem_map_of_mem hsite
  refine ⟨htracks.mem_of_mem _ hmem, hp.bindingOf?_eq hsite, ?_⟩
  rw [Resolution.isLocalNonParam, hp.reference?_eq hsite]
  cases hown : site.ownDeclaration? with
  | none =>
    cases hd : site.declaration? <;> simp [Finding.reference?, Site.finding, hown, hd]
  | some d =>
    simp [Finding.reference?, Site.finding, hown, Site.declaration?_of_ownDeclaration? hown]

/-- The hoisted `var y` is the parameter, and the block has an `x` of its own. -/
theorem Program.resolve_lexical_of_shadowing : ∃ tokens p,
    tokenize "var x; function f(x, y = x) \x7b \x7b let x = y; x; \x7d var y = x; \x7d" =
      .ok tokens ∧
    Program.ofTokens tokens = .ok p ∧
    p.declarations.map (fun d => (d.ident.name, d.kind)) =
      [("x", .var), ("f", .function), ("x", .param), ("y", .param), ("x", .let_)] ∧
    p.resolve.bindings.toList = p.declarations.map Declaration.binding ∧
    ∃ site ∈ p.sites, site.declaration?.map (·.kind) = some .let_ ∧
      p.resolve.bindingOf? site.id = some 4 ∧ p.resolve.isLocalNonParam site.id = true := by
  obtain ⟨p, hp, htest⟩ := Program.exists_of_any
    "var x; function f(x, y = x) \x7b \x7b let x = y; x; \x7d var y = x; \x7d"
    (fun p => p.declarations.map (fun d => (d.ident.name, d.kind)) ==
        [("x", .var), ("f", .function), ("x", .param), ("y", .param), ("x", .let_)] &&
      p.sites.any fun s => s.declaration?.map (·.kind) == some .let_ &&
        s.declaration?.map p.declarations.idxOf == some 4 &&
        s.ownDeclaration?.any (·.kind != .param)) (by decide +kernel)
  obtain ⟨tokens, htokens, hp⟩ := Parse.exists_of_bind_eq_ok hp
  obtain ⟨-, -, hbindings, hsites⟩ := Program.resolve_lexical hp
  simp only [Bool.and_eq_true, beq_iff_eq, List.any_eq_true, Option.any_eq_true, bne_iff_ne]
    at htest
  obtain ⟨hdeclarations, site, hsite, ⟨hkind, hindex⟩, hown⟩ := htest
  obtain ⟨-, hbinding, hlocal⟩ := hsites site hsite
  refine ⟨tokens, p, htokens, hp, hdeclarations, hbindings, site, hsite, hkind,
    hbinding.trans hindex, hlocal.2 hown⟩

end TagCheck
