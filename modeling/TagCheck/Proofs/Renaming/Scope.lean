import TagCheck.Proofs.Renaming.Syntax
import TagCheck.Proofs.Scope.Declared
import TagCheck.Proofs.Scope.Range

/-! New names for the declared names of a program. Every identifier that is resolved takes the new
name, and means under it what it meant under the old one. -/
namespace TagCheck

def isGlobalName (name : String) : Bool :=
  (nativeResult? name).isSome || (Check.globalTag? name).isSome

namespace Program

/-- A name for an identifier that means nothing in the program yet. -/
structure IsFree (p : Program) (name : String) : Prop where
  unused : ∀ i ∈ p.identifiers, i.name ≠ name
  notTag : Tag.ofName? name = none
  notGlobal : isGlobalName name = false
  isName : name.toList.all Text.isIdentPart = true

/-- Each declared name is kept or gets a free one, and no two of them get the same. Type tags are
kept. -/
structure Renames (p : Program) (ρ : String → String) : Prop where
  injective : ∀ x ∈ p.declaredNames, ∀ y ∈ p.declaredNames, ρ x = ρ y → x = y
  tag : ∀ x ∈ p.declaredNames, (Tag.ofName? x).isSome = true → ρ x = x
  free : ∀ x ∈ p.declaredNames, ρ x = x ∨ p.IsFree (ρ x)

instance (p : Program) (name : String) : Decidable (p.IsFree name) :=
  decidable_of_iff ((∀ i ∈ p.identifiers, i.name ≠ name) ∧ Tag.ofName? name = none ∧
      isGlobalName name = false ∧ name.toList.all Text.isIdentPart = true)
    ⟨fun h => ⟨h.1, h.2.1, h.2.2.1, h.2.2.2⟩, fun h => ⟨h.unused, h.notTag, h.notGlobal, h.isName⟩⟩

instance (p : Program) (ρ : String → String) : Decidable (p.Renames ρ) :=
  decidable_of_iff ((∀ x ∈ p.declaredNames, ∀ y ∈ p.declaredNames, ρ x = ρ y → x = y) ∧
      (∀ x ∈ p.declaredNames, (Tag.ofName? x).isSome = true → ρ x = x) ∧
      ∀ x ∈ p.declaredNames, ρ x = x ∨ p.IsFree (ρ x))
    ⟨fun h => ⟨h.1, h.2.1, h.2.2⟩, fun h => ⟨h.injective, h.tag, h.free⟩⟩

def newIdent (p : Program) (ρ : String → String) (i : Ident) : Ident :=
  if (p.resolve.bindingOf? i.node.id).isSome then { i with name := ρ i.name } else i

def renamed (p : Program) (ρ : String → String) : Program := p.rename (p.newIdent ρ)

theorem node_newIdent (p : Program) (ρ : String → String) (i : Ident) :
    (p.newIdent ρ i).node = i.node := by
  unfold newIdent
  split <;> rfl

theorem newIdent_of_isSome {p : Program} {i : Ident} (ρ : String → String)
    (h : (p.resolve.bindingOf? i.node.id).isSome = true) :
    p.newIdent ρ i = { i with name := ρ i.name } := if_pos h

theorem newIdent_of_not_isSome {p : Program} {i : Ident} (ρ : String → String)
    (h : ¬ (p.resolve.bindingOf? i.node.id).isSome = true) : p.newIdent ρ i = i := if_neg h

end Program

def Binding.rename (ρ : String → String) (b : Binding) : Binding := { b with name := ρ b.name }

def Resolution.rename (ρ : String → String) (f : Ident → Ident) (r : Resolution) : Resolution where
  bindings := r.bindings.map (Binding.rename ρ)
  refs := r.refs
  functions := r.functions.map (Option.map (Func.rename f))

namespace Resolving

def rename (ρ : String → String) (f : Ident → Ident) (s : Resolving) : Resolving :=
  ⟨s.scopes.map (List.map (Prod.map ρ id)), s.resolution.rename ρ f⟩

def NamesIn (names : List String) (scopes : List Scope) : Prop :=
  ∀ scope ∈ scopes, ∀ x ∈ scope, x.1 ∈ names

variable {names : List String} {ρ : String → String} {f : Ident → Ident} {s : Resolving}

theorem lookup_map (hρ : ∀ x ∈ names, ∀ y ∈ names, ρ x = ρ y → x = y) {name : String}
    (hname : name ∈ names) {scope : Scope} (h : ∀ x ∈ scope, x.1 ∈ names) :
    (scope.map (Prod.map ρ id)).lookup (ρ name) = scope.lookup name := by
  induction scope with
  | nil => rfl
  | cons x scope ih =>
    obtain ⟨old, b⟩ := x
    obtain ⟨hx, hscope⟩ := List.forall_mem_cons.1 h
    have hbeq : (ρ name == ρ old) = (name == old) := by
      rw [Bool.eq_iff_iff, beq_iff_eq, beq_iff_eq]
      exact ⟨hρ name hname old hx, congrArg ρ⟩
    simp only [List.map_cons, Prod.map_apply, List.lookup_cons, hbeq, ih hscope, id]

theorem lookup?_map (hρ : ∀ x ∈ names, ∀ y ∈ names, ρ x = ρ y → x = y) {name : String}
    (hname : name ∈ names) {scopes : List Scope} (h : NamesIn names scopes) :
    lookup? (ρ name) (scopes.map (List.map (Prod.map ρ id))) = lookup? name scopes := by
  induction scopes with
  | nil => rfl
  | cons scope outer ih =>
    obtain ⟨hscope, houter⟩ := List.forall_mem_cons.1 h
    simp only [List.map_cons, lookup?, lookup_map hρ hname hscope, ih houter]

theorem lookup_eq_none {name : String} {scope : Scope} (h : ∀ x ∈ scope, x.1 ≠ name) :
    scope.lookup name = none := by
  rw [List.lookup_eq_none_iff]
  exact fun x hx => by simpa using (h x hx).symm

/-- A name that is the new name of no declared one is not found. -/
theorem lookup?_map_eq_none {name : String} {scopes : List Scope}
    (h : ∀ scope ∈ scopes, ∀ x ∈ scope, ρ x.1 ≠ name) :
    lookup? name (scopes.map (List.map (Prod.map ρ id))) = none := by
  induction scopes with
  | nil => rfl
  | cons scope outer ih =>
    obtain ⟨hscope, houter⟩ := List.forall_mem_cons.1 h
    have hnone : (scope.map (Prod.map ρ id)).lookup name = none :=
      lookup_eq_none (List.forall_mem_map.2 hscope)
    simp only [List.map_cons, lookup?, hnone, ih houter]
    rfl

theorem exists_of_lookup? {name : String} {scopes : List Scope}
    (h : ∃ scope ∈ scopes, ∃ x ∈ scope, x.1 = name) : (lookup? name scopes).isSome = true := by
  induction scopes with
  | nil => simp at h
  | cons scope outer ih =>
    cases hlookup : scope.lookup name with
    | some b => simp [lookup?, hlookup]
    | none =>
      have hnot := List.lookup_eq_none_iff.1 hlookup
      obtain ⟨scope', hscope', x, hx, hname⟩ := h
      rcases List.mem_cons.1 hscope' with rfl | hscope'
      · exact absurd (hnot x hx) (by simp [hname])
      · simpa [lookup?, hlookup] using ih ⟨scope', hscope', x, hx, hname⟩

theorem NamesIn.step {e : ScopeEvent} (h : NamesIn names s.scopes)
    (he : ∀ i kind, e = .declare i kind → i.name ∈ names) : NamesIn names (s.step e).scopes := by
  cases e with
  | enter => exact List.forall_mem_cons.2 ⟨by simp, h⟩
  | leave => exact fun scope hscope => h scope (List.mem_of_mem_tail hscope)
  | declare i kind =>
    simp only [Resolving.step, declare]
    split
    · exact h
    · rename_i scope outer hs
      split
      · exact h
      · obtain ⟨hscope, houter⟩ := List.forall_mem_cons.1 (hs ▸ h)
        exact List.forall_mem_cons.2
          ⟨List.forall_mem_cons.2 ⟨he i kind rfl, hscope⟩, houter⟩
  | refer i =>
    simp only [Resolving.step, refer]
    split <;> exact h
  | function g => exact h

/-- What is resolved stays so. -/
theorem isSome_bindingOf?_step {n : NodeId} (e : ScopeEvent)
    (h : (s.resolution.bindingOf? n).isSome = true) :
    ((s.step e).resolution.bindingOf? n).isSome = true := by
  cases e with
  | declare i kind =>
    simp only [step, declare]
    split
    · exact h
    · split <;> exact h
  | refer i =>
    simp only [step, refer]
    split
    · exact h
    · have hn : n < s.resolution.refs.size := by
        obtain ⟨b, hb⟩ := Option.isSome_iff_exists.1 h
        exact Resolution.lt_of_bindingOf? hb
      by_cases hi : i.node.id = n
      · simp [Resolution.bindingOf?, Resolution.reference?, hi, hn]
      · simpa [Resolution.bindingOf?, Resolution.reference?, Array.getElem?_setIfInBounds, hi]
          using h
  | _ => exact h

theorem isSome_bindingOf?_foldl {n : NodeId} (es : List ScopeEvent)
    (h : (s.resolution.bindingOf? n).isSome = true) :
    ((es.foldl step s).resolution.bindingOf? n).isSome = true := by
  induction es generalizing s with
  | nil => exact h
  | cons e es ih => exact ih (isSome_bindingOf?_step e h)

theorem isSome_bindingOf?_refer {i : Ident} (h : (lookup? i.name s.scopes).isSome = true)
    (hi : i.node.id < s.resolution.refs.size) :
    ((s.step (.refer i)).resolution.bindingOf? i.node.id).isSome = true := by
  obtain ⟨b, hb⟩ := Option.isSome_iff_exists.1 h
  simp [step, refer, hb, Resolution.bindingOf?, Resolution.reference?, hi]

theorem isParam_rename (r : Resolution) (b : BindingId) :
    (r.rename ρ f).isParam b = r.isParam b := by
  cases hb : r.bindings[b]? <;> simp [Resolution.isParam, Resolution.rename, Binding.rename, hb]

theorem declare_rename (hf : ∀ i, (f i).node = i.node)
    (hρ : ∀ x ∈ names, ∀ y ∈ names, ρ x = ρ y → x = y) (hs : NamesIn names s.scopes) {i : Ident}
    (hi : (f i).name = ρ i.name) (hname : i.name ∈ names) (kind : BindingKind) :
    (s.rename ρ f).declare (f i) kind = (s.declare i kind).rename ρ f := by
  obtain ⟨scopes, r⟩ := s
  cases scopes with
  | nil => rfl
  | cons scope outer =>
    have hlookup := lookup_map hρ hname (List.forall_mem_cons.1 hs).1
    cases hfound : scope.lookup i.name with
    | some b => simp [declare, rename, hi, hlookup, hfound]
    | none =>
      simp [declare, rename, hi, hlookup, hfound, hf, Resolution.rename, Binding.rename]

/-- An identifier whose name is declared finds under the new name what it found under the old. -/
theorem refer_rename (hf : ∀ i, (f i).node = i.node)
    (hρ : ∀ x ∈ names, ∀ y ∈ names, ρ x = ρ y → x = y) (hs : NamesIn names s.scopes) {i : Ident}
    (hi : (f i).name = ρ i.name) (hname : i.name ∈ names) :
    (s.rename ρ f).refer (f i) = (s.refer i).rename ρ f := by
  have hlookup : lookup? (ρ i.name) (s.rename ρ f).scopes = lookup? i.name s.scopes :=
    lookup?_map hρ hname hs
  have hhead : ((s.rename ρ f).scopes.head?.bind (·.lookup (ρ i.name))) =
      s.scopes.head?.bind (·.lookup i.name) := by
    obtain ⟨scopes, r⟩ := s
    cases scopes with
    | nil => rfl
    | cons scope outer => exact lookup_map hρ hname (List.forall_mem_cons.1 hs).1
  have hparam (b : BindingId) : (s.rename ρ f).resolution.isParam b = s.resolution.isParam b :=
    isParam_rename s.resolution b
  unfold refer
  rw [hi, hlookup]
  cases hfound : lookup? i.name s.scopes with
  | none => rfl
  | some b =>
    simp only [hhead, hparam, hf]
    rfl

/-- An identifier that is left as it is finds nothing, as before. -/
theorem refer_rename_of_free {i : Ident} (hi : f i = i) (hnone : lookup? i.name s.scopes = none)
    (hs : NamesIn names s.scopes) (hfree : ∀ x ∈ names, ρ x = i.name → x = i.name) :
    (s.rename ρ f).refer (f i) = (s.refer i).rename ρ f := by
  have hnew : lookup? i.name (s.rename ρ f).scopes = none := by
    refine lookup?_map_eq_none fun scope hscope x hx heq => ?_
    have hold := exists_of_lookup? ⟨scope, hscope, x, hx, hfree x.1 (hs scope hscope x hx) heq⟩
    simp [hnone] at hold
  simp [refer, hi, hnew, hnone]

/-- What the identifiers of an event have to be, for a resolution in which the nodes of `resolved`
are resolved in the end. -/
structure Fits (names : List String) (ρ : String → String) (f : Ident → Ident)
    (resolved : NodeId → Prop) (e : ScopeEvent) : Prop where
  declare (i : Ident) (kind : BindingKind) : e = .declare i kind →
    (f i).name = ρ i.name ∧ i.name ∈ names
  refer (i : Ident) : e = .refer i → resolved i.node.id → (f i).name = ρ i.name ∧ i.name ∈ names
  free (i : Ident) : e = .refer i → ¬ resolved i.node.id →
    f i = i ∧ ∀ x ∈ names, ρ x = i.name → x = i.name

theorem step_rename (hf : ∀ i, (f i).node = i.node)
    (hρ : ∀ x ∈ names, ∀ y ∈ names, ρ x = ρ y → x = y) (hs : NamesIn names s.scopes)
    {resolved : NodeId → Prop} {e : ScopeEvent} (he : Fits names ρ f resolved e)
    (hend : ∀ i, e = .refer i → (lookup? i.name s.scopes).isSome = true → resolved i.node.id) :
    (s.rename ρ f).step (e.rename f) = (s.step e).rename ρ f := by
  cases e with
  | enter => rfl
  | leave => simp [step, rename, ScopeEvent.rename]
  | declare i kind =>
    obtain ⟨hi, hname⟩ := he.declare i kind rfl
    exact declare_rename hf hρ hs hi hname kind
  | refer i =>
    by_cases hresolved : resolved i.node.id
    · obtain ⟨hi, hname⟩ := he.refer i rfl hresolved
      exact refer_rename hf hρ hs hi hname
    · obtain ⟨hi, hfree⟩ := he.free i rfl hresolved
      have hnone : lookup? i.name s.scopes = none := by
        cases hfound : lookup? i.name s.scopes with
        | none => rfl
        | some b => exact absurd (hend i rfl (by rw [hfound]; rfl)) hresolved
      exact refer_rename_of_free hi hnone hs hfree
  | function g =>
    obtain ⟨node, func, form, name, params, body⟩ := g
    simp [step, rename, ScopeEvent.rename, Resolution.rename, Func.rename]

theorem foldl_rename (hf : ∀ i, (f i).node = i.node)
    (hρ : ∀ x ∈ names, ∀ y ∈ names, ρ x = ρ y → x = y) {nodes : Nat} {es : List ScopeEvent}
    (hs : NamesIn names s.scopes) (hrange : s.InRange nodes)
    (hes : ∀ e ∈ es, Fits names ρ f (fun n =>
      ((es.foldl step s).resolution.bindingOf? n).isSome = true) e)
    (hlt : ∀ i, .refer i ∈ es → i.node.id < nodes) :
    (es.map (ScopeEvent.rename f)).foldl step (s.rename ρ f) = (es.foldl step s).rename ρ f := by
  induction es generalizing s with
  | nil => rfl
  | cons e es ih =>
    obtain ⟨he, hes⟩ := List.forall_mem_cons.1 hes
    have hstep : (s.rename ρ f).step (e.rename f) = (s.step e).rename ρ f := by
      refine step_rename hf hρ hs he fun i hi hfound => isSome_bindingOf?_foldl es ?_
      subst hi
      refine isSome_bindingOf?_refer hfound ?_
      rw [hrange.size_refs]
      exact hlt i (List.mem_cons_self ..)
    rw [List.map_cons, List.foldl_cons, List.foldl_cons, hstep]
    exact ih (hs.step fun i kind h => (he.declare i kind h).2) (hrange.step e) hes
      fun i hi => hlt i (List.mem_cons_of_mem e hi)

end Resolving

namespace Program

variable {p : Program} {ρ : String → String}

theorem WellFormed.fits (hp : p.WellFormed) (hρ : p.Renames ρ) {e : ScopeEvent}
    (he : e ∈ p.scopeEvents) : Resolving.Fits p.declaredNames ρ (p.newIdent ρ)
      (fun n => (p.resolve.bindingOf? n).isSome = true) e where
  declare i kind h := by
    subst h
    have hsome := hp.isSome_bindingOf?_of_declare he
    rw [newIdent_of_isSome ρ hsome]
    exact ⟨rfl, hp.mem_declaredNames (hp.mem_identifiers_of_declare he) hsome⟩
  refer i h hsome := by
    subst h
    rw [newIdent_of_isSome ρ hsome]
    exact ⟨rfl, hp.mem_declaredNames (hp.mem_identifiers_of_refer he) hsome⟩
  free i h hnone := by
    subst h
    refine ⟨newIdent_of_not_isSome ρ hnone, fun x hx heq => ?_⟩
    rcases hρ.free x hx with hkept | hfree
    · exact hkept.symm.trans heq
    · exact absurd heq.symm (hfree.unused i (hp.mem_identifiers_of_refer he))

/-- The new names are resolved as the old ones were. -/
theorem WellFormed.resolve_renamed (hp : p.WellFormed) (hρ : p.Renames ρ) :
    (p.renamed ρ).resolve = p.resolve.rename ρ (p.newIdent ρ) := by
  have hlt : ∀ i, .refer i ∈ p.scopeEvents → i.node.id < p.nodeCount := by
    intro i hi
    obtain ⟨x, hx, hident⟩ := List.mem_filterMap.1 (hp.mem_identifiers_of_refer hi)
    exact SyntaxNode.id_of_ident? hident ▸ hp.id_lt hx
  have hfits : ∀ e ∈ p.scopeEvents, Resolving.Fits p.declaredNames ρ (p.newIdent ρ)
      (fun n => (p.resolve.bindingOf? n).isSome = true) e := fun e he => hp.fits hρ he
  have hfold := Resolving.foldl_rename (p.node_newIdent ρ) hρ.injective
    (by simp [Resolving.NamesIn]) (Resolving.inRange_empty p.nodeCount p.funcCount) hfits hlt
  have hempty : (⟨[], .empty p.nodeCount p.funcCount⟩ : Resolving).rename ρ (p.newIdent ρ) =
      ⟨[], .empty p.nodeCount p.funcCount⟩ := by
    simp [Resolving.rename, Resolution.rename, Resolution.empty]
  rw [hempty] at hfold
  simp only [Program.resolve, renamed, scopeEvents_rename]
  exact congrArg Resolving.resolution hfold

end Program
end TagCheck
