import TagCheck.Proofs.Program.Parts
import TagCheck.Proofs.Scope.Declared

/-! Declarations and their bindings. Names are declared on two ways: `var` is hoisted out of all
statements of a function, and blocks declare what is declared directly in them. -/
namespace TagCheck

/-- What happens to scopes in a part, and what is hoisted out of it. -/
def Part.events : Part → List ScopeEvent
  | stmt s => s.hoisted ++ s.scopeEvents
  | expr e => e.scopeEvents
  | pattern p => p.scopeEvents
  | spread _ argument => argument.scopeEvents

theorem Expr.scopeEventsList_eq (es : List Expr) :
    Expr.scopeEventsList es = (es.map Part.expr).flatMap Part.events := by
  induction es with
  | nil => rfl
  | cons e es ih => simp [Expr.scopeEventsList, Part.events, ih]

theorem Expr.scopeEventsOption_eq (e? : Option Expr) :
    Expr.scopeEventsOption e? = (e?.toList.map Part.expr).flatMap Part.events := by
  cases e? <;> simp [Expr.scopeEventsOption, Part.events]

theorem Key.scopeEvents_eq (k : Key) :
    k.scopeEvents = (k.exprs.map Part.expr).flatMap Part.events := by
  cases k <;> simp [Key.scopeEvents, Key.exprs, Part.events]

theorem Element.scopeEvents_eq (es : List Element) : Element.scopeEvents es =
    (es.filterMap Element.part?).flatMap Part.events := by
  induction es with
  | nil => rfl
  | cons e es ih =>
    cases e <;> simp [Element.scopeEvents, Element.part?, Part.events, ih, List.filterMap_cons]

theorem Pattern.scopeEventsElements_eq (ps : List (Option Pattern)) :
    Pattern.scopeEventsElements ps =
      (ps.flatMap fun o => o.toList.map Part.pattern).flatMap Part.events := by
  induction ps with
  | nil => rfl
  | cons o ps ih => cases o <;> simp [Pattern.scopeEventsElements, Part.events, ih]

theorem Pattern.scopeEventsList_eq (ps : List Pattern) :
    Pattern.scopeEventsList ps = (ps.map Part.pattern).flatMap Part.events := by
  induction ps with
  | nil => rfl
  | cons p ps ih => simp [Pattern.scopeEventsList, Part.events, ih]

theorem PatternProp.scopeEvents_eq (ps : List PatternProp) : PatternProp.scopeEvents ps =
    (ps.map fun q => Part.pattern q.pattern).flatMap Part.events := by
  induction ps with
  | nil => rfl
  | cons p ps ih =>
    cases p <;> simp [PatternProp.scopeEvents, PatternProp.pattern, Part.events, ih]

theorem Declarator.scopeEvents_eq (ds : List Declarator) :
    Declarator.scopeEvents ds = (ds.flatMap Declarator.parts).flatMap Part.events := by
  induction ds with
  | nil => rfl
  | cons d ds ih =>
    obtain ⟨pos, target, init⟩ := d
    cases init <;> simp [Declarator.scopeEvents, Declarator.parts, Part.events, ih]

theorem ForInit.events_subset (init : ForInit) :
    init.parts.flatMap Part.events ⊆ init.scopeEvents := by
  cases init with
  | absent => exact List.nil_subset _
  | declare kind ds =>
    cases kind <;> simp [ForInit.scopeEvents, ForInit.parts, Declarator.scopeEvents_eq]
  | expr e => simp [ForInit.scopeEvents, ForInit.parts, Part.events]

/-- What is hoisted out of statements that follow each other and what happens in them is all that
happens in them one by one. -/
theorem Stmt.events_subset (ss : List Stmt) : (ss.map Part.stmt).flatMap Part.events ⊆
    Stmt.hoistedList ss ++ Stmt.scopeEventsList ss := by
  induction ss with
  | nil => exact List.nil_subset _
  | cons s ss ih =>
    intro ev hev
    simp only [List.map_cons, List.flatMap_cons, Part.events, List.mem_append] at hev
    simp only [Stmt.hoistedList, Stmt.scopeEventsList, List.mem_append]
    rcases hev with (h | h) | h
    · exact .inl (.inl h)
    · exact .inr (.inl h)
    · exact (List.mem_append.1 (ih h)).imp .inr .inr

theorem Body.events_subset (b : Body) : b.parts.flatMap Part.events ⊆ b.scopeEvents := by
  cases b with
  | block b =>
    obtain ⟨pos, ss⟩ := b
    intro ev hev
    have := List.mem_append.1 (Stmt.events_subset ss hev)
    simp only [Body.scopeEvents, List.mem_append]
    tauto
  | expr e => simp [Body.scopeEvents, Body.parts, Part.events]

theorem Func.events_subset (f : Func) : f.parts.flatMap Part.events ⊆ f.scopeEvents := by
  obtain ⟨node, func, form, name, params, body⟩ := f
  intro ev hev
  simp only [Func.parts, List.flatMap_append, ← Pattern.scopeEventsList_eq,
    List.mem_append] at hev
  have := fun h => Body.events_subset body (a := ev) h
  simp only [Func.scopeEvents, List.mem_append]
  tauto

theorem Property.scopeEvents_eq (props : List Property) :
    Property.scopeEvents props = props.flatMap fun q => Property.scopeEvents [q] := by
  induction props with
  | nil => rfl
  | cons q props ih =>
    rw [List.flatMap_cons, ← ih]
    cases q <;> simp [Property.scopeEvents]

theorem Property.events_subset (props : List Property) :
    (props.flatMap Property.parts).flatMap Part.events ⊆ Property.scopeEvents props := by
  have hone (q : Property) : q.parts.flatMap Part.events ⊆ Property.scopeEvents [q] := by
    cases q with
    | keyValue k v shorthand =>
      simp [Property.parts, Property.scopeEvents, Key.scopeEvents_eq, Part.events]
    | method k f =>
      simpa [Property.parts, Property.scopeEvents, Key.scopeEvents_eq] using
        List.subset_append_of_subset_right _ f.events_subset
    | spread n argument => simp [Property.parts, Property.scopeEvents, Part.events]
  rw [List.flatMap_assoc, Property.scopeEvents_eq]
  intro ev hev
  obtain ⟨q, hq, hev⟩ := List.mem_flatMap.1 hev
  exact List.mem_flatMap.2 ⟨q, hq, hone q hev⟩

theorem Property.method_subset {props : List Property} {k : Key} {f : Func}
    (h : .method k f ∈ props) : f.scopeEvents ⊆ Property.scopeEvents props := by
  intro ev hev
  rw [Property.scopeEvents_eq]
  refine List.mem_flatMap.2 ⟨_, h, ?_⟩
  simp [Property.scopeEvents, hev]

theorem Expr.events_subset (e : Expr) :
    (Part.expr e).children.flatMap Part.events ⊆ e.scopeEvents := by
  cases e with
  | object n props => exact Property.events_subset props
  | function f => exact f.events_subset
  | template n quasi =>
    obtain ⟨pos, chunks, parts⟩ := quasi
    simp [Part.children, Part.stem?, Part.branches, Expr.stem?, Expr.branches, Expr.scopeEvents,
      Expr.scopeEventsList_eq]
  | tagged n tag quasi =>
    obtain ⟨pos, chunks, parts⟩ := quasi
    simp [Part.children, Part.stem?, Part.branches, Expr.stem?, Expr.branches, Expr.scopeEvents,
      Expr.scopeEventsList_eq, Part.events]
  | _ =>
    simp [Part.children, Part.stem?, Part.branches, Expr.stem?, Expr.branches, Expr.scopeEvents,
      Expr.scopeEventsList_eq, Element.scopeEvents_eq, Key.scopeEvents_eq, Part.events]

theorem Pattern.events_subset (p : Pattern) :
    (Part.pattern p).children.flatMap Part.events ⊆ p.scopeEvents := by
  cases p <;> simp [Part.children, Part.stem?, Part.branches, Pattern.branches,
    Pattern.scopeEvents, Pattern.scopeEventsElements_eq, PatternProp.scopeEvents_eq, Part.events]

theorem Stmt.hoisted_subset_for (pos : Position) (init : ForInit) (t u : Option Expr) (b : Stmt) :
    b.hoisted ⊆ (Stmt.for_ pos init t u b).hoisted := by
  cases init with
  | absent => exact List.Subset.refl _
  | declare kind ds => cases kind <;> simp [Stmt.hoisted]
  | expr e => exact List.Subset.refl _

theorem Stmt.branches_events_subset (s : Stmt) :
    (Part.stmt s).children.flatMap Part.events ⊆ (Part.stmt s).events := by
  rw [Part.children, Part.stem?, Option.toList_none, List.nil_append]
  cases s with
  | declare n kind ds =>
    rw [Part.branches, Stmt.branches, ← Declarator.scopeEvents_eq]
    exact List.subset_append_right _ _
  | function f => 
    obtain ⟨node, func, form, name, params, body⟩ := f
    exact List.subset_append_of_subset_right _
      (List.subset_append_of_subset_right _ (Func.events_subset _))
  | return_ n e =>
    cases e <;> simp [Part.branches, Stmt.branches, Part.events, Stmt.scopeEvents]
  | if_ pos t c a =>
    intro ev hev
    cases a <;> simp_all [Part.branches, Stmt.branches, Part.events, Stmt.scopeEvents,
      Stmt.hoisted] <;> tauto
  | while_ pos t b =>
    simp [Part.branches, Stmt.branches, Part.events, Stmt.scopeEvents, Stmt.hoisted]
  | doWhile pos b t =>
    simp [Part.branches, Stmt.branches, Part.events, Stmt.scopeEvents, Stmt.hoisted]
  | for_ pos init t u b =>
    intro ev hev
    have hinit := fun h => ForInit.events_subset init (a := ev) h
    have hbody := fun h => Stmt.hoisted_subset_for pos init t u b (a := ev) h
    simp only [Part.branches, Stmt.branches, List.map_append, List.flatMap_append,
      ← Expr.scopeEventsOption_eq, List.flatMap_cons, List.flatMap_nil, List.append_nil,
      Part.events, List.mem_append] at hev
    simp only [Part.events, Stmt.scopeEvents, List.mem_append]
    tauto
  | block b =>
    obtain ⟨pos, ss⟩ := b
    intro ev hev
    have := List.mem_append.1 (Stmt.events_subset ss hev)
    simp only [Part.events, Stmt.hoisted, Stmt.scopeEvents, List.mem_append]
    tauto
  | expr e => simp [Part.branches, Stmt.branches, Part.events, Stmt.scopeEvents]
  | break_ pos => exact List.nil_subset _
  | continue_ pos => exact List.nil_subset _
  | empty pos => exact List.nil_subset _

/-- What happens in a part happens in what it stands in. -/
theorem Part.events_subset_of_mem {x y : Part} (h : y ∈ x.children) : y.events ⊆ x.events := by
  have hall : x.children.flatMap Part.events ⊆ x.events := by
    cases x with
    | stmt s => exact s.branches_events_subset
    | expr e => exact e.events_subset
    | pattern p => exact p.events_subset
    | spread n argument => simp [Part.children, Part.stem?, Part.branches, Part.events]
  exact fun ev hev => hall (List.mem_flatMap.2 ⟨y, h, hev⟩)

theorem Program.HasPart.events_subset {p : Program} {x : Part} (h : p.HasPart x) :
    x.events ⊆ p.scopeEvents := by
  induction h with
  | @body s hs =>
    intro ev hev
    have := List.mem_append.1 (Stmt.events_subset p.body
      (List.mem_flatMap.2 ⟨.stmt s, List.mem_map_of_mem hs, hev⟩))
    simp only [Program.scopeEvents, List.mem_append]
    tauto
  | child _ hy ih => exact List.Subset.trans (Part.events_subset_of_mem hy) ih

/-! What a block declares. -/

namespace Stmt

/-- The statements that stand in another one as its body, where braces may be missing. -/
def bodies : Stmt → List Stmt
  | .if_ _ _ c a => c :: a.toList
  | .while_ _ _ b | .doWhile _ b _ | .for_ _ _ _ _ b => [b]
  | .declare .. | .function _ | .return_ .. | .block _ | .expr _ => []
  | .break_ _ | .continue_ _ | .empty _ => []

theorem lexical_subset_lexicalList {s : Stmt} {ss : List Stmt} (h : s ∈ ss) :
    s.lexical ⊆ Stmt.lexicalList ss :=
  fun _ hev => List.mem_flatMap.2 ⟨s, h, hev⟩

end Stmt

theorem Element.part?_ne_stmt (e : Element) (s : Stmt) : e.part? ≠ some (.stmt s) := by
  cases e <;> simp [Element.part?]

theorem Body.lexical_subset {b : Body} {s : Stmt} (h : .stmt s ∈ b.parts) :
    s.lexical ⊆ b.scopeEvents := by
  cases b with
  | block b =>
    obtain ⟨pos, ss⟩ := b
    have hs : s ∈ ss := by simpa [Body.parts] using h
    rw [Body.scopeEvents]
    exact List.subset_append_of_subset_left _
      (List.subset_append_of_subset_right _ (Stmt.lexical_subset_lexicalList hs))
  | expr e => simp [Body.parts] at h

theorem Func.lexical_subset {f : Func} {s : Stmt} (h : .stmt s ∈ f.parts) :
    s.lexical ⊆ f.scopeEvents := by
  obtain ⟨node, func, form, name, params, body⟩ := f
  have hs : .stmt s ∈ body.parts := by simpa [Func.parts] using h
  intro ev hev
  have := Body.lexical_subset hs hev
  simp only [Func.scopeEvents, List.mem_append]
  tauto

/-- What a statement declares in its block is declared there, unless the statement is the body of
another one. -/
theorem Part.lexical_subset {x : Part} {s : Stmt} (h : .stmt s ∈ x.children) :
    (∃ t, x = .stmt t ∧ s ∈ t.bodies) ∨ s.lexical ⊆ x.events := by
  cases x with
  | pattern p =>
    cases p <;> simp [Part.children, Part.stem?, Part.branches, Pattern.branches] at h
  | spread n argument => simp [Part.children, Part.stem?, Part.branches] at h
  | expr e =>
    right
    cases e with
    | function f => exact Func.lexical_subset h
    | object n props =>
      obtain ⟨q, hq, hs⟩ := List.mem_flatMap.1 h
      cases q with
      | method k f =>
        have hf : .stmt s ∈ f.parts := by simpa [Property.parts] using hs
        exact List.Subset.trans (Func.lexical_subset hf) (Property.method_subset hq)
      | keyValue k v shorthand => simp [Property.parts] at hs
      | spread n argument => simp [Property.parts] at hs
    | _ =>
      simp [Part.children, Part.stem?, Part.branches, Expr.stem?, Expr.branches,
        Element.part?_ne_stmt] at h
  | stmt t =>
    rw [Part.children, Part.stem?, Option.toList_none, List.nil_append] at h
    cases t with
    | function f =>
      obtain ⟨node, func, form, name, params, body⟩ := f
      exact .inr (List.subset_append_of_subset_right _
        (List.subset_append_of_subset_right _ (Func.lexical_subset h)))
    | block b =>
      obtain ⟨pos, ss⟩ := b
      right
      have hs : s ∈ ss := by simpa [Part.branches, Stmt.branches] using h
      intro ev hev
      have := Stmt.lexical_subset_lexicalList hs hev
      simp only [Part.events, Stmt.scopeEvents, List.mem_append]
      tauto
    | for_ pos init t u b =>
      have hinit : .stmt s ∉ init.parts := by
        cases init <;> simp [ForInit.parts, Declarator.parts]
      left
      simpa [Part.branches, Stmt.branches, Stmt.bodies, hinit] using h
    | _ => simp_all [Part.branches, Stmt.branches, Stmt.bodies, Declarator.parts]

theorem Declarator.mem_declares {i : Ident} {kind : BindingKind} {ds : List Declarator}
    {d : Declarator} (hd : d ∈ ds) (hi : i ∈ d.target.idents) :
    .declare i kind ∈ Declarator.declares kind ds :=
  List.mem_flatMap.2 ⟨d, hd, List.mem_map_of_mem hi⟩

namespace Program

inductive HasFunc (p : Program) (f : Func) : Prop where
  | declaration : p.HasPart (.stmt (.function f)) → p.HasFunc f
  | expression : p.HasPart (.expr (.function f)) → p.HasFunc f
  | method {n : Node} {props : List Property} {k : Key} :
      p.HasPart (.expr (.object n props)) → .method k f ∈ props → p.HasFunc f

inductive Declaring (p : Program) (i : Ident) : Prop where
  | declarator {pos : Position} {kind : DeclKind} {ds : List Declarator} {d : Declarator} :
      p.HasPart (.stmt (.declare pos kind ds)) → d ∈ ds → i ∈ d.target.idents → p.Declaring i
  | loopHead {pos : Position} {kind : DeclKind} {ds : List Declarator} {d : Declarator}
      {test update : Option Expr} {body : Stmt} :
      p.HasPart (.stmt (.for_ pos (.declare kind ds) test update body)) → d ∈ ds →
        i ∈ d.target.idents → p.Declaring i
  | param {f : Func} {q : Pattern} : p.HasFunc f → q ∈ f.params → i ∈ q.idents → p.Declaring i
  | declarationName {f : Func} :
      p.HasPart (.stmt (.function f)) → f.name = some i → p.Declaring i
  | ownName {f : Func} : p.HasPart (.expr (.function f)) → f.form = .expression →
      f.name = some i → p.Declaring i

/-- Whether an identifier is declared for the block of a statement that stands in no block, but is
the body of a condition or loop. -/
def DeclaresUnbraced (p : Program) (i : Ident) : Prop :=
  ∃ s body kind, p.HasPart (.stmt s) ∧ body ∈ s.bodies ∧ .declare i kind ∈ body.lexical

variable {p : Program} {f : Func} {i : Ident}

theorem HasFunc.scopeEvents_subset (h : p.HasFunc f) : f.scopeEvents ⊆ p.scopeEvents := by
  cases h with
  | declaration h =>
    obtain ⟨node, func, form, name, params, body⟩ := f
    exact List.Subset.trans (List.subset_append_of_subset_right _ (List.subset_append_right _ _))
      h.events_subset
  | expression h => exact h.events_subset
  | method h hf => exact List.Subset.trans (Property.method_subset hf) h.events_subset

theorem HasPart.lexical_subset {s : Stmt} (h : p.HasPart (.stmt s)) :
    s.lexical ⊆ p.scopeEvents ∨ ∃ t, p.HasPart (.stmt t) ∧ s ∈ t.bodies := by
  cases h with
  | body hs =>
    refine .inl fun ev hev => ?_
    have := Stmt.lexical_subset_lexicalList hs hev
    simp only [Program.scopeEvents, List.mem_append]
    tauto
  | child hx hs =>
    rcases Part.lexical_subset hs with ⟨t, rfl, hbody⟩ | h
    · exact .inr ⟨t, hx, hbody⟩
    · exact .inl (List.Subset.trans h hx.events_subset)

theorem HasPart.declare_mem {s : Stmt} {kind : BindingKind} (h : p.HasPart (.stmt s))
    (hi : .declare i kind ∈ s.lexical) (hbraced : ¬ p.DeclaresUnbraced i) :
    .declare i kind ∈ p.scopeEvents := by
  rcases h.lexical_subset with h | ⟨t, ht, hs⟩
  · exact h hi
  · exact absurd ⟨t, s, kind, ht, hs, hi⟩ hbraced

/-- Every identifier in a declaring position is declared somewhere, if blocks are written out. -/
theorem Declaring.exists_declare (h : p.Declaring i) (hbraced : ¬ p.DeclaresUnbraced i) :
    ∃ kind, .declare i kind ∈ p.scopeEvents := by
  cases h with
  | @declarator pos kind ds d h hd hi =>
    cases kind with
    | var =>
      exact ⟨.var, h.events_subset (List.mem_append_left _ (Declarator.mem_declares hd hi))⟩
    | let_ => exact ⟨.let_, h.declare_mem (Declarator.mem_declares hd hi) hbraced⟩
    | const => exact ⟨.const, h.declare_mem (Declarator.mem_declares hd hi) hbraced⟩
  | @loopHead pos kind ds d test update body h hd hi =>
    have hi (kind : BindingKind) : .declare i kind ∈ Declarator.declares kind ds :=
      Declarator.mem_declares hd hi
    cases kind with
    | var =>
      refine ⟨.var, h.events_subset (List.mem_append_left _ ?_)⟩
      exact List.mem_append_left _ (hi .var)
    | let_ =>
      refine ⟨.let_, h.events_subset (List.mem_append_right _ ?_)⟩
      simp [Stmt.scopeEvents, ForInit.scopeEvents, hi .let_]
    | const =>
      refine ⟨.const, h.events_subset (List.mem_append_right _ ?_)⟩
      simp [Stmt.scopeEvents, ForInit.scopeEvents, hi .const]
  | @param f q h hq hi =>
    refine ⟨.param, h.scopeEvents_subset ?_⟩
    obtain ⟨node, func, form, name, params, body⟩ := f
    have : ScopeEvent.declare i .param ∈
        params.flatMap fun p => p.idents.map (ScopeEvent.declare · .param) :=
      List.mem_flatMap.2 ⟨q, hq, List.mem_map_of_mem hi⟩
    simp only [Func.scopeEvents, List.mem_append]
    tauto
  | @declarationName f h hi =>
    obtain ⟨node, func, form, name, params, body⟩ := f
    subst hi
    exact ⟨.function, h.declare_mem (List.mem_singleton_self _) hbraced⟩
  | @ownName f h hform hi =>
    obtain ⟨node, func, form, name, params, body⟩ := f
    subst hform hi
    exact ⟨.functionName, (HasFunc.expression h).scopeEvents_subset
      (by simp [Func.scopeEvents, ScopeEvent.ofOwnName])⟩

/-- Every identifier in a declaring position is resolved to a binding of its name, unless it is
declared by a statement that is the body of a condition or loop. -/
theorem bindingOf?_declaring {source : String} (hp : Program.ofSource source = .ok p)
    (h : p.Declaring i) (hbraced : ¬ p.DeclaresUnbraced i) :
    ∃ b binding, p.resolve.bindingOf? i.node.id = some b ∧
      p.resolve.bindings[b]? = some binding ∧ binding.name = i.name := by
  obtain ⟨tokens, -, htokens⟩ := Program.exists_of_ofSource hp
  have hwf := Program.wellFormed_of_ofTokens htokens
  obtain ⟨kind, hdeclare⟩ := h.exists_declare hbraced
  obtain ⟨b, hb⟩ := Option.isSome_iff_exists.1 (hwf.isSome_bindingOf?_of_declare hdeclare)
  obtain ⟨binding, hbinding, hname⟩ :=
    hwf.name_of_bindingOf? (hwf.mem_identifiers_of_declare hdeclare) hb
  exact ⟨b, binding, hb, hbinding, hname⟩

/-- All parts of a program are in a list that has its statements and what stands in its own parts. -/
theorem HasPart.mem_of_closed {xs : List Part} (hbody : ∀ s ∈ p.body, .stmt s ∈ xs)
    (hclosed : ∀ x ∈ xs, x.children ⊆ xs) {x : Part} (h : p.HasPart x) : x ∈ xs := by
  induction h with
  | body hs => exact hbody _ hs
  | child _ hy ih => exact hclosed _ ih hy

/-- A loop whose body is a block with one `let` in it. -/
def isBracedLet : List Stmt → Bool
  | [.while_ _ (.bool ..) (.block ⟨_, [.declare _ .let_ [⟨_, .ident _, none⟩]]⟩)] => true
  | _ => false

theorem bindingOf?_declaring_in_loop : ∃ p i,
    Program.ofSource "while (true) \x7b let y; \x7d" = .ok p ∧
    p.Declaring i ∧ ¬ p.DeclaresUnbraced i ∧
    ∃ b binding, p.resolve.bindingOf? i.node.id = some b ∧
      p.resolve.bindings[b]? = some binding ∧ binding.name = i.name := by
  obtain ⟨⟨body, nodes, funcs⟩, hp, htest⟩ := exists_of_any "while (true) \x7b let y; \x7d"
    (fun p => isBracedLet p.body) (by decide +kernel)
  unfold isBracedLet at htest
  dsimp only at htest
  split at htest
  · next start n value brace pos place y =>
    let declaration : Stmt := .declare pos .let_ [⟨place, .ident y, none⟩]
    let block : Stmt := .block ⟨brace, [declaration]⟩
    let loop : Stmt := .while_ start (.bool n value) block
    have hparts {x : Part} (h : HasPart ⟨[loop], nodes, funcs⟩ x) :
        x ∈ [.stmt loop, .expr (.bool n value), .stmt block, .stmt declaration,
          .pattern (.ident y)] :=
      h.mem_of_closed (by simp) (by
        simp [Part.children, Part.stem?, Part.branches, Stmt.branches, Expr.branches,
          Pattern.branches, Expr.stem?, Declarator.parts, loop, block, declaration])
    have hdeclaring : Declaring ⟨[loop], nodes, funcs⟩ y :=
      .declarator (.child (.child (.body (List.mem_singleton_self _))
        (List.mem_cons_of_mem _ (List.mem_singleton_self _))) (List.mem_singleton_self _))
        (List.mem_singleton_self _) (List.mem_singleton_self _)
    have hbraced : ¬ DeclaresUnbraced ⟨[loop], nodes, funcs⟩ y := by
      rintro ⟨s, body, kind, hs, hbody, hi⟩
      have := hparts hs
      simp only [List.mem_cons, Part.stmt.injEq, List.not_mem_nil, reduceCtorEq, or_false,
        false_or] at this
      rcases this with rfl | rfl | rfl
      · obtain rfl := List.mem_singleton.1 hbody
        simp [block, Stmt.lexical] at hi
      · simp [block, Stmt.bodies] at hbody
      · simp [Stmt.bodies, declaration] at hbody
    exact ⟨_, y, hp, hdeclaring, hbraced, bindingOf?_declaring hp hdeclaring hbraced⟩
  · cases htest

/-- A `let` as the body of a condition, of whose name nothing is known. -/
def isLostLet (r : Resolution) : List Stmt → Bool
  | [.if_ _ _ (.declare _ .let_ [⟨_, .ident y, none⟩]) none] => (r.bindingOf? y.node.id).isNone
  | _ => false

/-- A `let` that is the body of a condition declares nothing. -/
theorem bindingOf?_unbraced_let : ∃ p i, Program.ofSource "if (true) let y;" = .ok p ∧
    p.Declaring i ∧ p.DeclaresUnbraced i ∧ p.resolve.bindingOf? i.node.id = none := by
  obtain ⟨⟨body, nodes, funcs⟩, hp, htest⟩ := exists_of_any "if (true) let y;"
    (fun p => isLostLet p.resolve p.body) (by decide +kernel)
  unfold isLostLet at htest
  dsimp only at htest
  split at htest
  · next start test pos place y =>
    let declaration : Stmt := .declare pos .let_ [⟨place, .ident y, none⟩]
    have hcondition : HasPart ⟨[.if_ start test declaration none], nodes, funcs⟩ (.stmt _) :=
      .body (List.mem_singleton_self _)
    have hdeclaration : HasPart _ (.stmt declaration) :=
      .child hcondition (List.mem_cons_of_mem _ (List.mem_singleton_self _))
    refine ⟨_, y, hp, ?_, ?_, Option.isNone_iff_eq_none.1 htest⟩
    · exact .declarator hdeclaration (List.mem_singleton_self _) (List.mem_singleton_self _)
    · exact ⟨_, declaration, .let_, hcondition, List.mem_singleton_self _, List.mem_singleton_self _⟩
  · cases htest

end Program
end TagCheck
