import TagCheck.Proofs.Check.Phrase
import TagCheck.Proofs.Value.Typing

/-! What the last pass of a check without errors leaves at an expression follows from the rules of
typing. Each rule of the check is matched with a rule of typing here, and the errors that it would
report are those that keep the types of the operands apart. -/
namespace TagCheck

theorem Write.tag_onStore_derived {s : Store} {k : NodeId} (hhas : s.Has (.node k))
    (hopen : s.hasTypeThisPass (.node k) = false) (t : Tag) (tagged : Bool) :
    ((Write.type (.node k) (.derived t tagged)).onStore s).tag (.node k) = t := by
  rw [Store.tag_eq_of_ty_cell (ty_cell_onStore_type hhas hopen _)]
  cases tagged <;> rfl

namespace Check

variable {env : CheckEnv}

theorem tag_getD_ty? (s : Store) (t : Target) : ((s.ty? t).getD .unknown).tag = s.tag t := by
  cases h : s.ty? t <;> simp [Store.tag, h, Ty.unknown, Ty.inferred]

/-- An error stays to the end of the pass. -/
theorem ensures_isClean (m : Check α) (s : CheckState) :
    m.Ensures (fun _ _ => True) (fun _ s' => s'.IsClean → s.IsClean) s :=
  ensures_iff_trace.2 ⟨fun _ _ => trivial, isClean_of_run⟩

/-- If no error is reported, all operands are accepted. -/
theorem ensures_rejectOperands {code : Code} {label expected : String} {accepts : Tag → Bool}
    {operands : List (Node × Tag)} (s : CheckState) :
    (rejectOperands code label expected accepts operands).Ensures (fun _ _ => True)
      (fun _ s' => s'.IsClean → ∀ x ∈ operands, accepts x.2 = true) s := by
  induction operands generalizing s with
  | nil => simp [rejectOperands]
  | cons x operands ih =>
    simp only [List.forall_mem_cons]
    refine ensures_bind.2 ?_
    cases haccepts : accepts x.2 with
    | true =>
      simp only [haccepts, if_true, ensures_pure]
      exact (ih s).imp fun _ s' hs' hclean => ⟨trivial, hs' hclean⟩
    | false =>
      simp only [haccepts, unexpected, error, report, ensures_ite, ensures_put]
      refine ⟨fun h => absurd h (by simp), fun _ => ⟨trivial, ?_⟩⟩
      refine (ensures_isClean _ _).imp fun _ s' hs' hclean => ?_
      exact absurd (hs' hclean) Write.not_isClean_error

/-- Arithmetic that reports no error converts nothing. -/
theorem ensures_arithmetic {n : Node} {op : BinaryOp} {l r : Node} (hop : op.isArithmetic = true)
    {s : CheckState} (hhas : s.store.Has (.node n.id))
    (hopen : s.store.hasTypeThisPass (.node n.id) = false) :
    (arithmetic n op l r).Ensures (fun _ _ => True) (fun _ s' => s'.IsClean →
      op.Takes (s.store.tag (.node l.id)) (s.store.tag (.node r.id))
        (s'.store.tag (.node n.id))) s := by
  simp only [arithmetic, tyOf, ty?, ensures_bind, ensures_getStore, ensures_pure, tag_getD_ty?,
    ensures_ite, markType, ensures_put, true_and, Write.store_apply,
    Write.tag_onStore_derived hhas hopen]
  refine ⟨fun hbint _ => ?_, fun _ => ⟨fun hmod => ?_, fun _ => ⟨fun hnumeric _ => ?_,
    fun hnumeric => ?_⟩⟩⟩
  · simp only [Bool.and_eq_true, beq_iff_eq] at hbint
    rw [hbint.1, hbint.2]
    exact .integers hop
  · obtain rfl : op = .mod := by simpa using hmod
    cases hop
  · rw [Bool.and_eq_true] at hnumeric
    exact .numbers hop hnumeric.1 hnumeric.2
  · -- An operand that is no number is reported, after the result has got its type.
    refine (ensures_rejectOperands _).imp fun _ s' hs' hclean => ?_
    have hs' := hs' hclean
    simp only [List.forall_mem_cons] at hs'
    simp [hs'.1, hs'.2.1] at hnumeric

theorem ensures_addition {n l r : Node} {s : CheckState} (hhas : s.store.Has (.node n.id))
    (hopen : s.store.hasTypeThisPass (.node n.id) = false) :
    (addition n l r).Ensures (fun _ _ => True) (fun _ s' => s'.IsClean →
      BinaryOp.add.Takes (s.store.tag (.node l.id)) (s.store.tag (.node r.id))
        (s'.store.tag (.node n.id))) s := by
  simp only [addition, tyOf, ty?, ensures_bind, ensures_getStore, ensures_pure, tag_getD_ty?,
    ensures_ite, markType, ensures_put, true_and, Write.store_apply,
    Write.tag_onStore_derived hhas hopen]
  refine ⟨fun _ => ensures_arithmetic rfl hhas hopen, fun hstring => ⟨fun heq _ => ?_, fun _ => ?_⟩⟩
  · have heq : s.store.tag (.node l.id) = s.store.tag (.node r.id) := by simpa using heq
    have hr : s.store.tag (.node r.id) = .string := by simpa [heq] using hstring
    rw [heq, hr]
    exact .texts
  · simp only [error, report, ensures_put, true_and]
    exact fun hclean => absurd hclean Write.not_isClean_error

/-- A minus without errors stands before a number or an integer of the other kind. -/
theorem ensures_minus {n : NodeId} {argument : Node} (s : CheckState) :
    (unary n .minus argument).Ensures (fun _ _ => True) (fun _ s' => s'.IsClean →
      (s'.store.tag (.node argument.id)).isNumberLike = true) s := by
  simp only [unary, checkNumericOperand, tagOf, markType, unexpected, error, report, ensures_bind,
    ensures_getStore, ensures_pure, ensures_ite, ensures_put, true_and]
  exact ⟨fun hlike _ => hlike, fun _ hclean => absurd hclean Write.not_isClean_error⟩

/-- A choice takes a type in a pass only if its parts have the same one. -/
theorem ensures_select {n a b : NodeId} {s : CheckState} (hhas : s.store.Has (.node n))
    (hopen : s.store.hasTypeThisPass (.node n) = false) :
    (select n a b).Ensures (fun _ _ => True) (fun _ s' =>
      s'.store.hasTypeThisPass (.node n) = true →
        s'.store.tag (.node n) = s.store.tag (.node a) ∧
          s'.store.tag (.node n) = s.store.tag (.node b)) s := by
  simp only [select, tyOf, ty?, ensures_bind, ensures_getStore, ensures_pure, tag_getD_ty?,
    ensures_ite, markType, ensures_put, true_and, Write.store_apply,
    Write.tag_onStore_derived hhas hopen]
  refine ⟨fun hagrees _ => ?_, fun _ hthis => by simp [hopen] at hthis⟩
  simp only [Tag.agrees, Bool.and_eq_true, beq_iff_eq] at hagrees
  exact hagrees.2

/-- A node that inherits its type has that of its source. -/
theorem ensures_inherit {n source : NodeId} {s : CheckState} {ty : Ty}
    (hhas : s.store.Has (.node n)) (hopen : s.store.hasTypeThisPass (.node n) = false)
    (hsource : s.store.ty? (.node source) = some ty) :
    (inherit n source).Ensures (fun _ _ => True) (fun _ s' =>
      s'.store.tag (.node n) = s.store.tag (.node source)) s := by
  simp only [inherit, ty?, ensures_bind, ensures_getStore, ensures_pure, hsource, markType,
    ensures_put, true_and, Write.store_apply]
  rw [Store.tag_eq_of_ty_cell (Write.ty_cell_onStore_type hhas hopen ty)]
  simp [Store.tag, hsource]

theorem visit_inherit_of_ty?_eq_none {n source : NodeId} {s : CheckState}
    (h : s.store.ty? (.node source) = none) : visit env s (.inherit n source) = s := by
  have hidle : (inherit n source).Ensures (fun _ _ => True) (fun _ s' => s' = s) s := by
    simp only [inherit, ty?, ensures_bind, ensures_getStore, ensures_pure, h]
  exact (ensures_iff_trace.1 hidle).2

/-- A call of a built-in constructor is of the type of its result. -/
theorem ty_cell_call {n : Node} {i : Ident} {args : List Element} {tail : Bool} {t : Tag}
    {s : CheckState} (hhas : s.store.Has (.node n.id))
    (hopen : s.store.hasTypeThisPass (.node n.id) = false) (ht : nativeResult? i.name = some t) :
    (((call env n (.ident i) args tail).run s).2.store.cell (.node n.id)).ty =
      some ⟨.inferred t, s.store.pass⟩ := by
  let s' := (Write.native i.name t).apply s
  have hcell : s'.store.cell (.node n.id) = s.store.cell (.node n.id) := by
    rw [Write.store_apply]
    exact Write.cell_onStore_of_node?_ne (by simp [Write.node?]) _
  have hpass : s'.store.pass = s.store.pass := by
    rw [Write.store_apply, Write.pass_onStore]
  have hhas' : s'.store.Has (.node n.id) := by
    rw [Write.store_apply]
    exact Write.has_onStore.2 hhas
  have hopen' : s'.store.hasTypeThisPass (.node n.id) = false := by
    rw [Store.hasTypeThisPass_congr (by rw [hcell]) hpass, hopen]
  have hknown : (Ty.inferred t).isKnown = true := by simpa using nativeResult?_ne_unknown ht
  have hcallee : (((calleeShape? env n.id (.ident i)).run s).2.store.cell (.node n.id)).ty =
      some ⟨.inferred t, s.store.pass⟩ := by
    rw [calleeShape?, ht, ← hpass]
    exact ty_cell_run_markType_bind hhas' hopen' hknown _
  obtain ⟨g, hg⟩ : ∃ g, (call env n (.ident i) args tail).run s =
      (calleeShape? env n.id (.ident i) >>= g).run s := ⟨_, rfl⟩
  rw [hg, run_bind, ty_cell_run_of_hasTypeThisPass, hcallee]
  have hlinked := linked_trace (.infer n.id t) (calleeShape? env n.id (.ident i)) s
  exact Store.hasTypeThisPass_iff.2 ⟨_, hcallee, hlinked.pass_eq.symm, hknown⟩

end Check

namespace Phrase

open Check

variable {env : CheckEnv} {f : Store} {s : CheckState}

theorem tag_function {ns : List SyntaxNode} {x : Expr} {k : FuncId} {vs : List Visit}
    (h : Phrase env f ns s (.enterFunction x.id k :: vs)) (hx : .expr x ∈ ns) :
    f.tag (.node x.id) = .func := by
  have hty : ((visit env s (.enterFunction x.id k)).store.cell (.node x.id)).ty =
      some ⟨.inferred .func, s.store.pass⟩ :=
    ty_cell_run_markType_bind (h.has x hx) (h.isOpen x hx) rfl _
  have hpass : (visit env s (.enterFunction x.id k)).store.pass = s.store.pass :=
    (linked_moments env [.enterFunction x.id k] s).pass_eq
  have hthis : (visit env s (.enterFunction x.id k)).store.hasTypeThisPass (.node x.id) = true :=
    Store.hasTypeThisPass_iff.2 ⟨_, hty, hpass.symm, rfl⟩
  have hlast := (linked_moments env vs (visit env s (.enterFunction x.id k))).ty_cell_eq hthis
  rw [← Store.tag_congr (h.final x hx), List.foldl_cons,
    Store.tag_eq_of_ty_cell (hlast.trans hty)]
  rfl

theorem tag_global {i : Ident} {t : Tag}
    (h : Phrase env f [.expr (.ident i)] s [.identifier i .plain])
    (hb : env.bindingOf? i = none) (hname : Tag.ofName? i.name = none)
    (ht : globalTag? i.name = some t) : f.tag (.node i.node.id) = t := by
  have happly : (Visit.identifier i .plain).apply env =
      markType (.node (Expr.ident i).id) (.inferred t) >>= pure := by
    simp [Visit.apply, identifier, hname, readIdentifier.eq_def, hb, ht]
    rfl
  exact (h.tag_of_markType_bind happly (globalTag?_ne_unknown ht) :)

theorem tag_call {n : Node} {i : Ident} {args : List Element} {tail : Bool} {t : Tag}
    (h : Phrase env f [.expr (.call n (.ident i) args)] s [.call n (.ident i) args tail])
    (ht : nativeResult? i.name = some t) : f.tag (.node n.id) = t := by
  have hty : ((visit env s (.call n (.ident i) args tail)).store.cell (.node n.id)).ty =
      some ⟨.inferred t, s.store.pass⟩ := ty_cell_call h.has_self h.isOpen_self ht
  exact h.tag_self.trans (Store.tag_eq_of_ty_cell hty)

theorem tag_inherit {x : Expr} {k : NodeId} (h : Phrase env f [.expr x] s [.inherit x.id k])
    (hk : (s.store.cell (.node k)).ty.isSome = true) :
    f.tag (.node x.id) = s.store.tag (.node k) := by
  obtain ⟨m, hm⟩ := Option.isSome_iff_exists.1 hk
  have hsource : s.store.ty? (.node k) = some m.value := by simp [Store.ty?, hm]
  exact h.tag_self.trans
    (ensures_iff_trace.1 (ensures_inherit h.has_self h.isOpen_self hsource)).2

end Phrase

mutual

/-- An expression and the parts from whose values and types its own derive: operands, the choices of
a choice and the last part of a sequence, and so on inwards. -/
def Expr.sources : Expr → List Expr
  | e@(.unary _ _ a) => e :: a.sources
  | e@(.binary _ _ l r) | e@(.logical _ _ l r) => e :: (l.sources ++ r.sources)
  | e@(.conditional _ _ c a) => e :: (c.sources ++ a.sources)
  | e@(.sequence _ parts) => e :: Expr.lastSources parts
  | e => [e]

def Expr.lastSources : List Expr → List Expr
  | [] => []
  | [e] => e.sources
  | _ :: e :: es => Expr.lastSources (e :: es)

end

def Expr.isChoice : Expr → Bool
  | .logical .. | .conditional .. => true
  | _ => false

/-- The operators whose type their value may not have: the remainder, and the sign before an integer
of the other kind. -/
def Expr.mayMistype (s : Store) : Expr → Bool
  | .binary _ .mod _ _ => true
  | .unary _ .minus e => s.tag (.node e.id) == .bint
  | _ => false

/-- The target has a type from an earlier pass. -/
def Store.isStale (s : Store) (t : Target) : Bool := !s.isUntyped t && !s.hasTypeThisPass t

/-- A sequence that has a type has a last part that has one. -/
def Store.TypesLast (s : Store) (n : Node) (parts : List Expr) : Prop :=
  (s.cell (.node n.id)).ty.isSome = true →
    ∃ e, parts.getLast? = some e ∧ (s.cell (.node e.id)).ty.isSome = true

structure Store.Grounds (f : Store) (env : CheckEnv) (es : List Expr) : Prop where
  exact (e : Expr) : e ∈ es → e.mayMistype f = false
  choice (e : Expr) : e ∈ es → e.isChoice = true → f.isStale (.node e.id) = false
  unbound (i : Ident) : .ident i ∈ es → env.bindingOf? i = none
  last (n : Node) (parts : List Expr) : .sequence n parts ∈ es → f.TypesLast n parts

theorem Store.Grounds.mono {f : Store} {env : CheckEnv} {es es' : List Expr}
    (h : f.Grounds env es) (hes : es' ⊆ es) : f.Grounds env es' where
  exact e hmem := h.exact e (hes hmem)
  choice e hmem := h.choice e (hes hmem)
  unbound i hmem := h.unbound i (hes hmem)
  last n parts hmem := h.last n parts (hes hmem)

theorem Store.isSome_ty_of_tag_ne {f : Store} {k : NodeId} (h : f.tag (.node k) ≠ .unknown) :
    (f.cell (.node k)).ty.isSome = true := by
  cases hty : (f.cell (.node k)).ty with
  | none => exact absurd (by simp [tag, ty?, hty]) h
  | some m => rfl

theorem Store.Grounds.hasTypeThisPass_choice {f : Store} {env : CheckEnv} {es : List Expr}
    (h : f.Grounds env es) {e : Expr} (he : e ∈ es) (hchoice : e.isChoice = true)
    (hknown : f.tag (.node e.id) ≠ .unknown) : f.hasTypeThisPass (.node e.id) = true := by
  have hstale := h.choice e he hchoice
  simpa [Store.isStale, Store.isUntyped, Tag.isKnown, hknown] using hstale

theorem Expr.mem_nodesList {parts : List Expr} {e : Expr} (h : parts.getLast? = some e) :
    .expr e ∈ Expr.nodesList parts := by
  induction parts with
  | nil => simp at h
  | cons x parts ih =>
    rw [Expr.nodesList]
    cases parts with
    | nil =>
      obtain rfl : x = e := by simpa using h
      exact List.mem_append_left _ x.mem_nodes
    | cons y parts => exact List.mem_append_right _ (ih (by simpa using h))

section

open Check

variable {env : CheckEnv} {f : Store}

/-- The names of constants are no tags. -/
theorem Value.exists_globalTag?_of_ofConstantName {name : String} {v : Value}
    (h : ofConstantName name = some v) :
    Tag.ofName? name = none ∧ ∃ t, globalTag? name = some t := by
  unfold ofConstantName at h
  split at h
  iterate 3 exact ⟨by decide +kernel, _, rfl⟩
  · cases h

/-- A choice that is typed in this pass is of the type of each of its parts. -/
theorem Phrase.tag_select {s : CheckState} {x a b : Expr}
    (h : Phrase env f [.expr x] s [.select x.id a.id b.id])
    (hthis : f.hasTypeThisPass (.node x.id) = true) :
    f.tag (.node x.id) = s.store.tag (.node a.id) ∧
      f.tag (.node x.id) = s.store.tag (.node b.id) := by
  have hselect := (ensures_iff_trace.1 (ensures_select (a := a.id) (b := b.id) h.has_self
    h.isOpen_self)).2
  rw [h.tag_self]
  refine hselect ?_
  have hcell := h.final x (List.mem_singleton_self _)
  have hpass : (visit env s (.select x.id a.id b.id)).store.pass = f.pass :=
    (linked_moments env [.select x.id a.id b.id] s).pass_eq.trans h.pass
  exact (Store.hasTypeThisPass_congr (by rw [← hcell]; rfl) hpass).trans hthis

/-- The parts of a choice that has a type from this pass are of that type. -/
theorem Phrase.tag_choice {s : CheckState} {ns : List SyntaxNode} {pre : List Visit} {w : Visit}
    {x a b : Expr} (h : Phrase env f (.expr x :: ns) s (pre ++ [w, .select x.id a.id b.id]))
    (hpre : Tidy none ns pre) (hw : Tidy none [] [w]) (hx : x.ownVisits? = none)
    (ha : .expr a ∈ ns) (hb : .expr b ∈ ns) (hthis : f.hasTypeThisPass (.node x.id) = true) :
    Phrase env f ns s pre ∧ f.tag (.node a.id) = f.tag (.node x.id) ∧
      f.tag (.node b.id) = f.tag (.node x.id) := by
  rw [List.append_cons] at h
  have hseen : Tidy none ns (pre ++ [w]) := hpre.then_ (hw.mono (List.nil_subset ns))
  have htag := (h.own hseen).tag_select hthis
  rw [Store.tag_congr (h.cell_part rfl ha), Store.tag_congr (h.cell_part rfl hb)] at htag
  exact ⟨(h.parts (Tidy.nil.operator hx (List.Subset.refl _) nofun)).quiet hw, htag.1.symm,
    htag.2.symm⟩

/-- Arithmetic in a pass without errors. -/
theorem Phrase.takes_binary {s : CheckState} {n : Node} {op : BinaryOp} {l r : Expr}
    (h : Phrase env f [.expr (.binary n op l r)] s [.binary n op l.node r.node])
    (hop : op.isArithmetic = true) :
    op.Takes (s.store.tag (.node l.id)) (s.store.tag (.node r.id)) (f.tag (.node n.id)) := by
  have htag : f.tag (.node n.id) =
      (visit env s (.binary n op l.node r.node)).store.tag (.node n.id) := h.tag_self
  have hclean : (visit env s (.binary n op l.node r.node)).IsClean := h.clean
  have hhas : s.store.Has (.node n.id) := h.has_self
  have hopen : s.store.hasTypeThisPass (.node n.id) = false := h.isOpen_self
  rw [htag]
  cases op with
  | add => exact (ensures_iff_trace.1 (ensures_addition hhas hopen)).2 hclean
  | sub | mul | div => exact (ensures_iff_trace.1 (ensures_arithmetic hop hhas hopen)).2 hclean
  | _ => cases hop

theorem BinaryOp.Takes.ne_unknown {op : BinaryOp} {t u w : Tag} (h : op.Takes t u w) :
    t ≠ .unknown ∧ u ≠ .unknown := by
  cases h with
  | texts | integers => decide
  | numbers _ ht hu =>
    constructor
    · rintro rfl
      cases ht
    · rintro rfl
      cases hu

mutual

/-- What the last pass leaves at an expression it derives by the rules. -/
theorem Expr.types : (x : Expr) → ∀ {s : CheckState}, Phrase env f x.nodes s (x.visits {}) →
    f.Grounds env x.sources → f.tag (.node x.id) ≠ .unknown → x.Types (f.tag (.node x.id))
  | .number n x, s, h, _, _ => by
    have htag : f.tag (.node n.id) = x.tag := Phrase.tag_infer (x := .number n x) h (by
      unfold Double.tag
      split
      · decide
      · split <;> decide)
    exact htag ▸ .number n x
  | .bigint n digits, s, h, _, _ => by
    have htag : f.tag (.node n.id) = .bint := Phrase.tag_infer (x := .bigint n digits) h (by decide)
    exact htag ▸ .bigint n digits
  | .str n t, s, h, _, _ => by
    have htag : f.tag (.node n.id) = .string := Phrase.tag_infer (x := .str n t) h (by decide)
    exact htag ▸ .str n t
  | .bool n b, s, h, _, _ => by
    have htag : f.tag (.node n.id) = .bool := Phrase.tag_infer (x := .bool n b) h (by decide)
    exact htag ▸ .bool n b
  | .null n, s, h, _, _ => by
    have htag : f.tag (.node n.id) = .nul := Phrase.tag_infer (x := .null n) h (by decide)
    exact htag ▸ .null n
  | .regex n pattern flags, s, h, _, _ => by
    have htag : f.tag (.node n.id) = .regex :=
      Phrase.tag_infer (x := .regex n pattern flags) h (by decide)
    exact htag ▸ .regex n pattern flags
  | .template n ⟨pos, quasis, parts⟩, s, h, _, _ => by
    rw [Expr.nodes, Expr.visits] at h
    have htag := (h.own (Expr.tourList parts).tidy).tag_infer (by decide)
    exact htag ▸ .template n ⟨pos, quasis, parts⟩
  | .array n es, s, h, _, _ => by
    rw [Expr.nodes, Expr.visits] at h
    have htag := (h.own (Element.tour es _).tidy).tag_of_markType_bind rfl (by decide)
    exact htag ▸ .array n es
  | .object n ps, s, h, _, _ => by
    rw [Expr.nodes, Expr.visits] at h
    have htag := (h.own (Property.tour ps).tidy).tag_infer (by decide)
    exact htag ▸ .object n ps
  | .function fn, s, h, _, _ => by
    obtain ⟨node, func, form, name, params, body⟩ := fn
    rw [Expr.nodes, Expr.visits, Func.visits] at h
    have htag := Phrase.tag_function (x := .function ⟨node, func, form, name, params, body⟩) h
      (List.mem_cons_self ..)
    exact htag ▸ .function _
  | .ident i, s, h, hf, _ => by
    cases hv : Value.ofConstantName i.name with
    | none => exact .noValue (by rw [Expr.eval, hv])
    | some v =>
      obtain ⟨hname, t, ht⟩ := Value.exists_globalTag?_of_ofConstantName hv
      have htag := h.tag_global (hf.unbound i (List.mem_singleton_self _)) hname ht
      exact htag ▸ .global ht
  | .unary n op e, s, h, hf, _ => by
    rw [Expr.nodes, Expr.visits] at h
    rw [Expr.sources] at hf
    have hown := h.own e.tidy
    cases op with
    | minus =>
      have htag := hown.tag_of_markType_bind rfl (by decide)
      have hlike : (f.tag (.node e.id)).isNumberLike = true := by
        have hminus := (ensures_iff_trace.1 (ensures_minus _)).2 hown.clean
        rw [← Store.tag_congr (h.final e (List.mem_cons_of_mem _ e.mem_nodes)), List.foldl_append]
        exact hminus
      -- The check lets integers of the other kind pass here and takes the result for a number.
      have hsign : f.tag (.node e.id) ≠ .bint :=
        beq_eq_false_iff_ne.1 (hf.exact _ (List.mem_cons_self ..))
      have hnumeric : (f.tag (.node e.id)).isNumeric = true := by
        simpa [Tag.isNumberLike, hsign] using hlike
      have hoperand := e.types (h.parts (Tidy.nil.operator rfl (List.Subset.refl _) nofun))
        (hf.mono (List.subset_cons_self ..)) (by rintro heq; simp [heq, Tag.isNumeric] at hnumeric)
      exact htag ▸ .minus hnumeric hoperand
    | plus =>
      have htag := hown.tag_of_markType_bind rfl (by decide)
      exact htag ▸ .plus n e
    | bitNot =>
      have htag := hown.tag_of_markType_bind rfl (by decide)
      exact htag ▸ .bitNot n e
    | not =>
      have htag := hown.tag_of_markType_bind (g := pure) rfl (by decide)
      exact htag ▸ .not n e
    | typeof =>
      have htag := hown.tag_of_markType_bind (g := pure) rfl (by decide)
      exact htag ▸ .typeof n e
    | void =>
      have htag := hown.tag_of_markType_bind (g := pure) rfl (by decide)
      exact htag ▸ .void n e
    | delete => exact .noValue (by cases h : e.eval <;> simp [Expr.eval, h, Value.applyUnary])
  | .binary n op l r, s, h, hf, _ => by
    rw [Expr.nodes, Expr.visits] at h
    rw [Expr.sources] at hf
    have hoperands := h.parts (Tidy.nil.operator rfl (List.Subset.refl _) nofun)
    have hf' := hf.mono (List.subset_cons_self ..)
    cases hop : op.isArithmetic with
    | false =>
      -- Such operators may have any types, as evaluation gives no value for them.
      have hmod : op ≠ .mod := by
        rintro rfl
        cases hf.exact _ (List.mem_cons_self ..)
      refine .noValue (Option.eq_none_iff_forall_ne_some.2 fun v hv => ?_)
      obtain ⟨a, -, b, -, hv⟩ := Expr.eval_binary_eq_some_iff.1 hv
      simp [Value.applyBinary_eq_none hop hmod] at hv
    | true =>
      have htakes := (h.own (l.tidy.append r.tidy)).takes_binary hop
      rw [Store.tag_congr (h.cell_part rfl (List.mem_append_left _ l.mem_nodes)),
        Store.tag_congr (h.cell_part rfl (List.mem_append_right _ r.mem_nodes))] at htakes
      exact .binary htakes
        (l.types (hoperands.first r.tidy) (hf'.mono (List.subset_append_left ..))
          htakes.ne_unknown.1)
        (r.types (hoperands.last l.tidy) (hf'.mono (List.subset_append_right ..))
          htakes.ne_unknown.2)
  | .logical n op l r, s, h, hf, hknown => by
    rw [Expr.nodes, Expr.visits] at h
    rw [Expr.sources] at hf
    have hthis := hf.hasTypeThisPass_choice (List.mem_cons_self ..) rfl hknown
    have hf' := hf.mono (List.subset_cons_self ..)
    obtain ⟨hparts, hl, hr⟩ := h.tag_choice (l.tidy.append r.tidy)
      (Tidy.nil.quiet rfl nofun) rfl (List.mem_append_left _ l.mem_nodes)
      (List.mem_append_right _ r.mem_nodes) hthis
    exact .logical
      (hl ▸ l.types (hparts.first r.tidy) (hf'.mono (List.subset_append_left ..))
        (hl ▸ hknown))
      (hr ▸ r.types (hparts.last l.tidy) (hf'.mono (List.subset_append_right ..))
        (hr ▸ hknown))
  | .conditional n t c a, s, h, hf, hknown => by
    rw [Expr.nodes, Expr.visits] at h
    rw [Expr.sources] at hf
    have hthis := hf.hasTypeThisPass_choice (List.mem_cons_self ..) rfl hknown
    have hf' := hf.mono (List.subset_cons_self ..)
    obtain ⟨hparts, hc, ha⟩ := h.tag_choice ((t.tidy.append c.tidy).append a.tidy)
      (Tidy.nil.quiet rfl nofun) rfl
      (List.mem_append_left _ (List.mem_append_right _ c.mem_nodes))
      (List.mem_append_right _ a.mem_nodes) hthis
    exact .conditional
      (hc ▸ c.types (hparts.part t.tidy a.tidy) (hf'.mono (List.subset_append_left ..))
        (hc ▸ hknown))
      (ha ▸ a.types (hparts.last (t.tidy.append c.tidy))
        (hf'.mono (List.subset_append_right ..)) (ha ▸ hknown))
  | .sequence n parts, s, h, hf, hknown => by
    rw [Expr.nodes, Expr.visits] at h
    rw [Expr.sources] at hf
    obtain ⟨e, hlast, he⟩ :=
      hf.last n parts (List.mem_cons_self ..) (Store.isSome_ty_of_tag_ne hknown)
    rw [hlast, Option.map_some, Option.toList_some] at h
    have hcell := h.cell_part rfl (Expr.mem_nodesList hlast)
    have htag := (h.own (Expr.tourList parts).tidy).tag_inherit (by rw [hcell]; exact he)
    rw [Store.tag_congr hcell] at htag
    have howned : Tidy none [.expr (.sequence n parts)] [.inherit n.id e.id] :=
      Tidy.nil.own nofun (List.Subset.refl _) (SyntaxNode.owns_expr rfl (by simp [hlast]))
    have hparts := Expr.types_last parts hlast (h.parts howned) (hf.mono (List.subset_cons_self ..))
      (htag ▸ hknown)
    exact .sequence hlast (htag ▸ hparts)
  | .call n callee args, s, h, _, _ => by
    rw [Expr.nodes, Expr.visits] at h
    cases hi : callee.asIdent? with
    | none => exact .noValue (by simp [Expr.eval, hi])
    | some i =>
      obtain rfl := Expr.eq_ident_of_asIdent? hi
      cases ht : nativeResult? i.name with
      | none => exact .noValue (by simp [Expr.eval, Expr.asIdent?, Value.applyNamed_eq_none ht])
      | some t =>
        have hown := h.own ((Expr.ident i).tidy.append (Element.tour args _).tidy)
        exact hown.tag_call ht ▸ .native ht
  | .this _, _, _, _, _ | .tagged .., _, _, _, _ | .update .., _, _, _, _ | .assign .., _, _, _, _
  | .assignMember .., _, _, _, _ | .new .., _, _, _, _ | .member .., _, _, _, _ =>
    .noValue (by simp [Expr.eval])

theorem Expr.types_last : (parts : List Expr) → ∀ {s : CheckState} {e : Expr},
    parts.getLast? = some e → Phrase env f (Expr.nodesList parts) s (Expr.visitsList parts) →
    f.Grounds env (Expr.lastSources parts) → f.tag (.node e.id) ≠ .unknown →
      e.Types (f.tag (.node e.id))
  | [], _, _, hlast, _, _, _ => by simp at hlast
  | [e], s, e', hlast, h, hf, hknown => by
    obtain rfl : e = e' := by simpa using hlast
    rw [Expr.nodesList, Expr.visitsList] at h
    exact e.types (h.first (Expr.tourList []).tidy) hf hknown
  | e :: e' :: es, s, _, hlast, h, hf, hknown => by
    rw [Expr.nodesList, Expr.visitsList] at h
    exact Expr.types_last (e' :: es) (by simpa using hlast) (h.last e.tidy) hf hknown

end

end

end TagCheck
