import TagCheck.Proofs.Check.Moments
import TagCheck.Proofs.Check.Ownership
import TagCheck.Proofs.Descriptor.Grammar
import TagCheck.Proofs.Value.Typing

/-! Two checks of array literals against a shape: one goes by the types of the elements as they
stand in the program, the other by their values. They agree on literals of constants, from the
moment on at which the literal has been visited. -/
namespace TagCheck

mutual

/-- Whether an expression is a constant or an array of such, without holes and spreads. -/
def Expr.isLiteral : Expr → Bool
  | .number _ _ | .bigint _ _ | .str _ _ | .bool _ _ | .null _ | .regex _ _ _ => true
  | .array _ es => Element.areLiterals es
  | _ => false

def Element.areLiterals : List Element → Bool
  | [] => true
  | .item e :: es => e.isLiteral && Element.areLiterals es
  | .hole :: _ | .spread _ _ :: _ => false

end

def Expr.literalTag : Expr → Tag
  | .number _ x => x.tag
  | .bigint _ _ => .bint
  | .str _ _ => .string
  | .bool _ _ => .bool
  | .null _ => .nul
  | .regex _ _ _ => .regex
  | .array _ _ => .array
  | _ => .unknown

theorem Expr.isKnown_literalTag (e : Expr) (he : e.isLiteral = true) :
    e.literalTag.isKnown = true := by
  cases e with
  | number n x =>
    simp only [literalTag, Double.tag]
    split
    · rfl
    · split <;> rfl
  | bigint | str | bool | null | regex | array => rfl
  | _ => simp [isLiteral] at he

/-- A literal's type fits the tags of its value, but that an integer fits `bint` and that arrays and
regular expressions are objects. -/
theorem Value.hasTag_eq_fits {e : Expr} {v : Value} {t : Tag} (he : e.isLiteral = true)
    (hv : e.eval = some v) (hbint : t ≠ .bint) (hobject : t ≠ .object) :
    v.hasTag t = e.literalTag.fits t := by
  cases e with
  | number n x =>
    obtain rfl : Value.number x = v := by simpa [Expr.eval] using hv
    have hfinite : x.isSafeInteger = true → x.isFinite = true :=
      isFinite_of_isSafeInteger (v := .number x)
    cases hsafe : x.isSafeInteger <;> cases hfin : x.isFinite <;> cases t <;>
      simp_all [hasTag, Expr.literalTag, Double.tag, Tag.fits, Tag.isKnown, isFinite, isSafeInteger]
  | array n es =>
    obtain ⟨items, -, rfl⟩ :
        ∃ items, Element.evalItems es = some items ∧ Value.array items = v := by
      simpa [Expr.eval, Option.bind_eq_some_iff] using hv
    cases t <;> simp_all [hasTag, Expr.literalTag, Tag.fits, Tag.isKnown, isFinite, isSafeInteger]
  | bigint n digits | str n s | bool n b | regex n pattern flags =>
    simp only [Expr.eval, Option.some.injEq] at hv
    subst hv
    cases t <;> simp_all [hasTag, Expr.literalTag, Tag.fits, Tag.isKnown, isFinite, isSafeInteger]
  | null n =>
    simp only [Expr.eval, Option.some.injEq] at hv
    subst hv
    cases t <;> simp_all [hasTag, Expr.literalTag, Tag.fits, Tag.isKnown, isFinite, isSafeInteger]
  | _ => simp [Expr.isLiteral] at he

mutual

theorem Expr.exists_eval_of_isLiteral : (e : Expr) → e.isLiteral = true → ∃ v, e.eval = some v
  | .number _ _, _ | .bigint _ _, _ | .str _ _, _ | .bool _ _, _ | .null _, _ | .regex _ _ _, _ =>
    ⟨_, rfl⟩
  | .array n es, h => by
    rw [Expr.isLiteral] at h
    obtain ⟨items, hitems⟩ := Element.exists_evalItems_of_areLiterals es h
    exact ⟨.array items, by simp [Expr.eval, hitems]⟩
  | .template .., h | .tagged .., h | .ident _, h | .object .., h | .function _, h | .unary .., h
  | .update .., h | .binary .., h | .logical .., h | .conditional .., h | .assign .., h
  | .assignMember .., h | .sequence .., h | .call .., h | .new .., h | .member .., h
  | .this _, h => by simp [Expr.isLiteral] at h

theorem Element.exists_evalItems_of_areLiterals : (es : List Element) →
    Element.areLiterals es = true → ∃ items, Element.evalItems es = some items
  | [], _ => ⟨[], rfl⟩
  | .item e :: es, h => by
    simp only [Element.areLiterals, Bool.and_eq_true] at h
    obtain ⟨v, hv⟩ := e.exists_eval_of_isLiteral h.1
    obtain ⟨items, hitems⟩ := Element.exists_evalItems_of_areLiterals es h.2
    exact ⟨v :: items, by simp [Element.evalItems, hv, hitems]⟩
  | .hole :: _, h | .spread _ _ :: _, h => by simp [Element.areLiterals] at h

end

namespace Store

variable {s : Store}

/-- What the store knows of a literal: its type, and no shape if it is no array. -/
structure Knows (s : Store) (e : Expr) : Prop where
  tag : s.tag (.node e.id) = e.literalTag
  shape : Check.arrayElements? e = none → s.shape? (.node e.id) = none

/-- The expression is a literal of this value, and the store knows it and all literals in it. -/
structure Stands (s : Store) (e : Expr) (v : Value) : Prop where
  isLiteral : e.isLiteral = true
  eval : e.eval = some v
  knows (x : Expr) : .expr x ∈ e.nodes → s.Knows x

def StandAll (s : Store) : List Element → List Value → Prop :=
  List.Forall₂ fun element v => ∃ e, element = .item e ∧ s.Stands e v

theorem StandAll.eq_nil_iff {es : List Element} {items : List Value} (h : s.StandAll es items) :
    es = [] ↔ items = [] := by
  rw [← List.length_eq_zero_iff, ← List.length_eq_zero_iff, List.Forall₂.length_eq h]

theorem standAll {es : List Element} {items : List Value} (hes : Element.areLiterals es = true)
    (hitems : Element.evalItems es = some items)
    (hknows : ∀ x, .expr x ∈ Element.nodes es → s.Knows x) : s.StandAll es items := by
  induction es generalizing items with
  | nil =>
    obtain rfl : [] = items := by simpa [Element.evalItems] using hitems
    exact .nil
  | cons element es ih =>
    cases element with
    | item e =>
      simp only [Element.areLiterals, Bool.and_eq_true] at hes
      obtain ⟨v, hv, rest, hrest, rfl⟩ : ∃ v, e.eval = some v ∧
          ∃ rest, Element.evalItems es = some rest ∧ v :: rest = items := by
        simpa [Element.evalItems, Option.bind_eq_some_iff] using hitems
      have hnodes : Element.nodes (.item e :: es) = e.nodes ++ Element.nodes es := by
        rw [Element.nodes]
      rw [hnodes] at hknows
      exact .cons ⟨e, rfl, hes.1, hv, fun x hx => hknows x (List.mem_append_left _ hx)⟩
        (ih hes.2 hrest fun x hx => hknows x (List.mem_append_right _ hx))
    | _ => simp [Element.areLiterals] at hes

theorem Stands.elements {n : Node} {es : List Element} {v : Value}
    (h : s.Stands (.array n es) v) : ∃ items, v = .array items ∧ s.StandAll es items := by
  obtain ⟨items, hitems, rfl⟩ :
      ∃ items, Element.evalItems es = some items ∧ Value.array items = v := by
    simpa [Expr.eval, Option.bind_eq_some_iff] using h.eval
  have hes : Element.areLiterals es = true := by
    simpa [Expr.isLiteral] using h.isLiteral
  refine ⟨items, rfl, standAll hes hitems fun x hx => h.knows x ?_⟩
  rw [Expr.nodes]
  exact List.mem_cons_of_mem _ hx

theorem Stands.hasType_iff {e : Expr} {v : Value} (h : s.Stands e v) {t : Tag} (hbint : t ≠ .bint)
    (hobject : t ≠ .object) :
    s.elementHasType (.builtin t) (.item e) = true ↔ v.hasTag t = true := by
  rw [elementHasType, (h.knows e e.mem_nodes).tag, ElemName.builtin_fits_builtin,
    Value.hasTag_eq_fits h.isLiteral h.eval hbint hobject]

theorem all_iff {es : List Element} {items : List Value} (h : s.StandAll es items)
    {test : Element → Bool} {Q : Value → Prop}
    (hQ : ∀ e v, s.Stands e v → (test (.item e) = true ↔ Q v)) :
    es.all test = true ↔ ∀ v ∈ items, Q v := by
  induction h with
  | nil => simp
  | cons hx _ ih =>
    obtain ⟨e, rfl, he⟩ := hx
    rw [List.all_cons, Bool.and_eq_true, List.forall_mem_cons, ih, hQ e _ he]

/-- What has no shape is of none, unless it is looked at element by element. -/
theorem valueFits_of_shape?_eq_none {e : Expr} (harray : Check.arrayElements? e = none)
    (hshape : s.shape? (.node e.id) = none) (inner : ArrayShape) : s.valueFits inner e = false := by
  have hvalue : s.valueFits inner e =
      s.arena.fits (s.shape? (.node e.id)) (some (.array inner)) := by
    cases e with
    | array n es => simp [Check.arrayElements?] at harray
    | _ => rfl
  rw [hvalue, hshape, Arena.fits, Arena.settle]
  all_goals simp

/-- A literal that is no array has no shape, and its value is of none. -/
theorem Stands.valueFits_iff {vs : Validators} {e : Expr} {v : Value} (h : s.Stands e v)
    {inner : ArrayShape} (ih : ∀ es items, s.StandAll es items →
      (inner.admits s es = true ↔ vs.accepts inner (.array items) = .ok true)) :
    s.valueFits inner e = true ↔ vs.accepts inner v = .ok true := by
  by_cases harray : Check.arrayElements? e = none
  · have hshape := (h.knows e e.mem_nodes).shape harray
    rw [valueFits_of_shape?_eq_none harray hshape, Validators.accepts_eq_ok_true_iff]
    refine ⟨fun h => absurd h (by simp), ?_⟩
    rintro ⟨items, rfl, -⟩
    have heval := h.eval
    have hlit := h.isLiteral
    cases e with
    | array n es => simp [Check.arrayElements?] at harray
    | _ => simp [Expr.eval, Expr.isLiteral] at heval hlit
  · cases e with
    | array n es =>
      obtain ⟨items, rfl, hitems⟩ := h.elements
      exact ih es items hitems
    | _ => simp [Check.arrayElements?] at harray

end Store

def ElemName.AllExact (names : List ElemName) : Prop :=
  ∀ name ∈ names, ∃ t, name = .builtin t ∧ t ≠ .bint ∧ t ≠ .object

namespace Validators

open Descriptor

variable {s : Store} (vs : Validators)

/-- An element, or a member of a tuple, of one of the types. -/
theorem elementHasType_iff {name : ElemName} (hname : ElemName.AllExact [name]) {e : Expr}
    {v : Value} (h : s.Stands e v) :
    s.elementHasType name (.item e) = true ↔ vs.hasType v name = .ok true := by
  obtain ⟨t, rfl, hbint, hobject⟩ := hname name (List.mem_singleton_self name)
  simp [h.hasType_iff hbint hobject, hasType]

/-- The two checks agree on the members of a tuple. -/
def AgreeOn (vs : Validators) (s : Store) (members : List Member) : Prop :=
  ∀ es items, s.StandAll es items → (es.length = members.length ∧
    Member.admitsList s members es = true ↔
      List.Forall₂ (fun m v => vs.acceptsMember m v = .ok true) members items)

theorem agreeOn_cons {m : Member} {members : List Member}
    (hm : ∀ {e v}, s.Stands e v →
      (m.admits s (.item e) = true ↔ vs.acceptsMember m v = .ok true))
    (hmembers : vs.AgreeOn s members) : vs.AgreeOn s (m :: members) := by
  intro es items h
  cases h with
  | nil => simp
  | cons hx h =>
    obtain ⟨e, rfl, he⟩ := hx
    rw [List.forall₂_cons, ← hmembers _ _ h, ← hm he, Member.admitsList, Bool.and_eq_true]
    simp only [List.length_cons, Nat.add_right_cancel_iff]
    exact and_left_comm

mutual

/-- The two checks agree on what a descriptor can denote. -/
theorem admits_iff_of_denotes {t : Tree} {shape : ArrayShape} : t.Denotes shape →
    ElemName.AllExact shape.names → ∀ es items, s.StandAll es items →
    (shape.admits s es = true ↔ vs.accepts shape (.array items) = .ok true)
  | .simple name nonEmpty, hnames, es, items, h => by
    have hname : ElemName.AllExact [.ofName name] := by
      simpa [ArrayShape.names, Contents.names] using hnames
    have hall := Store.all_iff h fun e v he => vs.elementHasType_iff hname he
    rw [accepts_eq_ok_true_iff]
    cases nonEmpty <;>
      simp [ArrayShape.admits, Contents.admits, acceptsItems, allPass_eq_ok_true_iff, hall,
        h.eq_nil_iff]
  | @Tree.Denotes.nested _ inner hinner nonEmpty, hnames, es, items, h => by
    have ih := admits_iff_of_denotes hinner (by
      simpa [ArrayShape.names, Contents.names] using hnames)
    have hall : (es.all ((Member.shape inner).admits s ·) = true) ↔
        ∀ v ∈ items, vs.accepts inner v = .ok true :=
      Store.all_iff h fun e v he => by
        rw [Member.admits_shape]
        exact he.valueFits_iff ih
    rw [accepts_eq_ok_true_iff]
    cases nonEmpty <;>
      simp [ArrayShape.admits, Contents.admits_nested, acceptsItems, allPass_eq_ok_true_iff, hall,
        h.eq_nil_iff]
  | @Tree.Denotes.tuple _ members hmembers, hnames, es, items, h => by
    have ih := admitsList_iff_of_denoteMembers hmembers (by
      simpa [ArrayShape.names, Contents.names] using hnames) es items h
    rw [accepts_eq_ok_true_iff]
    simp [ArrayShape.admits, Contents.admits, ih, acceptsItems_tuple_eq_ok_true_iff]

theorem admitsList_iff_of_denoteMembers {ts : List Tree} {members : List Member} :
    Tree.DenoteMembers ts members → ElemName.AllExact (Member.namesList members) →
    vs.AgreeOn s members
  | .nil, _ => fun es items h => by cases h <;> simp [Member.admitsList]
  | .name name hrest, hnames => by
    simp only [Member.namesList, Member.names] at hnames
    obtain ⟨hname, hnames⟩ := List.forall_mem_append.1 hnames
    refine vs.agreeOn_cons (fun he => ?_) (admitsList_iff_of_denoteMembers hrest hnames)
    rw [Member.admits, acceptsMember]
    exact vs.elementHasType_iff hname he
  | .shape ht hrest, hnames => by
    simp only [Member.namesList, Member.names] at hnames
    obtain ⟨hname, hnames⟩ := List.forall_mem_append.1 hnames
    refine vs.agreeOn_cons (fun he => ?_) (admitsList_iff_of_denoteMembers hrest hnames)
    rw [Member.admits_shape, acceptsMember]
    exact he.valueFits_iff (admits_iff_of_denotes ht hname)

end

end Validators

mutual

/-- Whatever stands in a literal is a literal, and is visited as such. -/
theorem Expr.exists_ownVisit : (e : Expr) → e.isLiteral = true → ∀ place x, .expr x ∈ e.nodes →
    x.isLiteral = true ∧ ∃ w ∈ e.visits place, x.ownVisits? = some [w]
  | .number .., h, _, x, hx | .bigint .., h, _, x, hx | .str .., h, _, x, hx
  | .bool .., h, _, x, hx | .null _, h, _, x, hx | .regex .., h, _, x, hx => by
    obtain rfl : x = _ := by simpa [Expr.nodes] using hx
    exact ⟨h, _, List.mem_singleton_self _, rfl⟩
  | .array n es, h, place, x, hx => by
    rw [Expr.nodes] at hx
    rw [Expr.visits]
    rcases List.mem_cons.1 hx with hx | hx
    · cases hx
      exact ⟨h, _, List.mem_append_right _ (List.mem_singleton_self _), rfl⟩
    · rw [Expr.isLiteral] at h
      obtain ⟨hlit, w, hw, hown⟩ := Element.exists_ownVisit es h (some .array) x hx
      exact ⟨hlit, w, List.mem_append_left _ hw, hown⟩
  | .template .., h, _, _, _ | .tagged .., h, _, _, _ | .ident _, h, _, _, _
  | .object .., h, _, _, _ | .function _, h, _, _, _ | .unary .., h, _, _, _
  | .update .., h, _, _, _ | .binary .., h, _, _, _ | .logical .., h, _, _, _
  | .conditional .., h, _, _, _ | .assign .., h, _, _, _ | .assignMember .., h, _, _, _
  | .sequence .., h, _, _, _ | .call .., h, _, _, _ | .new .., h, _, _, _
  | .member .., h, _, _, _ | .this _, h, _, _, _ => by simp [Expr.isLiteral] at h

theorem Element.exists_ownVisit : (es : List Element) → Element.areLiterals es = true →
    ∀ expected x, .expr x ∈ Element.nodes es →
      x.isLiteral = true ∧ ∃ w ∈ Element.visits expected es, x.ownVisits? = some [w]
  | [], _, _, x, hx => by simp [Element.nodes] at hx
  | .item e :: es, h, expected, x, hx => by
    simp only [Element.areLiterals, Bool.and_eq_true] at h
    rw [Element.nodes] at hx
    rw [Element.visits]
    rcases List.mem_append.1 hx with hx | hx
    · obtain ⟨hlit, w, hw, hown⟩ := e.exists_ownVisit h.1 {} x hx
      exact ⟨hlit, w, List.mem_append_left _ hw, hown⟩
    · obtain ⟨hlit, w, hw, hown⟩ := Element.exists_ownVisit es h.2 expected x hx
      exact ⟨hlit, w, List.mem_append_right _ hw, hown⟩
  | .hole :: _, h, _, _, _ | .spread _ _ :: _, h, _, _, _ => by simp [Element.areLiterals] at h

end

/-- What a store holds for a literal is right, as far as it holds anything. -/
structure Store.Agrees (s : Store) (e : Expr) : Prop where
  ty (m : Marked Ty) : (s.cell (.node e.id)).ty = some m → m.value = .inferred e.literalTag
  shape : Check.arrayElements? e = none → (s.cell (.node e.id)).shape = none

theorem Store.Agrees.beginPass {s : CheckState} {e : Expr} (h : s.store.Agrees e) :
    s.beginPass.store.Agrees e :=
  ⟨h.ty, h.shape⟩

theorem Store.Agrees.knows {s : Store} {e : Expr} (h : s.Agrees e)
    (hty : (s.cell (.node e.id)).ty.isSome = true) : s.Knows e where
  tag := by
    obtain ⟨m, hm⟩ := Option.isSome_iff_exists.1 hty
    simp [Store.tag, Store.ty?, hm, h.ty m hm, Ty.inferred]
  shape harray := by simp [Store.shape?, h.shape harray]

namespace Check

/-- The visit of a literal gives it its type, and gives a shape to an array only. -/
theorem cell_visit_own {e : Expr} {w : Visit} (he : e.isLiteral = true)
    (h : e.ownVisits? = some [w]) (env : CheckEnv) (s : CheckState) :
    let s' := (Write.type (.node e.id) (.inferred e.literalTag)).onStore s.store
    ((visit env s w).store.cell (.node e.id)).ty = (s'.cell (.node e.id)).ty ∧
      (arrayElements? e = none →
        (visit env s w).store.cell (.node e.id) = s'.cell (.node e.id)) := by
  cases e with
  | array n es =>
    obtain rfl : Visit.arrayLiteral n es = w := by simpa [Expr.ownVisits?] using h
    refine ⟨?_, fun harray => by simp [arrayElements?] at harray⟩
    let s' := (Write.type (.node n.id) (.inferred .array)).onStore s.store
    exact Store.ty_cell_forceShape s' (.node n.id) (.array (s'.inferArrayShape es)) (.node n.id)
  | number | bigint | str | bool | null | regex =>
    cases h
    exact ⟨rfl, fun _ => rfl⟩
  | _ => simp [Expr.isLiteral] at he

theorem agrees_visit_own {e : Expr} {w : Visit} (he : e.isLiteral = true)
    (h : e.ownVisits? = some [w]) (env : CheckEnv) {s : CheckState} (hs : s.store.Agrees e) :
    (visit env s w).store.Agrees e := by
  obtain ⟨hty, hcell⟩ := cell_visit_own he h env s
  refine ⟨fun m hm => ?_, fun harray => ?_⟩
  · rw [hty] at hm
    rcases Write.ty_cell_onStore (.type (.node e.id) (.inferred e.literalTag)) s.store (.node e.id)
      with hkeep | ⟨ty, hw, -, hnew⟩ | ⟨b, ty, hw, -, -⟩
    · exact hs.ty m (hkeep ▸ hm)
    · cases hw
      rw [hnew] at hm
      obtain rfl := Option.some.inj hm
      rfl
    · cases hw
  · rw [hcell harray, Write.onStore, Store.markType]
    split
    · exact hs.shape harray
    · rw [Store.shape_cell_forceType, hs.shape harray]

theorem isSome_ty_visit_own {e : Expr} {w : Visit} (he : e.isLiteral = true)
    (h : e.ownVisits? = some [w]) (env : CheckEnv) {s : CheckState}
    (hhas : s.store.Has (.node e.id)) :
    ((visit env s w).store.cell (.node e.id)).ty.isSome = true := by
  have hknown : (Ty.inferred e.literalTag).isKnown = true := e.isKnown_literalTag he
  obtain ⟨m, hm, -⟩ := Store.hasTypeThisPass_iff.1 (Write.hasTypeThisPass_onStore_type hhas hknown)
  rw [(cell_visit_own he h env s).1, hm, Option.isSome_some]

end Check

namespace Program

variable {p : Program} {config : Config}

namespace WellFormed

variable {e : Expr} {w : Visit} {vs : List Visit} {s : CheckState}

theorem agrees_foldl_visit (hp : p.WellFormed) (he : .expr e ∈ p.nodes)
    (hlit : e.isLiteral = true) (hw : e.ownVisits? = some [w]) (hvs : vs ⊆ p.visits)
    (hs : s.store.Agrees e) :
    (vs.foldl (Check.visit (p.checkEnv config)) s).store.Agrees e := by
  induction vs generalizing s with
  | nil => exact hs
  | cons v vs ih =>
    obtain ⟨hv, hvs⟩ := List.cons_subset.1 hvs
    refine ih hvs ?_
    by_cases hmem : e.id ∈ v.footprint
    · obtain rfl := List.mem_singleton.1 (hp.mem_ownVisits he hw hv hmem)
      exact Check.agrees_visit_own hlit hw _ hs
    · have hopen : ¬ (p.checkEnv config).Implies e.id := hp.not_implies he
      have hcell := Check.cell_visit_of_notMem hmem hopen s
      exact ⟨fun m hm => hs.ty m (hcell ▸ hm), fun harray => hcell ▸ hs.shape harray⟩

theorem agrees_of_mem_passStarts (hp : p.WellFormed) (he : .expr e ∈ p.nodes)
    (hlit : e.isLiteral = true) (hw : e.ownVisits? = some [w]) (hs : s ∈ p.passStarts config) :
    s.store.Agrees e := by
  refine Check.forall_starts (P := fun s => s.store.Agrees e) (fun s hs => ?_) ?_ s hs
  · exact hp.agrees_foldl_visit he hlit hw (List.Subset.refl _) hs.beginPass
  · exact ⟨fun m hm => by simp [initialState] at hm, fun _ => by simp [initialState]⟩

/-- From its visit on, a literal is known. -/
theorem knows_of_mem (hp : p.WellFormed) (he : .expr e ∈ p.nodes)
    (hlit : e.isLiteral = true) (hw : e.ownVisits? = some [w]) (hs : s ∈ p.passStarts config)
    (hvs : vs ⊆ p.visits) (hmem : w ∈ vs) :
    (vs.foldl (Check.visit (p.checkEnv config)) s.beginPass).store.Knows e := by
  have hagrees := hp.agrees_of_mem_passStarts he hlit hw hs
  refine (hp.agrees_foldl_visit he hlit hw hvs hagrees.beginPass).knows ?_
  obtain ⟨pre, post, rfl⟩ := List.append_of_mem hmem
  have hhas : (pre.foldl (Check.visit (p.checkEnv config)) s.beginPass).store.Has (.node e.id) := by
    rw [(Check.linked_moments (p.checkEnv config) pre s.beginPass).has_iff]
    exact has_node_of_mem_passStarts hs (hp.id_lt he)
  rw [List.foldl_append, List.foldl_cons]
  exact (Check.linked_moments _ post _).isSome_ty (Check.isSome_ty_visit_own hlit hw _ hhas)

end WellFormed

/-- Once an array literal of constants has been visited, the check of its elements by types and that
of its value agree, for every shape whose names are exact. -/
theorem admits_iff_accepts {tokens : List Token} {s : CheckState} {vs : List Visit} {n : Node}
    {es : List Element} {text : String} {shape : ArrayShape}
    (hp : Program.ofTokens tokens = .ok p) (hs : s ∈ p.passStarts config) (hvs : vs <+: p.visits)
    (hvisited : .arrayLiteral n es ∈ vs) (hes : Element.areLiterals es = true)
    (hshape : Descriptor.parse text = .ok shape)
    (hnames : ∀ name ∈ shape.names, ∃ t, name = .builtin t ∧ t ≠ .bint ∧ t ≠ .object)
    (validators : Validators) :
    ∃ v, (Expr.array n es).eval = some v ∧
      (shape.admits (vs.foldl (Check.visit (p.checkEnv config)) s.beginPass).store es = true ↔
        validators.accepts shape v = .ok true) := by
  have hwf := wellFormed_of_ofTokens hp
  have hlit : (Expr.array n es).isLiteral = true := by simpa [Expr.isLiteral] using hes
  obtain ⟨v, hv⟩ := (Expr.array n es).exists_eval_of_isLiteral hlit
  have hnodes := p.tidy.nodes_literal n es (hvs.subset hvisited)
  have helements := p.tidy.elements_literal n es vs hvs hvisited
  have hstands : (vs.foldl (Check.visit (p.checkEnv config)) s.beginPass).store.Stands
      (.array n es) v := by
    refine ⟨hlit, hv, fun x hx => ?_⟩
    obtain ⟨hx', w, hw, hown⟩ := (Expr.array n es).exists_ownVisit hlit {} x hx
    rw [Expr.visits] at hw
    refine hwf.knows_of_mem (hnodes hx) hx' hown hs hvs.subset ?_
    rcases List.mem_append.1 hw with hw | hw
    · exact helements hw
    · exact List.mem_singleton.1 hw ▸ hvisited
  obtain ⟨items, rfl, hitems⟩ := hstands.elements
  obtain ⟨t, -, ht⟩ := Descriptor.parse_eq_ok_iff.1 hshape
  exact ⟨_, hv, validators.admits_iff_of_denotes ht hnames es items hitems⟩

/-- A nested literal at the end of the first pass. Its value is of the shape, and so its elements
are found to be. -/
theorem admits_iff_accepts_of_nested :
    let shape : ArrayShape := ⟨.tuple [.elem (.builtin .int),
      .shape ⟨.nested ⟨.simple (.builtin .number), true, "number[+]"⟩, false, "number[+][]"⟩,
      .elem (.builtin .nul)], false, "<int,number[+][],nul>"⟩
    Descriptor.parse "<int,(number[+])[],nul>" = .ok shape ∧
    (∀ name ∈ shape.names, ∃ t, name = .builtin t ∧ t ≠ .bint ∧ t ≠ .object) ∧
    ∃ tokens p n es, Program.ofTokens tokens = .ok p ∧ .arrayLiteral n es ∈ p.visits ∧
      Element.areLiterals es = true ∧
      shape.admits (p.visits.foldl (Check.visit (p.checkEnv {}))
        (p.initialState p.resolve).beginPass).store es = true := by
  intro shape
  have hparse : Descriptor.parse "<int,(number[+])[],nul>" = .ok shape := by decide +kernel
  have hnames : ∀ name ∈ shape.names, ∃ t, name = .builtin t ∧ t ≠ .bint ∧ t ≠ .object := by
    simp [shape, ArrayShape.names, Contents.names, Member.namesList, Member.names]
  refine ⟨hparse, hnames, ?_⟩
  let isAccepted : Visit → Bool
    | .arrayLiteral n es => Element.areLiterals es &&
      (Expr.array n es).eval.any fun v => ({} : Validators).accepts shape v = .ok true
    | _ => false
  obtain ⟨p, hp, htest⟩ := exists_of_any "[9007199254740991, [[0.5], [1, 2]], null];"
    (fun p => p.visits.any isAccepted) (by decide +kernel)
  obtain ⟨tokens, -, hp⟩ := Parse.exists_of_bind_eq_ok hp
  obtain ⟨w, hw, haccepted⟩ := List.any_eq_true.1 htest
  cases w with
  | arrayLiteral n es =>
    simp only [isAccepted, Bool.and_eq_true, Option.any_eq_true, decide_eq_true_eq] at haccepted
    obtain ⟨hes, v, hv, hvalue⟩ := haccepted
    obtain ⟨v', hv', hiff⟩ := admits_iff_accepts hp (p.initialState_mem_passStarts {})
      (List.prefix_refl p.visits) hw hes hparse hnames {}
    obtain rfl := Option.some.inj (hv.symm.trans hv')
    exact ⟨tokens, p, n, es, hp, hw, hes, hiff.2 hvalue⟩
  | _ => simp [isAccepted] at haccepted

end Program

end TagCheck
