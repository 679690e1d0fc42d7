import Mathlib.Data.List.Forall2
import Mathlib.Order.Bounds.Basic
import TagCheck.Shape.Fits

/-! Which shapes may stand for each other, said without a search: the greatest relation that asks
of two function shapes what their parameters and results ask for. The search with its memory of
opened pairs decides this relation, on arenas with circles too. -/
namespace TagCheck

/-- A function shape stands for another, if `R` says so of the shapes inside: it has as many
parameters, each takes what the other's takes, and the other's result takes its result. -/
structure FuncShape.Stands (R : Option Shape → Option Shape → Prop) (f g : FuncShape) : Prop where
  params : List.Forall₂ (fun p q => q.ty.tag.fits p.ty.tag = true ∧ R q.shape p.shape)
    f.params g.params
  result : f.ret.ty.tag.fits g.ret.ty.tag = true ∧ R f.ret.shape g.ret.shape

namespace FuncShape

theorem Stands.mono {R S : Option Shape → Option Shape → Prop} {f g : FuncShape}
    (h : f.Stands R g) (hRS : ∀ x y, R x y → S x y) : f.Stands S g where
  params := h.params.imp fun _ _ hp => ⟨hp.1, hRS _ _ hp.2⟩
  result := ⟨h.result.1, hRS _ _ h.result.2⟩

theorem stands_iff {R : Option Shape → Option Shape → Prop} {f g : FuncShape} :
    f.Stands R g ↔ f.tagsFit g = true ∧ ∀ d ∈ f.demands g, R d.1 d.2 := by
  have hdem : (∀ d ∈ f.demands g, R d.1 d.2) ↔
      (∀ p ∈ f.params.zip g.params, R p.2.shape p.1.shape) ∧ R f.ret.shape g.ret.shape := by
    simp only [demands, List.mem_append, List.mem_map, List.mem_singleton, or_imp, forall_and,
      forall_eq, forall_exists_index, and_imp, forall_apply_eq_imp_iff₂]
  have htags : f.tagsFit g = true ↔ f.params.length = g.params.length ∧
      (∀ p ∈ f.params.zip g.params, p.2.ty.tag.fits p.1.ty.tag = true) ∧
      f.ret.ty.tag.fits g.ret.ty.tag = true := by
    simp only [tagsFit, Bool.and_eq_true, beq_iff_eq, List.all_eq_true, and_assoc]
  rw [hdem, htags]
  constructor
  · intro h
    obtain ⟨hlen, hzip⟩ := List.forall₂_iff_zip.1 h.params
    exact ⟨⟨hlen, fun p hp => (hzip hp).1, h.result.1⟩, fun p hp => (hzip hp).2, h.result.2⟩
  · rintro ⟨⟨hlen, htag, hret⟩, hshape, hres⟩
    exact ⟨List.forall₂_iff_zip.2 ⟨hlen, fun hp => ⟨htag _ hp, hshape _ hp⟩⟩, hret, hres⟩

end FuncShape

namespace Arena

/-- A demand is met once the pairs in `opened` are taken to fit. -/
def Met (opened : Set (FuncShapeId × FuncShapeId)) : Option Shape → Option Shape → Prop
  | none, none => True
  | some (.array s), some (.array t) => s.fits t = true
  | some (.func s), some (.func t) => s = t ∨ (s, t) ∈ opened
  | _, _ => False

/-- What the pairs in `opened` ask for is met by `opened` itself. Those in `granted` are exempt. -/
def Closed (a : Arena) (granted opened : Set (FuncShapeId × FuncShapeId)) : Prop :=
  ∀ s t, (s, t) ∈ opened → (s, t) ∉ granted →
    ∃ f g, a.get? s = some f ∧ a.get? t = some g ∧ f.Stands (Met opened) g

theorem Met.mono {o o' : Set (FuncShapeId × FuncShapeId)} (hsub : o ⊆ o') :
    ∀ x y, Met o x y → Met o' x y
  | none, none, _ => trivial
  | some (.array _), some (.array _), h => h
  | some (.func _), some (.func _), h => h.imp_right fun hmem => hsub hmem

/-- A set of pairs that shows why a search succeeds: it goes on from the pairs that were seen, it
is closed apart from them, and it meets what is still to be settled. -/
structure Certifies (a : Arena) (seen : List (FuncShapeId × FuncShapeId))
    (todo : List (Option Shape × Option Shape)) (opened : Set (FuncShapeId × FuncShapeId)) :
    Prop where
  extendsSeen : ∀ p ∈ seen, p ∈ opened
  closed : a.Closed {p | p ∈ seen} opened
  met : ∀ d ∈ todo, Met opened d.1 d.2

section

variable {a : Arena} {seen : List (FuncShapeId × FuncShapeId)}
  {todo : List (Option Shape × Option Shape)} {opened : Set (FuncShapeId × FuncShapeId)}

theorem certifies_cons_iff {d : Option Shape × Option Shape} :
    a.Certifies seen (d :: todo) opened ↔ Met opened d.1 d.2 ∧ a.Certifies seen todo opened := by
  constructor
  · intro h
    exact ⟨h.met d (List.mem_cons_self ..), h.extendsSeen, h.closed,
      fun e he => h.met e (List.mem_cons_of_mem d he)⟩
  · rintro ⟨hd, h⟩
    exact ⟨h.extendsSeen, h.closed, List.forall_mem_cons.2 ⟨hd, h.met⟩⟩

/-- Opening a pair trades its own demand for the demands of its parameters and results. -/
theorem certifies_open_iff {s t : FuncShapeId} {f g : FuncShape} (hst : s ≠ t)
    (hseen : (s, t) ∉ seen) (hf : a.get? s = some f) (hg : a.get? t = some g) :
    a.Certifies seen ((some (.func s), some (.func t)) :: todo) opened ↔
      f.tagsFit g = true ∧ a.Certifies ((s, t) :: seen) (f.demands g ++ todo) opened := by
  constructor
  · intro h
    obtain ⟨hmet, h⟩ := certifies_cons_iff.1 h
    have hmem : (s, t) ∈ opened := hmet.resolve_left hst
    obtain ⟨f', g', hf', hg', hfg⟩ := h.closed s t hmem hseen
    obtain rfl : f' = f := Option.some.inj (hf'.symm.trans hf)
    obtain rfl : g' = g := Option.some.inj (hg'.symm.trans hg)
    obtain ⟨htags, hdem⟩ := FuncShape.stands_iff.1 hfg
    refine ⟨htags, List.forall_mem_cons.2 ⟨hmem, h.extendsSeen⟩, ?_,
      List.forall_mem_append.2 ⟨hdem, h.met⟩⟩
    intro s' t' ho hne
    exact h.closed s' t' ho fun hin => hne (List.mem_cons_of_mem _ hin)
  · rintro ⟨htags, h⟩
    obtain ⟨hmem, hsub⟩ := List.forall_mem_cons.1 h.extendsSeen
    obtain ⟨hdem, hmet⟩ := List.forall_mem_append.1 h.met
    refine certifies_cons_iff.2 ⟨Or.inr hmem, hsub, ?_, hmet⟩
    intro s' t' ho hne
    by_cases heq : (s', t') = (s, t)
    · obtain ⟨rfl, rfl⟩ := Prod.mk.inj heq
      exact ⟨f, g, hf, hg, FuncShape.stands_iff.2 ⟨htags, hdem⟩⟩
    · exact h.closed s' t' ho fun hin => (List.mem_cons.1 hin).elim heq hne

end

/-- The search succeeds exactly when its success can be shown by a set of pairs. -/
theorem settle_eq_true_iff (a : Arena) (seen : List (FuncShapeId × FuncShapeId))
    (todo : List (Option Shape × Option Shape)) :
    a.settle seen todo = true ↔ ∃ opened, a.Certifies seen todo opened := by
  fun_induction settle a seen todo with
  | case1 seen =>
    simp only [true_iff]
    exact ⟨{p | p ∈ seen}, fun p hp => hp, fun s t h hne => absurd h hne, by simp⟩
  | case2 seen todo ih => simp [certifies_cons_iff, Met, ih]
  | case3 seen s t todo ih => simp [certifies_cons_iff, Met, ih]
  | case4 seen t todo ih => simp [certifies_cons_iff, Met, ih]
  | case5 seen s t todo hst hseen ih =>
    rw [ih]
    refine exists_congr fun opened => ⟨fun h => ?_, fun h => (certifies_cons_iff.1 h).2⟩
    exact certifies_cons_iff.2 ⟨Or.inr (h.extendsSeen _ hseen), h⟩
  | case6 seen s t todo hst hseen f g hf hg ih =>
    simp only [Bool.and_eq_true, ih, certifies_open_iff hst hseen hf hg, exists_and_left]
  | case7 seen s t todo hst hseen hmissing =>
    simp only [Bool.false_eq_true, false_iff]
    rintro ⟨opened, h⟩
    have hmem := (certifies_cons_iff.1 h).1.resolve_left hst
    obtain ⟨f, g, hf, hg, -⟩ := h.closed s t hmem hseen
    exact hmissing f g hf hg
  | case8 seen d todo hnone harray hfunc =>
    simp only [Bool.false_eq_true, false_iff]
    rintro ⟨opened, h⟩
    have hmet := (certifies_cons_iff.1 h).1
    rcases d with ⟨_ | _ | _, _ | _ | _⟩ <;> simp_all [Met]

theorem fits_eq_true_iff {a : Arena} {x y : Option Shape} :
    a.fits x y = true ↔ ∃ opened, a.Closed ∅ opened ∧ Met opened x y := by
  rw [fits, settle_eq_true_iff]
  constructor
  · rintro ⟨opened, h⟩
    exact ⟨opened, by simpa using h.closed, h.met _ (List.mem_singleton_self _)⟩
  · rintro ⟨opened, hclosed, hmet⟩
    exact ⟨opened, by simp, by simpa using hclosed, by simpa using hmet⟩

/-- A relation under which shapes may stand for each other: absent shapes for absent ones only,
arrays for arrays as they fit, and functions for themselves and for those that they stand for. -/
structure IsCompatibility (a : Arena) (R : Option Shape → Option Shape → Prop) : Prop where
  absent : R none none
  not_absent_left (t : Shape) : ¬ R none (some t)
  not_absent_right (s : Shape) : ¬ R (some s) none
  array (s t : ArrayShape) : R (some (.array s)) (some (.array t)) ↔ s.fits t = true
  not_array_func (s : ArrayShape) (t : FuncShapeId) : ¬ R (some (.array s)) (some (.func t))
  not_func_array (s : FuncShapeId) (t : ArrayShape) : ¬ R (some (.func s)) (some (.array t))
  func (s t : FuncShapeId) (h : R (some (.func s)) (some (.func t))) :
    s = t ∨ ∃ f g, a.get? s = some f ∧ a.get? t = some g ∧ f.Stands R g

/-- Every such relation is below the search: its pairs of functions are a closed set. -/
theorem IsCompatibility.fits {a : Arena} {R : Option Shape → Option Shape → Prop}
    (hR : a.IsCompatibility R) {x y : Option Shape} (h : R x y) : a.fits x y = true := by
  let opened : Set (FuncShapeId × FuncShapeId) :=
    {p | p.1 ≠ p.2 ∧ R (some (.func p.1)) (some (.func p.2))}
  have hmet : ∀ x y, R x y → Met opened x y := by
    intro x y h
    match x, y, h with
    | none, none, _ => trivial
    | none, some t, h => exact absurd h (hR.not_absent_left t)
    | some s, none, h => exact absurd h (hR.not_absent_right s)
    | some (.array s), some (.array t), h => exact (hR.array s t).1 h
    | some (.array s), some (.func t), h => exact absurd h (hR.not_array_func s t)
    | some (.func s), some (.array t), h => exact absurd h (hR.not_func_array s t)
    | some (.func s), some (.func t), h =>
      by_cases hst : s = t
      · exact Or.inl hst
      · exact Or.inr ⟨hst, h⟩
  refine fits_eq_true_iff.2 ⟨opened, ?_, hmet x y h⟩
  rintro s t ⟨hst, hfunc⟩ -
  obtain ⟨f, g, hf, hg, hfg⟩ := (hR.func s t hfunc).resolve_left hst
  exact ⟨f, g, hf, hg, hfg.mono hmet⟩

theorem isCompatibility_fits (a : Arena) : a.IsCompatibility fun x y => a.fits x y = true where
  absent := fits_eq_true_iff.2 ⟨∅, by simp [Closed], trivial⟩
  not_absent_left t h := (fits_eq_true_iff.1 h).elim fun _ ho => by cases t <;> exact ho.2
  not_absent_right s h := (fits_eq_true_iff.1 h).elim fun _ ho => by cases s <;> exact ho.2
  array s t := ⟨fun h => (fits_eq_true_iff.1 h).elim fun _ ho => ho.2,
    fun h => fits_eq_true_iff.2 ⟨∅, by simp [Closed], h⟩⟩
  not_array_func s t h := (fits_eq_true_iff.1 h).elim fun _ ho => ho.2
  not_func_array s t h := (fits_eq_true_iff.1 h).elim fun _ ho => ho.2
  func s t h := by
    obtain ⟨opened, hclosed, hmet⟩ := fits_eq_true_iff.1 h
    refine hmet.imp_right fun hst => ?_
    obtain ⟨f, g, hf, hg, hfg⟩ := hclosed s t hst (Set.notMem_empty _)
    exact ⟨f, g, hf, hg, hfg.mono fun x y hxy => fits_eq_true_iff.2 ⟨opened, hclosed, hxy⟩⟩

/-- A search under way: the pairs that were opened and the demands that are left. -/
structure Search where
  seen : List (FuncShapeId × FuncShapeId)
  todo : List (Option Shape × Option Shape)

/-- One move of a search that has not failed: the next demand is met by the pairs that are open,
or it opens a pair. -/
inductive Move (a : Arena) : Search → Search → Prop
  | meet {seen d todo} (h : Met {p | p ∈ seen} d.1 d.2) : Move a ⟨seen, d :: todo⟩ ⟨seen, todo⟩
  | opening {seen s t todo f g} (hst : s ≠ t) (hseen : (s, t) ∉ seen) (hf : a.get? s = some f)
      (hg : a.get? t = some g) (htags : f.tagsFit g = true) :
    Move a ⟨seen, (some (.func s), some (.func t)) :: todo⟩
      ⟨(s, t) :: seen, f.demands g ++ todo⟩

theorem work_move_lt {a : Arena} {c c' : Search} (h : a.Move c c') :
    a.work c'.seen c'.todo.length < a.work c.seen c.todo.length := by
  cases h with
  | meet h => simp [work]
  | opening hst hseen hf hg htags =>
    rw [List.length_append, List.length_cons]
    exact work_open_lt hf hg hseen

/-- No search goes on for ever: a move settles a demand or opens one more pair of the arena. -/
theorem move_wellFounded (a : Arena) : WellFounded fun c' c => a.Move c c' :=
  Subrelation.wf work_move_lt (measure fun c : Search => a.work c.seen c.todo.length).wf

theorem settle_move {a : Arena} {c c' : Search} (h : a.Move c c') :
    a.settle c.seen c.todo = a.settle c'.seen c'.todo := by
  rw [Bool.eq_iff_iff, settle_eq_true_iff, settle_eq_true_iff]
  cases h with
  | meet h =>
    refine exists_congr fun opened => ⟨fun hc => (certifies_cons_iff.1 hc).2, fun hc => ?_⟩
    exact certifies_cons_iff.2 ⟨Met.mono hc.extendsSeen _ _ h, hc⟩
  | opening hst hseen hf hg htags =>
    refine exists_congr fun opened => (certifies_open_iff hst hseen hf hg).trans ?_
    exact and_iff_right htags

theorem settle_run {a : Arena} {c c' : Search} (h : Relation.ReflTransGen a.Move c c') :
    a.settle c.seen c.todo = a.settle c'.seen c'.todo := by
  induction h with
  | refl => rfl
  | tail _ hmove ih => rw [ih, settle_move hmove]

theorem exists_run_of_settle {a : Arena} {seen : List (FuncShapeId × FuncShapeId)}
    {todo : List (Option Shape × Option Shape)} (h : a.settle seen todo = true) :
    ∃ seen', Relation.ReflTransGen a.Move ⟨seen, todo⟩ ⟨seen', []⟩ := by
  fun_induction settle a seen todo with
  | case1 seen => exact ⟨seen, .refl⟩
  | case2 seen todo ih =>
    obtain ⟨seen', hrun⟩ := ih h
    exact ⟨seen', .head (.meet trivial) hrun⟩
  | case3 seen s t todo ih =>
    obtain ⟨hst, h⟩ := Bool.and_eq_true_iff.1 h
    obtain ⟨seen', hrun⟩ := ih h
    exact ⟨seen', .head (.meet hst) hrun⟩
  | case4 seen t todo ih =>
    obtain ⟨seen', hrun⟩ := ih h
    exact ⟨seen', .head (.meet (Or.inl rfl)) hrun⟩
  | case5 seen s t todo hst hseen ih =>
    obtain ⟨seen', hrun⟩ := ih h
    exact ⟨seen', .head (.meet (Or.inr hseen)) hrun⟩
  | case6 seen s t todo hst hseen f g hf hg ih =>
    obtain ⟨htags, h⟩ := Bool.and_eq_true_iff.1 h
    obtain ⟨seen', hrun⟩ := ih h
    exact ⟨seen', .head (.opening hst hseen hf hg htags) hrun⟩
  | case7 => exact absurd h Bool.false_ne_true
  | case8 => exact absurd h Bool.false_ne_true

/-- The searches that arise on the way when two shapes are compared. -/
def Reaches (a : Arena) (x y : Option Shape) : Search → Prop :=
  Relation.ReflTransGen a.Move ⟨[], [(x, y)]⟩

theorem fits_iff_reaches {a : Arena} {x y : Option Shape} :
    a.fits x y = true ↔ ∃ seen, a.Reaches x y ⟨seen, []⟩ := by
  refine ⟨exists_run_of_settle, ?_⟩
  rintro ⟨seen, hrun⟩
  rw [fits, settle_run hrun, settle]

/-- What an opened pair asks for is either met by the opened pairs or still to be settled. -/
def Search.Accounted (a : Arena) (c : Search) : Prop :=
  ∀ s t, (s, t) ∈ c.seen → ∃ f g, a.get? s = some f ∧ a.get? t = some g ∧
    f.Stands (fun x y => (x, y) ∈ c.todo ∨ Met {p | p ∈ c.seen} x y) g

theorem Search.Accounted.move {a : Arena} {c c' : Search} (h : c.Accounted a)
    (hmove : a.Move c c') : c'.Accounted a := by
  cases hmove with
  | @meet seen d todo hd =>
    intro s t hst
    obtain ⟨f, g, hf, hg, hfg⟩ := h s t hst
    refine ⟨f, g, hf, hg, hfg.mono fun x y hxy => ?_⟩
    rcases hxy with hmem | hmet
    · rcases List.mem_cons.1 hmem with rfl | hmem
      · exact Or.inr hd
      · exact Or.inl hmem
    · exact Or.inr hmet
  | @opening seen s t todo f g hst hseen hf hg htags =>
    have hsub : {p | p ∈ seen} ⊆ {p | p ∈ (s, t) :: seen} := fun p hp => List.mem_cons_of_mem _ hp
    intro s' t' hmem
    rcases List.mem_cons.1 hmem with heq | hmem
    · -- The pair just opened: all that it asks for is put on the list.
      obtain ⟨rfl, rfl⟩ := Prod.mk.inj heq
      refine ⟨f, g, hf, hg, FuncShape.stands_iff.2 ⟨htags, fun d hd => Or.inl ?_⟩⟩
      exact List.mem_append_left todo hd
    · -- A pair opened before: if it asked for this one, it is met now.
      obtain ⟨f', g', hf', hg', hfg⟩ := h s' t' hmem
      refine ⟨f', g', hf', hg', hfg.mono fun x y hxy => ?_⟩
      rcases hxy with htodo | hmet
      · rcases List.mem_cons.1 htodo with heq | htodo
        · obtain ⟨rfl, rfl⟩ := Prod.mk.inj heq
          exact Or.inr (Or.inr (List.mem_cons_self ..))
        · exact Or.inl (List.mem_append_right _ htodo)
      · exact Or.inr (Met.mono hsub x y hmet)

theorem Reaches.accounted {a : Arena} {x y : Option Shape} {c : Search} (h : a.Reaches x y c) :
    c.Accounted a := by
  induction h with
  | refl =>
    intro s t hst
    exact absurd hst List.not_mem_nil
  | tail _ hmove ih => exact ih.move hmove

/-- If a comparison succeeds, then all pairs that it opens on the way do fit. -/
theorem Reaches.fits_of_mem_seen {a : Arena} {x y : Option Shape} {c : Search}
    (h : a.Reaches x y c) (hxy : a.fits x y = true) {s t : FuncShapeId} (hst : (s, t) ∈ c.seen) :
    a.fits (some (.func s)) (some (.func t)) = true := by
  obtain ⟨opened, hcert⟩ := (settle_eq_true_iff ..).1 ((settle_run h).symm.trans hxy)
  refine fits_eq_true_iff.2 ⟨opened, ?_, Or.inr (hcert.extendsSeen _ hst)⟩
  intro s' t' hopened _
  by_cases hseen : (s', t') ∈ c.seen
  · obtain ⟨f, g, hf, hg, hfg⟩ := h.accounted s' t' hseen
    refine ⟨f, g, hf, hg, hfg.mono fun x y hxy => ?_⟩
    exact hxy.elim (fun htodo => hcert.met _ htodo) (Met.mono hcert.extendsSeen x y)
  · exact hcert.closed s' t' hopened hseen

/-- The search ends on every arena, with circles or without, and what it decides is the greatest
compatibility, whichever pairs it took to fit on the way. -/
theorem fits_isGreatest_compatibility (a : Arena) :
    (WellFounded fun c' c => a.Move c c') ∧
    (∀ x y, a.fits x y = true ↔ ∃ seen, a.Reaches x y ⟨seen, []⟩) ∧
    IsGreatest {R | a.IsCompatibility R} (fun x y => a.fits x y = true) ∧
    ∀ x y seen s t todo, a.Reaches x y ⟨seen, (some (.func s), some (.func t)) :: todo⟩ →
      (s, t) ∈ seen →
      a.fits x y = (a.fits (some (.func s)) (some (.func t)) && a.settle seen todo) := by
  refine ⟨a.move_wellFounded, fun x y => fits_iff_reaches,
    ⟨isCompatibility_fits a, fun R hR x y h => hR.fits h⟩, ?_⟩
  intro x y seen s t todo h hst
  have hmove : a.Move ⟨seen, (some (.func s), some (.func t)) :: todo⟩ ⟨seen, todo⟩ :=
    .meet (Or.inr hst)
  have hrest : a.fits x y = a.settle seen todo := (settle_run h).trans (settle_move hmove)
  rw [← hrest]
  cases hxy : a.fits x y with
  | false => rw [Bool.and_false]
  | true => rw [h.fits_of_mem_seen hxy hst, Bool.and_self]

/-- Of two functions that return themselves either stands for the other: their pair comes back
while it is open. -/
theorem fits_of_self_returning :
    let f (id : FuncShapeId) : FuncShape :=
      ⟨[], false, ⟨.inferred .func, some (.func id), false, true⟩, some id⟩
    let a : Arena := ⟨#[f 0, f 1]⟩
    a.Reaches (some (.func 0)) (some (.func 1)) ⟨[(0, 1)], [(some (.func 0), some (.func 1))]⟩ ∧
      (0, 1) ∈ [((0 : FuncShapeId), (1 : FuncShapeId))] ∧
      a.fits (some (.func 0)) (some (.func 1)) =
        (a.fits (some (.func 0)) (some (.func 1)) && a.settle [(0, 1)] []) ∧
      a.fits (some (.func 0)) (some (.func 1)) = true := by
  intro f a
  have hmem : (0, 1) ∈ [((0 : FuncShapeId), (1 : FuncShapeId))] := List.mem_singleton_self _
  have hopen : a.Reaches (some (.func 0)) (some (.func 1))
      ⟨[(0, 1)], [(some (.func 0), some (.func 1))]⟩ :=
    .single (.opening (f := f 0) (g := f 1) (by decide) List.not_mem_nil rfl rfl (by decide))
  have hend : a.Reaches (some (.func 0)) (some (.func 1)) ⟨[(0, 1)], []⟩ :=
    hopen.tail (.meet (Or.inr hmem))
  obtain ⟨-, hends, -, hafresh⟩ := fits_isGreatest_compatibility a
  exact ⟨hopen, hmem, hafresh _ _ _ _ _ _ hopen hmem, (hends _ _).2 ⟨_, hend⟩⟩

end Arena
end TagCheck
