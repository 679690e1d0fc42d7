import TagCheck.Proofs.Shape.Gathered
import TagCheck.Proofs.Shape.Rendering
import TagCheck.Proofs.Value.LiteralAgreement

/-! The shapes that are inferred for array literals of constants. They follow from what is written,
so the store holds them from the visit of the literal on. A literal is of the shape that is inferred
for it exactly when all of it is as deep as the shape, and that fails where a constant stands beside
arrays of several shapes: the depth is the least of the arrays, and the constant is not counted. -/
namespace TagCheck

namespace Element

theorem exists_item_of_areLiterals {es : List Element} (hes : areLiterals es = true)
    {element : Element} (h : element ∈ es) : ∃ e, element = .item e ∧ e.isLiteral = true := by
  induction es with
  | nil => simp at h
  | cons first es ih =>
    cases first with
    | item e =>
      simp only [areLiterals, Bool.and_eq_true] at hes
      rcases List.mem_cons.1 h with rfl | h
      · exact ⟨e, rfl, hes.1⟩
      · exact ih hes.2 h
    | _ => simp [areLiterals] at hes

theorem isLiteral_of_mem {es : List Element} (hes : areLiterals es = true) {e : Expr}
    (h : .item e ∈ es) : e.isLiteral = true := by
  obtain ⟨_, ⟨⟩, he⟩ := exists_item_of_areLiterals hes h
  exact he

theorem areLiterals_of_mem {es ds : List Element} (hes : areLiterals es = true) {n : Node}
    (h : .item (.array n ds) ∈ es) : areLiterals ds = true := by
  simpa [Expr.isLiteral] using isLiteral_of_mem hes h

/-- Induction over literals, from the arrays among the elements to the whole. -/
theorem literals_induction {P : List Element → Prop}
    (step : ∀ es, areLiterals es = true → (∀ n ds, .item (.array n ds) ∈ es → P ds) → P es)
    (es : List Element) (hes : areLiterals es = true) : P es :=
  step es hes fun n ds h => literals_induction step ds (areLiterals_of_mem hes h)
termination_by sizeOf es
decreasing_by
  have hlt := List.sizeOf_lt_of_mem h
  simp only [Element.item.sizeOf_spec, Expr.array.sizeOf_spec] at hlt
  omega

theorem nodes_subset_of_mem {es : List Element} {e : Expr} (h : .item e ∈ es) :
    e.nodes ⊆ nodes es := by
  induction es with
  | nil => simp at h
  | cons first es ih =>
    rcases List.mem_cons.1 h with rfl | h
    · rw [nodes]
      exact List.subset_append_left ..
    · refine List.Subset.trans (ih h) ?_
      cases first <;> simp [nodes]

end Element

/-- A constant of the type of arrays is an array. -/
theorem Expr.exists_array_of_literalTag {e : Expr} (he : e.isLiteral = true)
    (h : e.literalTag = .array) : ∃ n es, e = .array n es := by
  cases e with
  | array n es => exact ⟨n, es, rfl⟩
  | number n x =>
    simp only [literalTag, Double.tag] at h
    split at h
    · cases h
    · split at h <;> cases h
  | bigint | str | bool | null | regex => cases h
  | _ => simp [isLiteral] at he

/-! What is inferred from the text of a literal. -/

mutual

def Expr.literalShape? : Expr → Option ArrayShape
  | .array _ es => some (Element.gather {} es).toShape
  | _ => none

def Element.gather (g : Gathered) : List Element → Gathered
  | .item e :: es => Element.gather ((g.addTag e.literalTag).addShape e.literalShape?) es
  | _ => g

end

def Element.literalShape (es : List Element) : ArrayShape := (Element.gather {} es).toShape

namespace Element

variable {es : List Element} {g : Gathered}

theorem mem_tags_gather (hes : areLiterals es = true) {t : Tag} :
    t ∈ (gather g es).tags ↔ t ∈ g.tags ∨ ∃ e, .item e ∈ es ∧ e.literalTag = t := by
  induction es generalizing g with
  | nil => simp [gather]
  | cons first es ih =>
    cases first with
    | item e =>
      simp only [areLiterals, Bool.and_eq_true] at hes
      rw [gather, ih hes.2, Gathered.tags_addShape, Gathered.mem_tags_addTag]
      grind
    | _ => simp [areLiterals] at hes

theorem of_mem_shapes_gather {s : ArrayShape} (h : s ∈ (gather g es).shapes) :
    s ∈ g.shapes ∨ ∃ e, .item e ∈ es ∧ e.literalShape? = some s := by
  induction es generalizing g with
  | nil => exact .inl h
  | cons first es ih =>
    cases first with
    | item e =>
      rw [gather] at h
      rcases ih h with h | ⟨x, hx, hs⟩
      · rcases Gathered.of_mem_shapes_addShape h with h | h
        · exact .inl (by simpa using h)
        · exact .inr ⟨e, by simp, h⟩
      · exact .inr ⟨x, by simp [hx], hs⟩
    | _ => exact .inl h

theorem exists_mem_shapes_gather (hes : areLiterals es = true) {s : ArrayShape}
    (h : (∃ e, .item e ∈ es ∧ e.literalShape? = some s) ∨
      ∃ t ∈ g.shapes, t.description = s.description) :
    ∃ t ∈ (gather g es).shapes, t.description = s.description := by
  induction es generalizing g with
  | nil => simpa [gather] using h
  | cons first es ih =>
    cases first with
    | item e =>
      simp only [areLiterals, Bool.and_eq_true] at hes
      rw [gather]
      refine ih hes.2 ?_
      rcases h with ⟨x, hx, hs⟩ | h
      · rcases List.mem_cons.1 hx with hx | hx
        · cases hx
          exact .inr (Gathered.exists_mem_shapes_addShape (.inl hs))
        · exact .inl ⟨x, hx, hs⟩
      · exact .inr (Gathered.exists_mem_shapes_addShape (.inr (by simpa using h)))
    | _ => simp [areLiterals] at hes

theorem pairwise_gather (es : List Element)
    (h : g.shapes.Pairwise fun s t => s.description ≠ t.description) :
    (gather g es).shapes.Pairwise fun s t => s.description ≠ t.description := by
  induction es generalizing g with
  | nil => exact h
  | cons first es ih =>
    cases first with
    | item e =>
      rw [gather]
      exact ih (Gathered.pairwise_addShape _ (by simpa using h))
    | _ => exact h

end Element

/-- What can be inferred from constants: a canonical shape of arrays whose elements are known. -/
structure ArrayShape.IsInferred (s : ArrayShape) : Prop where
  canonical : s.IsCanonical
  known : .builtin .unknown ∉ s.names
  depth_pos : 0 < s.depth

namespace ArrayShape

theorem IsInferred.eq_of_description {s t : ArrayShape} (hs : s.IsInferred) (ht : t.IsInferred)
    (h : s.description = t.description) : s = t := by
  have hsame {s : ArrayShape} (hs : s.IsInferred) : s.mapNames ElemName.spelled = s := by
    refine s.mapNames_eq_self fun e he => ElemName.spelled_eq_self ?_
    rintro rfl
    exact hs.known he
  rw [← hsame hs, ← hsame ht]
  exact hs.canonical.mapNames_eq ht.canonical h

theorem isInferred_ofElem {t : Tag} (ht : t ≠ .unknown) : (ofElem (.builtin t)).IsInferred where
  canonical := isCanonical_ofElem t
  known := by simpa [ofElem, names, Contents.names] using ht.symm
  depth_pos := by simp [ofElem, depth]

@[simp] theorem depth_arrayOf (s : ArrayShape) : (arrayOf s).depth = s.depth + 1 := by
  simp [arrayOf, depth, Nat.add_comm]

theorem IsInferred.arrayOf {s : ArrayShape} (h : s.IsInferred) :
    (ArrayShape.arrayOf s).IsInferred where
  canonical := h.canonical.arrayOf
  known := by simpa [ArrayShape.arrayOf, names, Contents.names] using h.known
  depth_pos := by simp

theorem isInferred_nestedAny (d : Nat) : (nestedAny d).IsInferred := by
  induction d with
  | zero => exact isInferred_ofElem (by decide)
  | succ d ih => exact ih.arrayOf

@[simp] theorem depth_nestedAny (d : Nat) : (nestedAny d).depth = d + 1 := by
  induction d with
  | zero => rfl
  | succ d ih => rw [nestedAny, depth_arrayOf, ih]

end ArrayShape

theorem Gathered.isInferred_toShape {g : Gathered} (htags : .unknown ∉ g.tags)
    (hshapes : ∀ s ∈ g.shapes, s.IsInferred) : g.toShape.IsInferred := by
  rcases g.toShape_cases with ⟨d, heq⟩ | ⟨s, hs, heq⟩ | ⟨t, ht, heq⟩
  · exact heq ▸ ArrayShape.isInferred_nestedAny d
  · exact heq ▸ (hshapes s hs).arrayOf
  · have hknown : t ≠ .unknown := fun hunknown => htags (hunknown ▸ ht)
    exact heq ▸ ArrayShape.isInferred_ofElem hknown

namespace Element

variable {es : List Element}

theorem unknown_notMem_tags_gather (hes : areLiterals es = true) :
    .unknown ∉ (gather {} es).tags := by
  intro h
  rcases (mem_tags_gather hes).1 h with h | ⟨e, he, htag⟩
  · simp at h
  · have hknown := e.isKnown_literalTag (isLiteral_of_mem hes he)
    rw [htag] at hknown
    cases hknown

theorem exists_array_of_mem_shapes {s : ArrayShape} (h : s ∈ (gather {} es).shapes) :
    ∃ n ds, .item (.array n ds) ∈ es ∧ literalShape ds = s := by
  rcases of_mem_shapes_gather h with h | ⟨e, he, hs⟩
  · simp at h
  · cases e with
    | array n ds => exact ⟨n, ds, he, by simpa [Expr.literalShape?, literalShape] using hs⟩
    | _ => simp [Expr.literalShape?] at hs

theorem isInferred_literalShape (hes : areLiterals es = true) : (literalShape es).IsInferred := by
  refine literals_induction (P := fun es => (literalShape es).IsInferred) (fun es hes ih => ?_)
    es hes
  refine Gathered.isInferred_toShape (unknown_notMem_tags_gather hes) fun s hs => ?_
  obtain ⟨n, ds, hds, rfl⟩ := exists_array_of_mem_shapes hs
  exact ih n ds hds

/-- The shapes that are gathered are those of the arrays among the elements. -/
theorem mem_shapes_gather (hes : areLiterals es = true) {s : ArrayShape} :
    s ∈ (gather {} es).shapes ↔ ∃ n ds, .item (.array n ds) ∈ es ∧ literalShape ds = s := by
  refine ⟨exists_array_of_mem_shapes, ?_⟩
  rintro ⟨n, ds, hds, rfl⟩
  have hshape : (Expr.array n ds).literalShape? = some (literalShape ds) := by
    simp [Expr.literalShape?, literalShape]
  obtain ⟨t, ht, hdesc⟩ := exists_mem_shapes_gather (g := {}) hes (.inl ⟨_, hds, hshape⟩)
  obtain ⟨m, ds', hds', rfl⟩ := exists_array_of_mem_shapes ht
  have hsame := (isInferred_literalShape (areLiterals_of_mem hes hds')).eq_of_description
    (isInferred_literalShape (areLiterals_of_mem hes hds)) hdesc
  exact hsame ▸ ht

/-! The depth of literals. -/

/-- Whether a literal is of a depth: whatever stands less deep in it is an array. -/
def haveDepth : Nat → List Element → Bool
  | d + 2, es => es.all fun
    | .item (.array _ ds) => haveDepth (d + 1) ds
    | _ => false
  | _, _ => true

theorem haveDepth_succ_iff {d : Nat} : haveDepth (d + 2) es = true ↔
    ∀ element ∈ es, ∃ n ds, element = .item (.array n ds) ∧ haveDepth (d + 1) ds = true := by
  rw [haveDepth, List.all_eq_true]
  refine forall₂_congr fun element _ => ?_
  split
  · simp
  · next hnot =>
    refine ⟨fun h => absurd h (by simp), ?_⟩
    rintro ⟨n, ds, rfl, -⟩
    exact absurd rfl (hnot n ds)

theorem haveDepth_mono {d d' : Nat} (hle : d ≤ d') (h : haveDepth d' es = true) :
    haveDepth d es = true := by
  induction d' generalizing d es with
  | zero =>
    obtain rfl := Nat.le_zero.1 hle
    rfl
  | succ d' ih =>
    rcases d with _ | _ | d
    · rfl
    · rfl
    rcases d' with _ | d'
    · omega
    rw [haveDepth_succ_iff] at h ⊢
    intro element helement
    obtain ⟨n, ds, heq, hds⟩ := h element helement
    exact ⟨n, ds, heq, ih (by omega) hds⟩

end Element

/-! What the store holds for literals. -/

namespace Store

variable {s : Store} {es : List Element}

/-- The store holds the type and the shape of a literal, or that it has none. -/
structure Finds (s : Store) (e : Expr) : Prop where
  tag : s.tag (.node e.id) = e.literalTag
  shape : s.shape? (.node e.id) = e.literalShape?.map .array

def FindsAll (s : Store) (es : List Element) : Prop :=
  ∀ e, .expr e ∈ Element.nodes es → s.Finds e

theorem FindsAll.item (h : s.FindsAll es) {e : Expr} (he : .item e ∈ es) : s.Finds e :=
  h e (Element.nodes_subset_of_mem he e.mem_nodes)

theorem FindsAll.array (h : s.FindsAll es) {n : Node} {ds : List Element}
    (hds : .item (.array n ds) ∈ es) : s.FindsAll ds := by
  intro e he
  refine h e (Element.nodes_subset_of_mem hds ?_)
  rw [Expr.nodes]
  exact List.mem_cons_of_mem _ he

theorem elements_eq_gather (hes : Element.areLiterals es = true)
    (h : ∀ e, .item e ∈ es → s.Finds e) (g : Gathered) :
    g.elements s es = Element.gather g es := by
  induction es generalizing g with
  | nil => rfl
  | cons first es ih =>
    cases first with
    | item e =>
      simp only [Element.areLiterals, Bool.and_eq_true] at hes
      have he := h e (by simp)
      have hshape : (s.shape? (.node e.id)).bind Shape.asArray? = e.literalShape? := by
        rw [he.shape]
        cases e.literalShape? <;> rfl
      rw [Gathered.elements, Element.gather, he.tag, hshape, if_pos (e.isKnown_literalTag hes.1)]
      exact ih hes.2 (fun x hx => h x (by simp [hx])) _
    | _ => simp [Element.areLiterals] at hes

theorem inferArrayShape_eq (hes : Element.areLiterals es = true)
    (h : ∀ e, .item e ∈ es → s.Finds e) : s.inferArrayShape es = Element.literalShape es := by
  rw [inferArrayShape, elements_eq_gather hes h, Element.literalShape]

end Store

namespace ArrayShape

variable {s : Store} {es : List Element}

/-- An array of arrays asks for arrays, and each of them for the inner shape. -/
theorem admits_arrayOf_iff (hes : Element.areLiterals es = true) (h : s.FindsAll es)
    {t : ArrayShape} : (arrayOf t).admits s es = true ↔
      ∀ element ∈ es, ∃ n ds, element = .item (.array n ds) ∧ t.admits s ds = true := by
  rw [arrayOf, admits, Contents.admits_nested]
  simp only [Bool.false_and, Bool.not_false, Bool.true_and, List.all_eq_true]
  refine forall₂_congr fun element helement => ?_
  obtain ⟨e, rfl, -⟩ := Element.exists_item_of_areLiterals hes helement
  rw [Member.admits_shape]
  by_cases harray : Check.arrayElements? e = none
  · have hshape : s.shape? (.node e.id) = none := by
      rw [(h.item helement).shape]
      cases e with
      | array n ds => simp [Check.arrayElements?] at harray
      | _ => rfl
    rw [Store.valueFits_of_shape?_eq_none harray hshape]
    refine ⟨fun h => absurd h (by simp), ?_⟩
    rintro ⟨n, ds, ⟨⟩, -⟩
    simp [Check.arrayElements?] at harray
  · cases e with
    | array n ds => simp [Store.valueFits]
    | _ => simp [Check.arrayElements?] at harray

theorem admits_any (hes : Element.areLiterals es = true) (h : s.FindsAll es) :
    any.admits s es = true := by
  simp only [any, ofElem, admits, Contents.admits, Bool.false_and, Bool.not_false, Bool.true_and,
    List.all_eq_true]
  intro element helement
  obtain ⟨e, rfl, he⟩ := Element.exists_item_of_areLiterals hes helement
  have hknown := e.isKnown_literalTag he
  rw [Store.elementHasType, (h.item helement).tag, ElemName.builtin_fits_builtin, Tag.fits_iff]
  simpa using hknown

theorem admits_nestedAny_iff {d : Nat} (hes : Element.areLiterals es = true) (h : s.FindsAll es) :
    (nestedAny d).admits s es = true ↔ Element.haveDepth (d + 1) es = true := by
  induction d generalizing es with
  | zero =>
    rw [nestedAny, admits_any hes h]
    exact ⟨fun _ => rfl, fun _ => rfl⟩
  | succ d ih =>
    rw [nestedAny, admits_arrayOf_iff hes h, Element.haveDepth_succ_iff]
    refine forall₂_congr fun element helement => exists_congr fun n => exists_congr fun ds =>
      and_congr_right ?_
    rintro rfl
    exact ih (Element.areLiterals_of_mem hes helement) (h.array helement)

end ArrayShape

/-! The rules of inference. -/

theorem eq_of_mem_of_not_cons_cons {α : Type} {l : List α} (h : ∀ a b r, l = a :: b :: r → False)
    {x y : α} (hx : x ∈ l) (hy : y ∈ l) : x = y := by
  rcases l with _ | ⟨a, _ | ⟨b, r⟩⟩
  · simp at hx
  · rw [List.mem_singleton.1 hx, List.mem_singleton.1 hy]
  · exact (h a b r rfl).elim

theorem foldl_min_depth_le (l : List ArrayShape) (d : Nat) :
    l.foldl (fun d s => min d s.depth) d ≤ d ∧
      ∀ s ∈ l, l.foldl (fun d s => min d s.depth) d ≤ s.depth := by
  induction l generalizing d with
  | nil => simp
  | cons t l ih =>
    obtain ⟨hfirst, hrest⟩ := ih (min d t.depth)
    rw [List.foldl_cons, List.forall_mem_cons]
    exact ⟨hfirst.trans (Nat.min_le_left ..), hfirst.trans (Nat.min_le_right ..), hrest⟩

theorem foldl_min_depth_pos {l : List ArrayShape} {d : Nat} (hd : 0 < d)
    (hl : ∀ s ∈ l, 0 < s.depth) : 0 < l.foldl (fun d s => min d s.depth) d := by
  induction l generalizing d with
  | nil => exact hd
  | cons t l ih =>
    obtain ⟨ht, hl⟩ := List.forall_mem_cons.1 hl
    exact ih (Nat.lt_min.2 ⟨hd, ht⟩) hl

namespace Element

variable {s : Store} {es : List Element}

/-- How the shape of a literal follows from its elements. -/
inductive Infers (es : List Element) : ArrayShape → Prop
  /-- Arrays of several shapes, whatever else there is. -/
  | several {d : Nat} {n₁ n₂ : Node} {ds₁ ds₂ : List Element} (hd : 0 < d)
    (hle : ∀ n ds, .item (.array n ds) ∈ es → d ≤ (literalShape ds).depth)
    (h₁ : .item (.array n₁ ds₁) ∈ es) (h₂ : .item (.array n₂ ds₂) ∈ es)
    (hne : literalShape ds₁ ≠ literalShape ds₂) : Infers es (.nestedAny d)
  /-- Elements of several types, with arrays of one shape at most. -/
  | mixed (h : ∀ n₁ ds₁ n₂ ds₂, .item (.array n₁ ds₁) ∈ es → .item (.array n₂ ds₂) ∈ es →
      literalShape ds₁ = literalShape ds₂) : Infers es .any
  | arrays {t : ArrayShape} (ht : 0 < t.depth)
    (h : ∀ element ∈ es, ∃ n ds, element = .item (.array n ds) ∧ literalShape ds = t) :
    Infers es (.arrayOf t)
  | constants {t : Tag} (ht : t ≠ .unknown) (hne : t ≠ .array)
    (h : ∀ e, .item e ∈ es → e.literalTag = t) : Infers es (.ofElem (.builtin t))

section

variable (hes : areLiterals es = true)
include hes

theorem literalTag_mem_gather {e : Expr} (he : .item e ∈ es) :
    e.literalTag ∈ (gather {} es).tags :=
  (mem_tags_gather hes).2 (.inr ⟨e, he, rfl⟩)

theorem literalShape_mem_gather {n : Node} {ds : List Element} (hds : .item (.array n ds) ∈ es) :
    literalShape ds ∈ (gather {} es).shapes :=
  (mem_shapes_gather hes).2 ⟨n, ds, hds, rfl⟩

theorem depth_pos_of_mem_gather {t : ArrayShape} (ht : t ∈ (gather {} es).shapes) :
    0 < t.depth := by
  obtain ⟨n, ds, hds, rfl⟩ := (mem_shapes_gather hes).1 ht
  exact (isInferred_literalShape (areLiterals_of_mem hes hds)).depth_pos

theorem infers_of_several {t u : ArrayShape} {rest : List ArrayShape}
    (hshapes : (gather {} es).shapes = t :: u :: rest) :
    Infers es (.nestedAny ((u :: rest).foldl (fun d s => min d s.depth) t.depth)) := by
  have hpos {x : ArrayShape} (hx : x ∈ t :: u :: rest) : 0 < x.depth :=
    depth_pos_of_mem_gather hes (hshapes ▸ hx)
  obtain ⟨n₁, ds₁, h₁, hds₁⟩ := (mem_shapes_gather hes (s := t)).1 (by simp [hshapes])
  obtain ⟨n₂, ds₂, h₂, hds₂⟩ := (mem_shapes_gather hes (s := u)).1 (by simp [hshapes])
  have hle (n : Node) (ds : List Element) (hds : .item (.array n ds) ∈ es) :
      (u :: rest).foldl (fun d s => min d s.depth) t.depth ≤ (literalShape ds).depth := by
    obtain ⟨hfirst, hrest⟩ := foldl_min_depth_le (u :: rest) t.depth
    have hin := literalShape_mem_gather hes hds
    rw [hshapes] at hin
    rcases List.mem_cons.1 hin with heq | hin
    · exact heq ▸ hfirst
    · exact hrest _ hin
  have hne : literalShape ds₁ ≠ literalShape ds₂ := by
    have hdistinct := pairwise_gather (g := {}) es .nil
    rw [hshapes, List.pairwise_cons] at hdistinct
    rw [hds₁, hds₂]
    exact fun heq => hdistinct.1 u (by simp) (congrArg _ heq)
  refine .several (foldl_min_depth_pos (hpos (by simp)) fun x hx => hpos ?_) hle h₁ h₂ hne
  exact List.mem_cons_of_mem _ hx

theorem infers_of_constants {t : Tag} (hshapes : (gather {} es).shapes = [])
    (htags : (gather {} es).tags = [t]) : Infers es (.ofElem (.builtin t)) := by
  have hconstant (e : Expr) (he : .item e ∈ es) : e.literalTag = t := by
    have hin := literalTag_mem_gather hes he
    rw [htags] at hin
    exact List.mem_singleton.1 hin
  refine .constants ?_ ?_ hconstant
  · rintro rfl
    exact unknown_notMem_tags_gather hes (by simp [htags])
  · rintro rfl
    obtain ⟨e, he, hearray⟩ : ∃ e, .item e ∈ es ∧ e.literalTag = .array := by
      have hin : Tag.array ∈ (gather {} es).tags := by simp [htags]
      exact ((mem_tags_gather hes).1 hin).resolve_left (by simp)
    obtain ⟨n, ds, rfl⟩ := Expr.exists_array_of_literalTag (isLiteral_of_mem hes he) hearray
    have hin := literalShape_mem_gather hes he
    simp [hshapes] at hin

theorem infers_literalShape : Infers es (literalShape es) := by
  rw [literalShape, Gathered.toShape]
  split
  · next hshapes => exact infers_of_several hes hshapes
  · next hone =>
    exact .mixed fun n₁ ds₁ n₂ ds₂ h₁ h₂ => eq_of_mem_of_not_cons_cons hone
      (literalShape_mem_gather hes h₁) (literalShape_mem_gather hes h₂)
  · next t hshapes hone =>
    have ht : t ∈ (gather {} es).shapes := by simp [hshapes]
    obtain ⟨m, ds₀, hds₀, -⟩ := (mem_shapes_gather hes).1 ht
    refine .arrays (depth_pos_of_mem_gather hes ht) fun element helement => ?_
    obtain ⟨e, rfl, he⟩ := exists_item_of_areLiterals hes helement
    have harray : e.literalTag = .array := eq_of_mem_of_not_cons_cons hone
      (literalTag_mem_gather hes helement) (literalTag_mem_gather hes hds₀)
    obtain ⟨n, ds, rfl⟩ := Expr.exists_array_of_literalTag he harray
    have hin := literalShape_mem_gather hes helement
    rw [hshapes] at hin
    exact ⟨n, ds, rfl, List.mem_singleton.1 hin⟩
  · next hshapes htags => exact infers_of_constants hes hshapes htags
  · next hshapes htags =>
    refine .mixed fun n₁ ds₁ n₂ ds₂ h₁ h₂ => ?_
    have hin := literalShape_mem_gather hes h₁
    simp [hshapes] at hin

end

/-- A literal is of its own shape exactly when it is as deep as that. -/
theorem admits_literalShape_iff (hes : areLiterals es = true) (h : s.FindsAll es) :
    (literalShape es).admits s es = true ↔ haveDepth (literalShape es).depth es = true := by
  refine literals_induction (P := fun es => s.FindsAll es →
    ((literalShape es).admits s es = true ↔ haveDepth (literalShape es).depth es = true))
    (fun es hes ih h => ?_) es hes h
  have hinfers := infers_literalShape hes
  generalize literalShape es = shape at hinfers
  cases hinfers with
  | several =>
    rw [ArrayShape.depth_nestedAny]
    exact ArrayShape.admits_nestedAny_iff hes h
  | mixed => exact ArrayShape.admits_nestedAny_iff (d := 0) hes h
  | @arrays t ht harrays =>
    obtain ⟨k, hk⟩ := Nat.exists_eq_succ_of_ne_zero ht.ne'
    rw [ArrayShape.admits_arrayOf_iff hes h, ArrayShape.depth_arrayOf, hk, haveDepth_succ_iff]
    refine forall₂_congr fun element helement => exists_congr fun n => exists_congr fun ds =>
      and_congr_right ?_
    rintro rfl
    obtain ⟨_, _, ⟨⟩, rfl⟩ := harrays _ helement
    rw [← Nat.succ_eq_add_one, ← hk]
    exact ih n ds helement (h.array helement)
  | @constants t ht _ hconstants =>
    refine ⟨fun _ => rfl, fun _ => ?_⟩
    simp only [ArrayShape.ofElem, ArrayShape.admits, Contents.admits, Bool.false_and,
      Bool.not_false, Bool.true_and, List.all_eq_true]
    intro element helement
    obtain ⟨e, rfl, -⟩ := exists_item_of_areLiterals hes helement
    rw [Store.elementHasType, (h.item helement).tag, hconstants e helement,
      ElemName.builtin_fits_builtin, Tag.fits_iff]
    exact ⟨ht, ht, .inl rfl⟩

end Element

/-- A constant stands beside arrays for which several shapes are inferred. -/
def Store.Mixes (s : Store) (es : List Element) : Prop :=
  ∃ e, .item e ∈ es ∧ Check.arrayElements? e = none ∧
    ∃ n₁ ds₁ n₂ ds₂, .item (.array n₁ ds₁) ∈ es ∧ .item (.array n₂ ds₂) ∈ es ∧
      s.inferArrayShape ds₁ ≠ s.inferArrayShape ds₂

theorem Store.FindsAll.inferArrayShape_eq {s : Store} {es : List Element} (h : s.FindsAll es)
    (hes : Element.areLiterals es = true) : s.inferArrayShape es = Element.literalShape es :=
  Store.inferArrayShape_eq hes fun _ he => h.item he

namespace Element

variable {s : Store} {es : List Element}

/-- Where no constant stands beside arrays of several shapes, a literal is as deep as its shape. -/
theorem haveDepth_of_not_mixes (hes : areLiterals es = true) (h : s.FindsAll es)
    (hmix : ¬ s.Mixes es) (hinner : ∀ m ds, .expr (.array m ds) ∈ nodes es → ¬ s.Mixes ds) :
    haveDepth (literalShape es).depth es = true := by
  refine literals_induction (P := fun es => s.FindsAll es → ¬ s.Mixes es →
    (∀ m ds, .expr (.array m ds) ∈ nodes es → ¬ s.Mixes ds) →
    haveDepth (literalShape es).depth es = true) (fun es hes ih h hmix hinner => ?_)
    es hes h hmix hinner
  have hdeep (n : Node) (ds : List Element) (hds : .item (.array n ds) ∈ es) :
      haveDepth (literalShape ds).depth ds = true := by
    have hsub := nodes_subset_of_mem hds
    rw [Expr.nodes] at hsub
    exact ih n ds hds (h.array hds) (hinner n ds (hsub (by simp))) fun m ds' hds' =>
      hinner m ds' (hsub (by simp [hds']))
  have hinfers := infers_literalShape hes
  generalize literalShape es = shape at hinfers
  cases hinfers with
  | @several d n₁ n₂ ds₁ ds₂ hd hle h₁ h₂ hne =>
    obtain ⟨k, rfl⟩ := Nat.exists_eq_succ_of_ne_zero hd.ne'
    rw [ArrayShape.depth_nestedAny, haveDepth_succ_iff]
    intro element helement
    obtain ⟨e, rfl, -⟩ := exists_item_of_areLiterals hes helement
    by_cases harray : Check.arrayElements? e = none
    · rw [← (h.array h₁).inferArrayShape_eq (areLiterals_of_mem hes h₁),
        ← (h.array h₂).inferArrayShape_eq (areLiterals_of_mem hes h₂)] at hne
      exact absurd ⟨e, helement, harray, n₁, ds₁, n₂, ds₂, h₁, h₂, hne⟩ hmix
    · cases e with
      | array n ds =>
        exact ⟨n, ds, rfl, haveDepth_mono (hle n ds helement) (hdeep n ds helement)⟩
      | _ => simp [Check.arrayElements?] at harray
  | mixed | constants => rfl
  | @arrays t ht harrays =>
    obtain ⟨k, hk⟩ := Nat.exists_eq_succ_of_ne_zero ht.ne'
    rw [ArrayShape.depth_arrayOf, hk, haveDepth_succ_iff]
    intro element helement
    obtain ⟨n, ds, rfl, rfl⟩ := harrays element helement
    have hds := hdeep n ds helement
    rw [hk] at hds
    exact ⟨n, ds, rfl, hds⟩

/-- A constant beside arrays of several shapes is not as deep as they are. -/
theorem haveDepth_of_mixes (hes : areLiterals es = true) (h : s.FindsAll es)
    (hmix : s.Mixes es) : haveDepth (literalShape es).depth es = false := by
  obtain ⟨e, he, hconstant, n₁, ds₁, n₂, ds₂, h₁, h₂, hne⟩ := hmix
  rw [(h.array h₁).inferArrayShape_eq (areLiterals_of_mem hes h₁),
    (h.array h₂).inferArrayShape_eq (areLiterals_of_mem hes h₂)] at hne
  have hinfers := infers_literalShape hes
  generalize literalShape es = shape at hinfers
  cases hinfers with
  | @several d _ _ _ _ hd =>
    obtain ⟨k, rfl⟩ := Nat.exists_eq_succ_of_ne_zero hd.ne'
    rw [ArrayShape.depth_nestedAny, ← Bool.not_eq_true, haveDepth_succ_iff]
    intro hall
    obtain ⟨n, ds, ⟨⟩, -⟩ := hall _ he
    simp [Check.arrayElements?] at hconstant
  | mixed hone => exact absurd (hone n₁ ds₁ n₂ ds₂ h₁ h₂) hne
  | arrays _ harrays =>
    obtain ⟨n, ds, ⟨⟩, -⟩ := harrays _ he
    simp [Check.arrayElements?] at hconstant
  | constants _ htag hconstants => exact absurd (hconstants _ h₁).symm htag

end Element

/-! The literals of a program. -/

theorem Store.Knows.finds {s : Store} {e : Expr} (h : s.Knows e)
    (harray : ∀ n ds, e = .array n ds →
      s.shape? (.node n.id) = some (.array (Element.literalShape ds))) : s.Finds e := by
  refine ⟨h.tag, ?_⟩
  cases e with
  | array n ds =>
    rw [Expr.literalShape?]
    exact harray n ds rfl
  | _ => exact h.shape rfl

theorem Expr.eq_array_of_ownVisits? {e : Expr} {n : Node} {es : List Element}
    (he : e.isLiteral = true) (hown : e.ownVisits? = some [.arrayLiteral n es]) :
    e = .array n es := by
  cases e with
  | array m ds =>
    cases hown
    rfl
  | number | bigint | str | bool | null | regex => cases hown
  | _ => simp [Expr.isLiteral] at he

/-- No literal is an element of itself. -/
theorem Element.item_array_notMem (n : Node) (es : List Element) : .item (.array n es) ∉ es := by
  intro h
  have hlt := List.sizeOf_lt_of_mem h
  simp only [Element.item.sizeOf_spec, Expr.array.sizeOf_spec] at hlt
  omega

namespace Check

/-- The visit of an array literal stores the shape that is inferred for it. -/
theorem shape?_visit_arrayLiteral (env : CheckEnv) {s : CheckState} {n : Node} {es : List Element}
    (hes : Element.areLiterals es = true) (hhas : s.store.Has (.node n.id))
    (hfinds : ∀ e, .item e ∈ es → s.store.Finds e ∧ e.id ≠ n.id) :
    (visit env s (.arrayLiteral n es)).store.shape? (.node n.id) =
      some (.array (Element.literalShape es)) := by
  let marked := (Write.type (.node n.id) (.inferred .array)).onStore s.store
  have hkeep (e : Expr) (he : .item e ∈ es) : marked.Finds e := by
    obtain ⟨he, hid⟩ := hfinds e he
    have hcell : marked.cell (.node e.id) = s.store.cell (.node e.id) :=
      Write.cell_onStore_of_node?_ne (by simpa [Write.node?] using hid.symm) s.store
    exact ⟨by simpa [Store.tag, Store.ty?, hcell] using he.tag,
      by simpa [Store.shape?, hcell] using he.shape⟩
  have hmarked : marked.Has (.node n.id) := Write.has_onStore.2 hhas
  change (marked.forceShape (.node n.id) (.array (marked.inferArrayShape es))).shape? _ = _
  rw [Store.shape?, Store.shape_cell_forceShape, if_pos ⟨rfl, hmarked⟩,
    Store.inferArrayShape_eq hes hkeep]
  rfl

end Check

def SyntaxNode.isEmptyArray : SyntaxNode → Bool
  | expr e => (Check.arrayElements? e).any List.isEmpty
  | pattern _ | spread .. | name _ | declaration _ | method _ => false

namespace Program

variable {p : Program} {config : Config} {s : CheckState} {vs : List Visit}

/-- Whatever stands in a visited literal of constants has been visited on its own. -/
theorem exists_ownVisit_of_visited {n : Node} {es : List Element} {e : Expr}
    (hes : Element.areLiterals es = true) (hvs : vs <+: p.visits)
    (hvisited : .arrayLiteral n es ∈ vs) (he : .expr e ∈ Element.nodes es) :
    .expr e ∈ p.nodes ∧ e.isLiteral = true ∧ ∃ w ∈ vs, e.ownVisits? = some [w] := by
  obtain ⟨hlit, w, hw, hown⟩ := Element.exists_ownVisit es hes (some .array) e he
  have hnode : .expr e ∈ (Expr.array n es).nodes := by
    rw [Expr.nodes]
    exact List.mem_cons_of_mem _ he
  exact ⟨p.tidy.nodes_literal n es (hvs.subset hvisited) hnode, hlit, w,
    p.tidy.elements_literal n es vs hvs hvisited hw, hown⟩

/-- From its visit on, the store holds the shape of a literal. The elements have been visited
before, and only the visit of the literal writes to it. -/
theorem WellFormed.shape?_of_visited (hp : p.WellFormed) (hs : s ∈ p.passStarts config)
    {es : List Element} (hes : Element.areLiterals es = true) {n : Node} (hvs : vs <+: p.visits)
    (hvisited : .arrayLiteral n es ∈ vs) :
    (vs.foldl (Check.visit (p.checkEnv config)) s.beginPass).store.shape? (.node n.id) =
      some (.array (Element.literalShape es)) := by
  refine Element.literals_induction (P := fun es => ∀ n vs, vs <+: p.visits →
    .arrayLiteral n es ∈ vs →
      (vs.foldl (Check.visit (p.checkEnv config)) s.beginPass).store.shape? (.node n.id) =
        some (.array (Element.literalShape es))) (fun es hes ih n vs hvs hvisited => ?_)
    es hes n vs hvs hvisited
  have hnode : .expr (.array n es) ∈ p.nodes :=
    p.tidy.nodes_literal n es (hvs.subset hvisited) (Expr.mem_nodes _)
  induction vs using List.reverseRecOn with
  | nil => simp at hvisited
  | append_singleton vs v ihvs =>
    have hbefore : vs <+: p.visits := (List.prefix_append vs [v]).trans hvs
    rw [List.foldl_append, List.foldl_cons, List.foldl_nil]
    by_cases hv : n.id ∈ v.footprint
    · obtain rfl : v = .arrayLiteral n es :=
        List.mem_singleton.1 (hp.mem_ownVisits hnode rfl (hvs.subset (by simp)) hv)
      have hhas : (vs.foldl (Check.visit (p.checkEnv config)) s.beginPass).store.Has
          (.node n.id) := by
        rw [(Check.linked_moments (p.checkEnv config) vs s.beginPass).has_iff]
        exact has_node_of_mem_passStarts hs (hp.id_lt hnode)
      refine Check.shape?_visit_arrayLiteral _ hes hhas fun e he => ?_
      have hself : e ≠ .array n es := fun heq => Element.item_array_notMem n es (heq ▸ he)
      obtain ⟨henode, helit, w, hseen, hown⟩ := exists_ownVisit_of_visited hes hvs hvisited
        (Element.nodes_subset_of_mem he e.mem_nodes)
      have hwvs : w ∈ vs := by
        refine (List.mem_append.1 hseen).resolve_right fun hlast => hself ?_
        rw [List.mem_singleton.1 hlast] at hown
        exact Expr.eq_array_of_ownVisits? helit hown
      have hknows := hp.knows_of_mem henode helit hown hs hbefore.subset hwvs
      refine ⟨hknows.finds ?_, fun hid => hself ?_⟩
      · rintro m ds rfl
        cases hown
        exact ih m ds he m vs hbefore hwvs
      · cases hp.eq_of_id_eq henode hnode hid
        rfl
    · have hopen : ¬ (p.checkEnv config).Implies n.id := hp.not_implies hnode
      have hcell := Check.cell_visit_of_notMem hv hopen
        (vs.foldl (Check.visit (p.checkEnv config)) s.beginPass)
      rw [Store.shape?, hcell]
      refine ihvs hbefore ((List.mem_append.1 hvisited).resolve_right fun hlast => hv ?_)
      rw [← List.mem_singleton.1 hlast]
      simp [Visit.footprint]

theorem WellFormed.findsAll_of_visited (hp : p.WellFormed) (hs : s ∈ p.passStarts config)
    {es : List Element} (hes : Element.areLiterals es = true) {n : Node} (hvs : vs <+: p.visits)
    (hvisited : .arrayLiteral n es ∈ vs) :
    (vs.foldl (Check.visit (p.checkEnv config)) s.beginPass).store.FindsAll es := by
  intro e he
  obtain ⟨hnode, helit, w, hwvs, hown⟩ := exists_ownVisit_of_visited hes hvs hvisited he
  refine (hp.knows_of_mem hnode helit hown hs hvs.subset hwvs).finds ?_
  rintro m ds rfl
  cases hown
  exact hp.shape?_of_visited hs (by simpa [Expr.isLiteral] using helit) hvs hwvs

/-- The shape that is inferred for a visited literal of constants is the one in the store. The
literal is of that shape exactly when what is less deep in it is an array. -/
theorem admits_inferred_iff {tokens : List Token} {n : Node} {es : List Element}
    (hp : Program.ofTokens tokens = .ok p) (hs : s ∈ p.passStarts config) (hvs : vs <+: p.visits)
    (hvisited : .arrayLiteral n es ∈ vs) (hes : Element.areLiterals es = true) :
    let store := (vs.foldl (Check.visit (p.checkEnv config)) s.beginPass).store
    let shape := store.inferArrayShape es
    store.shape? (.node n.id) = some (.array shape) ∧
    (shape.admits store es = true ↔ Element.haveDepth shape.depth es = true) ∧
    ((∀ m ds, .expr (.array m ds) ∈ (Expr.array n es).nodes → ¬ store.Mixes ds) →
      shape.admits store es = true) ∧
    (store.Mixes es → shape.admits store es = false) := by
  intro store shape
  have hwf := wellFormed_of_ofTokens hp
  have hfinds : store.FindsAll es := hwf.findsAll_of_visited hs hes hvs hvisited
  have hshape : shape = Element.literalShape es := hfinds.inferArrayShape_eq hes
  have hiff := Element.admits_literalShape_iff hes hfinds
  rw [hshape]
  refine ⟨hwf.shape?_of_visited hs hes hvs hvisited, hiff, fun hmix => hiff.2 ?_, fun hmix => ?_⟩
  · rw [Expr.nodes] at hmix
    exact Element.haveDepth_of_not_mixes hes hfinds (hmix n es (by simp)) fun m ds hds =>
      hmix m ds (by simp [hds])
  · rw [← Bool.not_eq_true, hiff, Bool.not_eq_true]
    exact Element.haveDepth_of_mixes hes hfinds hmix

/-- Arrays of several shapes and depths, an empty one among them, at the end of the first pass. -/
theorem admits_inferred_iff_of_depths : ∃ tokens p n es, Program.ofTokens tokens = .ok p ∧
    .arrayLiteral n es ∈ p.visits ∧ Element.areLiterals es = true ∧
    let store := (p.visits.foldl (Check.visit (p.checkEnv {}))
      (p.initialState p.resolve).beginPass).store
    (store.inferArrayShape es).description = "any[][][]" ∧
      store.shape? (.node n.id) = some (.array (store.inferArrayShape es)) ∧
      (store.inferArrayShape es).admits store es = true := by
  let store (p : Program) : Store :=
    (p.visits.foldl (Check.visit (p.checkEnv {})) (p.initialState p.resolve).beginPass).store
  let isDeep (p : Program) : Visit → Bool
    | .arrayLiteral _ es => Element.areLiterals es &&
      ((store p).inferArrayShape es).description == "any[][][]" &&
      Element.haveDepth ((store p).inferArrayShape es).depth es
    | _ => false
  obtain ⟨p, hp, htest⟩ := exists_of_any "[[[1, 2n], [\"b\"]], [[], [[null]]]];"
    (fun p => p.visits.any (isDeep p)) (by decide +kernel)
  obtain ⟨tokens, -, hp⟩ := Parse.exists_of_bind_eq_ok hp
  obtain ⟨w, hw, hdeep⟩ := List.any_eq_true.1 htest
  cases w with
  | arrayLiteral n es =>
    simp only [isDeep, Bool.and_eq_true, beq_iff_eq] at hdeep
    obtain ⟨⟨hes, hdescription⟩, hdepth⟩ := hdeep
    obtain ⟨hshape, hiff, -, -⟩ := admits_inferred_iff hp (p.initialState_mem_passStarts {})
      (List.prefix_refl p.visits) hw hes
    exact ⟨tokens, p, n, es, hp, hw, hes, hdescription, hshape, hiff.2 hdepth⟩
  | _ => simp [isDeep] at hdeep

/-- A number beside arrays of several shapes: the literal is not of the shape that is inferred for
it. -/
theorem literal_not_of_inferred_shape : ∃ tokens p n es, Program.ofTokens tokens = .ok p ∧
    .arrayLiteral n es ∈ p.visits ∧ Element.areLiterals es = true ∧ es ≠ [] ∧
    (∀ x ∈ Element.nodes es, x.isEmptyArray = false) ∧
    let store := (p.visits.foldl (Check.visit (p.checkEnv {}))
      (p.initialState p.resolve).beginPass).store
    (store.inferArrayShape es).description = "any[][]" ∧
      (store.inferArrayShape es).admits store es = false := by
  let store (p : Program) : Store :=
    (p.visits.foldl (Check.visit (p.checkEnv {})) (p.initialState p.resolve).beginPass).store
  let isRefused (p : Program) : Visit → Bool
    | .arrayLiteral _ es => Element.areLiterals es && !es.isEmpty &&
      ((Element.nodes es).all fun x => !x.isEmptyArray) &&
      ((store p).inferArrayShape es).description == "any[][]" &&
      !((store p).inferArrayShape es).admits (store p) es
    | _ => false
  obtain ⟨p, hp, htest⟩ := exists_of_any "[[1], [\"b\"], 2];"
    (fun p => p.visits.any (isRefused p)) (by decide +kernel)
  obtain ⟨tokens, -, hp⟩ := Parse.exists_of_bind_eq_ok hp
  obtain ⟨w, hw, hrefused⟩ := List.any_eq_true.1 htest
  cases w with
  | arrayLiteral n es =>
    simp only [isRefused, Bool.and_eq_true, beq_iff_eq, Bool.not_eq_true',
      List.isEmpty_eq_false_iff, List.all_eq_true] at hrefused
    obtain ⟨⟨⟨⟨hes, hne⟩, hnested⟩, hdescription⟩, hadmits⟩ := hrefused
    exact ⟨tokens, p, n, es, hp, hw, hes, hne, hnested, hdescription, hadmits⟩
  | _ => simp [isRefused] at hrefused

end Program
end TagCheck
