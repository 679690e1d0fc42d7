import TagCheck.Check.TaggedTemplate
import TagCheck.Proofs.Check.Provenance
import TagCheck.Proofs.Descriptor.FaultLocation
import TagCheck.Proofs.Diagnostic.OneLine

/-! What is said of shapes, and of descriptors and literals that are at fault, is said in one
line. -/
namespace TagCheck

open Text

/-! Shapes and descriptors. -/

namespace Descriptor

theorem IsName.oneLine {s : String} (h : IsName s.toList) : OneLine s := by
  obtain ⟨c, cs, hs, hc, hcs⟩ := h
  rw [OneLine, hs]
  intro hmem
  have hpart : isNamePart '\n' = true := by
    rcases List.mem_cons.1 hmem with rfl | hmem
    · exact isNamePart_of_isNameStart hc
    · exact hcs _ hmem
  exact absurd hpart (by decide)

mutual

theorem Tree.Legible.oneLine : (t : Tree) → t.Legible → OneLine t.text
  | .name s, h => by
    rw [Tree.Legible] at h
    exact h.oneLine
  | .arrayOf inner nonEmpty, h => by
    rw [Tree.text, oneLine_append]
    exact ⟨Tree.Legible.oneLine inner h, by cases nonEmpty <;> decide⟩
  | .tuple members, h => by
    rw [Tree.text, oneLine_append, oneLine_append]
    exact ⟨⟨by decide, oneLine_intercalate.2 (Tree.AllLegible.oneLine members h.2)⟩, by decide⟩

theorem Tree.AllLegible.oneLine : (ts : List Tree) → Tree.AllLegible ts →
    ∀ s ∈ Tree.texts ts, OneLine s
  | [], _ => by simp [Tree.texts]
  | t :: ts, h => by
    rw [Tree.texts, List.forall_mem_cons]
    exact ⟨Tree.Legible.oneLine t h.1, Tree.AllLegible.oneLine ts h.2⟩

end

end Descriptor

theorem ArrayShape.IsCanonical.oneLine {s : ArrayShape} (h : s.IsCanonical) :
    OneLine s.description := by
  obtain ⟨t, ht, hden⟩ := isCanonical_iff.1 h
  rw [← description_mapNames ElemName.spelled, hden.description_eq]
  exact ht.oneLine

theorem Arena.oneLine_describeUnder {a : Arena}
    (ha : ∀ id, ∀ f ∈ a.get? id, f.AllShapes Shape.IsCanonical) (path : List FuncShapeId)
    (x : Shape) (hx : x.IsCanonical) : OneLine (a.describeUnder path x) := by
  fun_induction a.describeUnder path x with
  | case1 path s => exact ArrayShape.IsCanonical.oneLine hx
  | case2 | case3 => decide
  | case4 path id hid f hf params rest ret ih =>
    have hparams : ∀ t ∈ params, OneLine t := by
      intro t ht
      obtain ⟨p, hp, rfl⟩ := List.mem_map.1 ht
      split
      · next y hy => exact ih y ((ha id f hf).params p hp y hy)
      · exact Tag.oneLine_name _
    have hret : OneLine ret := by
      unfold ret
      split
      · next y hy => exact ih y ((ha id f hf).ret y hy)
      · exact Tag.oneLine_name _
    have hrest : OneLine rest := by
      unfold rest
      split
      · split <;> decide
      · decide
    simp +decide [oneLine_intercalate.2 hparams, hret, hrest]

theorem CheckState.Proper.oneLine_describe {s : CheckState} (h : s.Proper) {x : Option Shape}
    (hx : ∀ y ∈ x, y.IsCanonical) : OneLine (s.store.arena.describe x) := by
  cases x with
  | none => exact (by decide : OneLine "(unknown)")
  | some x => exact Arena.oneLine_describeUnder h.allShapes.get? [] x (hx x rfl)

/-- An error shows text of the descriptor that has no blanks, or a name. -/
theorem Descriptor.oneLine_of_parse {text : String} {e : Error} (h : parse text = .error e) :
    OneLine e.message := by
  obtain ⟨hshown, hname⟩ := isShown_of_parse h
  have hplace {shown : String} {offset : Nat} (he : e.place? = some (shown, offset)) :
      OneLine shown :=
    fun hmem => absurd (List.all_eq_true.1 (hshown shown offset he).2 _ hmem) (by decide)
  cases e with
  | empty => decide
  | unexpectedChar _ o | missingMember _ o | unmatched _ o | unterminated _ o =>
    exact (((by decide : OneLine _).append (hplace rfl)).append (by decide)).append
      (oneLine_toString o)
  | consecutiveTypes _ o | unexpectedOpen _ o =>
    exact ((((by decide : OneLine _).append (hplace rfl)).append (by decide)).append
      (oneLine_toString o)).append (by decide)
  | missingOperand nonEmpty o =>
    have hbrackets : OneLine (brackets nonEmpty) := by cases nonEmpty <;> decide
    exact ((((by decide : OneLine _).append hbrackets).append (by decide)).append
      (oneLine_toString o)).append (by decide)
  | commaOutsideTuple o =>
    exact ((by decide : OneLine _).append (oneLine_toString o)).append (by decide)
  | emptyTuple o | emptyGroup o => exact (by decide : OneLine _).append (oneLine_toString o)
  | notAnArray name =>
    exact ((by decide : OneLine _).append (hname name rfl).oneLine).append (by decide)

/-! Literals. -/

theorem Validate.oneLine_oneLine (s : String) : OneLine (oneLine s) := by
  rw [OneLine, oneLine, String.toList_ofList, List.mem_flatMap]
  rintro ⟨c, -, hc⟩
  split at hc
  · simp at hc
  · next hne =>
    split at hc
    · simp at hc
    · exact hne (beq_iff_eq.2 (List.mem_singleton.1 hc).symm)

def ValidationError.Plain (x : Except ValidationError α) : Prop :=
  ∀ e, x = .error e → OneLine e.message

namespace ValidationError

theorem plain_ok (a : α) : Plain (.ok a : Except ValidationError α) := by
  rintro _ ⟨⟩

theorem plain_error {e : ValidationError} (h : OneLine e.message) :
    Plain (.error e : Except ValidationError α) := by
  rintro _ ⟨⟩
  exact h

theorem Plain.bind {x : Except ValidationError α} {f : α → Except ValidationError β} (hx : Plain x)
    (hf : ∀ a, Plain (f a)) : Plain (x >>= f) := by
  cases x with
  | error e => exact plain_error (hx e rfl)
  | ok a => exact hf a

theorem plain_failed (v : Value) {expected : String} (h : OneLine expected) :
    Plain (.error (Validate.failed v expected) : Except ValidationError α) := by
  refine plain_error ?_
  change OneLine (Validate.oneLine _ ++ " is not type: " ++ expected)
  rw [oneLine_append, oneLine_append]
  exact ⟨⟨Validate.oneLine_oneLine _, by decide⟩, h⟩

end ValidationError

open ValidationError

namespace Validate

theorem oneLine_noun (tag : Tag) : OneLine (noun tag) := by
  cases tag <;> decide

theorem plain_evaluated (s : String) {expected : String} (h : OneLine expected) :
    Plain (evaluated s expected) := by
  unfold evaluated
  split
  · exact plain_ok _
  · exact plain_failed _ h

theorem plain_ofText (tag : Tag) (s : String) : Plain (ofText tag s) := by
  have hdefault (t : Tag) (v : Value) :
      Plain (if s == "" then .error (.noDefault (noun t)) else .ok v) := by
    split
    · exact plain_error (oneLine_append.2 ⟨by decide, oneLine_noun t⟩)
    · exact plain_ok _
  have hbint : Plain (if s == "" then .error (.noDefault (noun .bint)) else
      evaluated s (noun .bint)) := by
    split
    · exact plain_error (by decide)
    · exact plain_evaluated s (oneLine_noun _)
  cases tag with
  | bool | number | finite | int => exact hdefault _ _
  | bint => exact hbint
  | symb | array | object | func => exact plain_evaluated _ (oneLine_noun _)
  | _ => exact plain_ok _

theorem plain_single (tag : Tag) (text : String) : Plain (single tag (.literal text)) := by
  refine (plain_ofText tag (Text.trim text)).bind fun v => ?_
  split
  · exact plain_ok _
  · exact plain_failed v (oneLine_noun tag)

theorem plain_regex (text : String) : Plain (regex (.literal text)) := by
  refine (plain_evaluated _ (by decide)).bind fun v => ?_
  cases v with
  | regex => exact plain_ok _
  | _ => exact plain_failed _ (by decide)

end Validate

theorem Tag.plain_validate (tag : Tag) (text : String) : Plain (tag.validate (.literal text)) := by
  cases tag with
  | any | string => exact plain_ok _
  | regex => exact Validate.plain_regex text
  | unknown => exact plain_error (by decide)
  | _ => exact Validate.plain_single _ text

namespace Validators

variable (vs : Validators)

theorem plain_hasType (v : Value) {name : ElemName} (h : OneLine name.text) :
    Plain (vs.hasType v name) := by
  cases name with
  | builtin t => exact plain_ok _
  | named name =>
    rw [hasType]
    split
    · exact plain_ok _
    · exact plain_error (oneLine_append.2 ⟨by decide, h⟩)

theorem plain_allPass {test : Value → Except ValidationError Bool} (h : ∀ v, Plain (test v))
    (items : List Value) : Plain (allPass test items) := by
  induction items with
  | nil => exact plain_ok _
  | cons v items ih =>
    refine (h v).bind fun passed => ?_
    split
    · exact ih
    · exact plain_ok _

mutual

theorem plain_accepts : (s : ArrayShape) → OneLine s.rendering → ∀ v, Plain (vs.accepts s v)
  | ⟨c, nonEmpty, _⟩, h, v => by
    cases v with
    | array items =>
      rw [accepts]
      split
      · exact plain_ok _
      · exact plain_acceptsItems c h items
    | _ => exact plain_ok _

theorem plain_acceptsItems {nonEmpty : Bool} : (c : Contents) → OneLine (c.rendering nonEmpty) →
    ∀ items, Plain (vs.acceptsItems c items)
  | .simple name, h, items => by
    rw [Contents.rendering, oneLine_append] at h
    rw [acceptsItems]
    exact plain_allPass (fun v => vs.plain_hasType v h.1) items
  | .tuple members, h, items => by
    rw [Contents.rendering, oneLine_append, oneLine_append] at h
    rw [acceptsItems]
    split
    · exact plain_acceptsMembers members (oneLine_intercalate.1 h.1.2) items
    · exact plain_ok _
  | .nested inner, h, items => by
    rw [Contents.rendering, oneLine_append] at h
    rw [acceptsItems]
    exact plain_allPass (plain_accepts inner h.1) items

theorem plain_acceptsMember : (m : Member) → OneLine m.rendering → ∀ v, Plain (vs.acceptsMember m v)
  | .elem name, h, v => by
    rw [acceptsMember]
    exact vs.plain_hasType v h
  | .shape inner, h, v => by
    rw [acceptsMember]
    exact plain_accepts inner h v

theorem plain_acceptsMembers : (ms : List Member) → (∀ t ∈ Member.renderings ms, OneLine t) →
    ∀ items, Plain (vs.acceptsMembers ms items)
  | m :: ms, h, v :: items => by
    rw [Member.renderings, List.forall_mem_cons] at h
    rw [acceptsMembers]
    refine (plain_acceptsMember m h.1 v).bind fun passed => ?_
    split
    · exact plain_acceptsMembers ms h.2 items
    · exact plain_ok _
  | [], _, _ => by
    rw [acceptsMembers]
    · exact plain_ok _
    · simp
  | _ :: _, _, [] => by
    rw [acceptsMembers]
    · exact plain_ok _
    · simp

end

end Validators

theorem Tag.plain_validateLiteral (tag : Tag) (text : String) {shape : Option ArrayShape}
    (h : ∀ s ∈ shape, s.IsCanonical) : Plain (tag.validateLiteral text shape) := by
  refine (tag.plain_validate text).bind fun v => ?_
  cases shape with
  | none => exact plain_ok _
  | some s =>
    have hs := h s rfl
    have hrendering := hs.description_eq ▸ hs.oneLine
    refine Plain.bind (Plain.bind (Validators.plain_accepts _ s hrendering v) fun passed => ?_)
      fun _ => plain_ok _
    split
    · exact plain_ok _
    · exact plain_failed v hs.oneLine

end TagCheck
