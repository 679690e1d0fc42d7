import TagCheck.Value.Validate

/-! Validators accept only values of their type, give an accepted value back unchanged when it is
put in again, and read nothing but text: a value that is no string passes as it is or not at all. -/
namespace TagCheck

namespace Validate

theorem isStr_eq_false_iff {v : Value} : isStr v = false ↔ ∀ s, v ≠ .str s := by
  cases v <;> simp [isStr]

@[simp] theorem singleInput_value (v : Value) : singleInput (.value v) = .ok v := by
  simp [singleInput, TemplateInput.value, TemplateInput.firstValue, Text.allBlank]

theorem string_value (v : Value) :
    string (.value v) = if isStr v then .ok v else .error (failed v "string") := by
  cases hv : isStr v <;> simp [string, TemplateInput.value, hv, any, TemplateInput.firstValue]

/-- The tags whose validators read one input in the same way. -/
def readsOne : Tag → Bool
  | .any | .string | .regex | .unknown => false
  | _ => true

/-- What such a tag takes are the values of its type, by a table of its own. -/
theorem takes_eq_hasTag {tag : Tag} (h : readsOne tag = true) (v : Value) :
    takes tag v = v.hasTag tag := by
  cases tag with
  | any | string | regex | unknown => cases h
  | finite | int | object => rfl
  | _ => cases v <;> rfl

/-- Only the text of a value is read, so any other comes to the test as it is. -/
theorem single_value {v : Value} (hv : ∀ s, v ≠ .str s) (tag : Tag) :
    single tag (.value v) = if takes tag v then .ok v else .error (failed v (noun tag)) := by
  have hcoerced : coerced tag v = .ok v := by
    cases v with
    | str s => exact absurd rfl (hv s)
    | _ => rfl
  simp only [single, singleInput_value]
  change (coerced tag v).bind _ = _
  rw [hcoerced]
  rfl

theorem takes_of_single {tag : Tag} {t : TemplateInput} {v : Value} (h : single tag t = .ok v) :
    takes tag v = true := by
  unfold single at h
  cases hinput : singleInput t with
  | error e => rw [hinput] at h; cases h
  | ok x =>
    rw [hinput] at h
    change (coerced tag x).bind _ = _ at h
    cases hread : coerced tag x with
    | error e => rw [hread] at h; cases h
    | ok y =>
      rw [hread] at h
      simp only [Except.bind] at h
      split at h
      next hy => cases h; exact hy
      next => cases h

/-- More than one part gives a text; a value alone is a string if all values are. -/
theorem isStr_of_string {t : TemplateInput} {v : Value}
    (ht : t.strings.length = t.values.length + 1) (h : string t = .ok v) : isStr v = true := by
  obtain ⟨strings, values⟩ := t
  unfold string at h
  split at h
  next s _ => cases h; rfl
  next hmany =>
    split at h
    next => cases h
    next hall =>
      have hstr : ∀ x ∈ values, isStr x = true := by simpa using hall
      cases h
      simp only [any]
      split
      next => simp at ht
      next s => exact absurd rfl (hmany s)
      next a b =>
        obtain ⟨x, rfl⟩ := List.length_eq_one_iff.1 (show values.length = 1 by simpa using ht.symm)
        split
        · exact hstr x (by simp)
        · rfl
      next => rfl

theorem exists_of_regex {t : TemplateInput} {v : Value} (h : regex t = .ok v) :
    ∃ pattern flags, v = .regex pattern flags := by
  unfold regex at h
  cases hinput : regexInput t with
  | error e => rw [hinput] at h; cases h
  | ok x =>
    rw [hinput] at h
    cases x with
    | regex pattern flags => cases h; exact ⟨pattern, flags, rfl⟩
    | _ => cases h

end Validate

namespace Tag

theorem hasTag_of_validate {tag : Tag} {t : TemplateInput} {v : Value}
    (ht : t.strings.length = t.values.length + 1) (h : tag.validate t = .ok v) :
    v.hasTag tag = true := by
  cases tag with
  | any => cases v <;> rfl
  | string =>
    have hv := Validate.isStr_of_string ht h
    cases v <;> first | rfl | cases hv
  | regex =>
    obtain ⟨pattern, flags, rfl⟩ := Validate.exists_of_regex h
    rfl
  | unknown => cases h
  | _ => exact (Validate.takes_eq_hasTag rfl v).symm.trans (Validate.takes_of_single h)

/-- The tags that read a text are those which no text has. -/
theorem validate_value_of_hasTag {tag : Tag} {v : Value} (h : v.hasTag tag = true) :
    tag.validate (.value v) = .ok v := by
  cases v with
  | str s =>
    cases tag with
    | any | string => rfl
    | _ => cases h
  | _ =>
    cases tag with
    | any => rfl
    | string | unknown => cases h
    | regex => first | rfl | cases h
    | _ =>
      have htakes := (Validate.takes_eq_hasTag rfl _).trans h
      exact (Validate.single_value (by simp) _).trans (if_pos htakes)

theorem validate_value_of_not_hasTag {tag : Tag} {v : Value} (hv : ∀ s, v ≠ .str s)
    (h : v.hasTag tag = false) : ∃ e, tag.validate (.value v) = .error e := by
  cases tag with
  | any => cases v <;> cases h
  | string =>
    have hstr := Validate.isStr_eq_false_iff.2 hv
    exact ⟨_, (Validate.string_value v).trans (if_neg (by simp [hstr]))⟩
  | regex =>
    cases v with
    | regex pattern flags => cases h
    | _ => exact ⟨_, rfl⟩
  | unknown => exact ⟨_, rfl⟩
  | _ =>
    have htakes := (Validate.takes_eq_hasTag rfl v).trans h
    exact ⟨_, (Validate.single_value hv _).trans (if_neg (by simp [htakes]))⟩

/-- What a validator gives is of its type and is given back unchanged, and of the values that are
no text it accepts those of its type, as they are, and refuses all others. -/
theorem validate_sound (tag : Tag) :
    (∀ (t : TemplateInput) (v : Value), t.strings.length = t.values.length + 1 →
      tag.validate t = .ok v → v.hasTag tag = true ∧ tag.validate (.value v) = .ok v) ∧
    ∀ v : Value, (∀ s, v ≠ .str s) →
      if v.hasTag tag then tag.validate (.value v) = .ok v
      else ∃ e, tag.validate (.value v) = .error e := by
  constructor
  · intro t v ht h
    have hv := hasTag_of_validate ht h
    exact ⟨hv, validate_value_of_hasTag hv⟩
  · intro v hv
    cases h : v.hasTag tag with
    | true => simpa using validate_value_of_hasTag h
    | false => simpa using validate_value_of_not_hasTag hv h

/-- A text with blanks around it is read once; the value it gives is then taken as it is. -/
theorem validate_sound_bool :
    Tag.bool.validate (.literal " true ") = .ok (.bool true) ∧
    Tag.bool.validate (.value (.bool true)) = .ok (.bool true) ∧
    ∃ e, Tag.bool.validate (.value (.array [.bool true])) = .error e := by
  have hread : Tag.bool.validate (.literal " true ") = .ok (.bool true) := by rfl
  have hkept := (validate_sound .bool).1 (.literal " true ") (.bool true) rfl hread
  have hrefused := (validate_sound .bool).2 (.array [.bool true]) (by simp)
  exact ⟨hread, hkept.2, hrefused⟩

end Tag
end TagCheck
