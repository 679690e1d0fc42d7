import TagCheck.Check.ArrayLiteral

/-! What is gathered from the elements of an array literal, and what is made of it. -/
namespace TagCheck
namespace Gathered

theorem mem_tags_addTag {g : Gathered} {t u : Tag} :
    u ∈ (g.addTag t).tags ↔ u = t ∨ u ∈ g.tags := by
  unfold addTag
  split
  · next h => exact ⟨.inr, fun hu => hu.elim (fun heq => heq ▸ h) id⟩
  · simp [or_comm]

@[simp] theorem tags_addShape (g : Gathered) (x : Option ArrayShape) :
    (g.addShape x).tags = g.tags := by
  unfold addShape
  split
  · rfl
  · split <;> rfl

@[simp] theorem shapes_addTag (g : Gathered) (t : Tag) : (g.addTag t).shapes = g.shapes := by
  unfold addTag
  split <;> rfl

theorem of_mem_shapes_addShape {g : Gathered} {x : Option ArrayShape} {s : ArrayShape}
    (h : s ∈ (g.addShape x).shapes) : s ∈ g.shapes ∨ x = some s := by
  cases x with
  | none => exact .inl h
  | some t =>
    simp only [addShape] at h
    split at h
    · exact .inl h
    · simpa [eq_comm] using h

/-- A shape is there, or one that counts as the same. -/
theorem exists_mem_shapes_addShape {g : Gathered} {x : Option ArrayShape} {s : ArrayShape}
    (h : x = some s ∨ ∃ t ∈ g.shapes, t.description = s.description) :
    ∃ t ∈ (g.addShape x).shapes, t.description = s.description := by
  cases x with
  | none => simpa [addShape] using h
  | some u =>
    simp only [addShape]
    split
    · next hany =>
      rcases h with h | h
      · obtain rfl := Option.some.inj h
        simpa using hany
      · exact h
    · rcases h with h | ⟨t, ht, heq⟩
      · obtain rfl := Option.some.inj h
        exact ⟨u, by simp, rfl⟩
      · exact ⟨t, by simp [ht], heq⟩

theorem pairwise_addShape {g : Gathered} (x : Option ArrayShape)
    (h : g.shapes.Pairwise fun s t => s.description ≠ t.description) :
    (g.addShape x).shapes.Pairwise fun s t => s.description ≠ t.description := by
  cases x with
  | none => exact h
  | some u =>
    simp only [addShape]
    split
    · exact h
    · next hnew => simpa [List.pairwise_append, h] using hnew

/-- What is inferred from types and shapes is an array of whatever, nested or not, an array of one
of the shapes, or an array of one of the types. -/
theorem toShape_cases (g : Gathered) :
    (∃ d, g.toShape = .nestedAny d) ∨ (∃ s ∈ g.shapes, g.toShape = .arrayOf s) ∨
      ∃ t ∈ g.tags, g.toShape = .ofElem (.builtin t) := by
  unfold toShape
  split
  · exact .inl ⟨_, rfl⟩
  · exact .inl ⟨0, rfl⟩
  · next s hs _ => exact .inr (.inl ⟨s, by simp [hs], rfl⟩)
  · next t _ ht => exact .inr (.inr ⟨t, by simp [ht], rfl⟩)
  · exact .inl ⟨0, rfl⟩

end Gathered
end TagCheck
