import TagCheck.Proofs.Check.Orderly

/-! The descriptions of the shapes that a run holds. Main statement: at every moment they are the
texts of the shapes, so that two shapes that count as one where the elements of a literal are
compared differ in nothing but an unknown element type against one that is named `unknown`. -/
namespace TagCheck

namespace Program

/-- Every array shape that is held at some moment, and each shape in it, is described by its own
text. Shapes of one description differ at most in how `unknown` is named. -/
theorem shapes_described (p : Program) (config : Config) {s s' : CheckState}
    (hs : s ∈ p.history config) (hs' : s' ∈ p.history config) {a b : ArrayShape}
    (ha : s.store.HasShape (.array a)) (hb : s'.store.HasShape (.array b)) :
    (∀ u ∈ a.parts, u.description = u.rendering ∧
      ∀ ms, u.contents = .tuple ms → ms ≠ [] ∧ u.nonEmpty = false) ∧
    ∀ u ∈ a.parts, ∀ v ∈ b.parts, u.description = v.description →
      u.mapNames ElemName.spelled = v.mapNames ElemName.spelled := by
  have hcanonical {s : CheckState} (hs : s ∈ p.history config) {a : ArrayShape}
      (ha : s.store.HasShape (.array a)) : a.IsCanonical :=
    (proper_of_mem_history hs).allShapes (.array a) ha
  have ha := hcanonical hs ha
  have hb := hcanonical hs' hb
  constructor
  · intro u hu
    have hu := ha.of_mem_parts hu
    exact ⟨hu.description_eq, fun ms hms => hu.of_tuple hms⟩
  · intro u hu v hv heq
    exact (ha.of_mem_parts hu).mapNames_eq (hb.of_mem_parts hv) heq

/-- An element type that is named `unknown`, and one that is. -/
theorem shapes_described_of_unknown : ∃ p,
    Program.ofSource "var a = array`unknown[]`; var b = [c]; var c = 1;" = .ok p ∧
    ∃ s ∈ p.history {}, ∃ a b, s.store.HasShape (.array a) ∧ s.store.HasShape (.array b) ∧
      a ≠ b ∧ a.description = "unknown[]" ∧ b.description = "unknown[]" ∧
      a.description = a.rendering ∧
      a.mapNames ElemName.spelled = b.mapNames ElemName.spelled := by
  let arrayOf (s : CheckState) (i : BindingId) : Option ArrayShape :=
    (s.store.shape? (.binding i)).bind Shape.asArray?
  have hasShape {s : CheckState} {i : BindingId} {a : ArrayShape} (h : a ∈ arrayOf s i) :
      s.store.HasShape (.array a) := by
    obtain ⟨x, hx, hxa⟩ := Option.bind_eq_some_iff.1 h
    cases x with
    | func id => cases hxa
    | array b =>
      cases hxa
      exact .cell hx
  obtain ⟨p, hp, htest⟩ := exists_of_any "var a = array`unknown[]`; var b = [c]; var c = 1;"
    (fun p => (p.history {}).any fun s => (arrayOf s 0).any fun a => (arrayOf s 1).any fun b =>
      a != b && a.description == "unknown[]" && b.description == "unknown[]") (by decide +kernel)
  obtain ⟨s, hs, htest⟩ := List.any_eq_true.1 htest
  obtain ⟨a, ha, htest⟩ := (Option.any_eq_true _ _).1 htest
  obtain ⟨b, hb, htest⟩ := (Option.any_eq_true _ _).1 htest
  simp only [Bool.and_eq_true, bne_iff_ne, ne_eq, beq_iff_eq] at htest
  obtain ⟨⟨hne, hdesc⟩, hdesc'⟩ := htest
  obtain ⟨htexts, hsame⟩ := p.shapes_described {} hs hs (hasShape ha) (hasShape hb)
  have hsame := hsame a a.mem_parts_self b b.mem_parts_self (hdesc.trans hdesc'.symm)
  exact ⟨p, hp, s, hs, a, b, hasShape ha, hasShape hb, hne, hdesc, hdesc',
    (htexts a a.mem_parts_self).1, hsame⟩

end Program
end TagCheck
