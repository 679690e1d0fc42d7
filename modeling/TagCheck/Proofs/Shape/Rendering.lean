import TagCheck.Proofs.Descriptor.Canonical
import TagCheck.Proofs.Shape.ArrayFits

/-! The text of an array shape, as its contents and markers give it. A shape carries a description
as well; it is canonical if the description is read as that shape, and then the text and the
description are one. The only element type that is not read as it is written is `unknown`, which a
program cannot name. -/
namespace TagCheck

mutual

def ArrayShape.rendering : ArrayShape → String
  | ⟨c, nonEmpty, _⟩ => c.rendering nonEmpty

def Contents.rendering (nonEmpty : Bool) : Contents → String
  | .simple e => e.text ++ Descriptor.brackets nonEmpty
  | .tuple ms => "<" ++ ",".intercalate (Member.renderings ms) ++ ">"
  | .nested s => s.rendering ++ Descriptor.brackets nonEmpty

def Member.rendering : Member → String
  | .elem e => e.text
  | .shape s => s.rendering

def Member.renderings : List Member → List String
  | [] => []
  | m :: ms => m.rendering :: Member.renderings ms

end

mutual

def ArrayShape.parts : ArrayShape → List ArrayShape
  | ⟨c, n, d⟩ => ⟨c, n, d⟩ :: c.parts

def Contents.parts : Contents → List ArrayShape
  | .simple _ => []
  | .tuple ms => Member.partsList ms
  | .nested s => s.parts

def Member.parts : Member → List ArrayShape
  | .elem _ => []
  | .shape s => s.parts

def Member.partsList : List Member → List ArrayShape
  | [] => []
  | m :: ms => m.parts ++ Member.partsList ms

end

mutual

def ArrayShape.mapNames (f : ElemName → ElemName) : ArrayShape → ArrayShape
  | ⟨c, n, d⟩ => ⟨c.mapNames f, n, d⟩

def Contents.mapNames (f : ElemName → ElemName) : Contents → Contents
  | .simple e => .simple (f e)
  | .tuple ms => .tuple (Member.mapNamesList f ms)
  | .nested s => .nested (s.mapNames f)

def Member.mapNames (f : ElemName → ElemName) : Member → Member
  | .elem e => .elem (f e)
  | .shape s => .shape (s.mapNames f)

def Member.mapNamesList (f : ElemName → ElemName) : List Member → List Member
  | [] => []
  | m :: ms => m.mapNames f :: Member.mapNamesList f ms

end

theorem ArrayShape.mem_parts_self (s : ArrayShape) : s ∈ s.parts := by
  cases s
  simp [ArrayShape.parts]

section MapNames

variable {f : ElemName → ElemName}

mutual

theorem ArrayShape.rendering_mapNames (hf : ∀ e, (f e).text = e.text) :
    (s : ArrayShape) → (s.mapNames f).rendering = s.rendering
  | ⟨c, n, d⟩ => by
    simp only [ArrayShape.mapNames, ArrayShape.rendering, Contents.rendering_mapNames hf c]

theorem Contents.rendering_mapNames (hf : ∀ e, (f e).text = e.text) {n : Bool} :
    (c : Contents) → (c.mapNames f).rendering n = c.rendering n
  | .simple e => by simp only [Contents.mapNames, Contents.rendering, hf]
  | .tuple ms => by
    simp only [Contents.mapNames, Contents.rendering, Member.renderings_mapNames hf ms]
  | .nested s => by
    simp only [Contents.mapNames, Contents.rendering, ArrayShape.rendering_mapNames hf s]

theorem Member.rendering_mapNames (hf : ∀ e, (f e).text = e.text) :
    (m : Member) → (m.mapNames f).rendering = m.rendering
  | .elem e => by simp only [Member.mapNames, Member.rendering, hf]
  | .shape s => by
    simp only [Member.mapNames, Member.rendering, ArrayShape.rendering_mapNames hf s]

theorem Member.renderings_mapNames (hf : ∀ e, (f e).text = e.text) :
    (ms : List Member) → Member.renderings (Member.mapNamesList f ms) = Member.renderings ms
  | [] => rfl
  | m :: ms => by
    simp only [Member.mapNamesList, Member.renderings, Member.rendering_mapNames hf m,
      Member.renderings_mapNames hf ms]

end

mutual

theorem ArrayShape.parts_mapNames :
    (s : ArrayShape) → (s.mapNames f).parts = s.parts.map (ArrayShape.mapNames f)
  | ⟨c, n, d⟩ => by
    simp only [ArrayShape.mapNames, ArrayShape.parts, Contents.parts_mapNames c, List.map_cons]

theorem Contents.parts_mapNames :
    (c : Contents) → (c.mapNames f).parts = c.parts.map (ArrayShape.mapNames f)
  | .simple e => rfl
  | .tuple ms => by
    simp only [Contents.mapNames, Contents.parts, Member.partsList_mapNames ms]
  | .nested s => by
    simp only [Contents.mapNames, Contents.parts, ArrayShape.parts_mapNames s]

theorem Member.parts_mapNames :
    (m : Member) → (m.mapNames f).parts = m.parts.map (ArrayShape.mapNames f)
  | .elem e => rfl
  | .shape s => by simp only [Member.mapNames, Member.parts, ArrayShape.parts_mapNames s]

theorem Member.partsList_mapNames : (ms : List Member) →
    Member.partsList (Member.mapNamesList f ms) = (Member.partsList ms).map (ArrayShape.mapNames f)
  | [] => rfl
  | m :: ms => by
    simp only [Member.mapNamesList, Member.partsList, Member.parts_mapNames m,
      Member.partsList_mapNames ms, List.map_append]

end

mutual

/-- A map that keeps the element types of a shape keeps the shape. -/
theorem ArrayShape.mapNames_eq_self :
    (s : ArrayShape) → (∀ e ∈ s.names, f e = e) → s.mapNames f = s
  | ⟨c, n, d⟩, h => by
    rw [ArrayShape.mapNames, Contents.mapNames_eq_self c h]

theorem Contents.mapNames_eq_self :
    (c : Contents) → (∀ e ∈ c.names, f e = e) → c.mapNames f = c
  | .simple e, h => by rw [Contents.mapNames, h e (by simp [Contents.names])]
  | .tuple ms, h => by rw [Contents.mapNames, Member.mapNamesList_eq_self ms h]
  | .nested s, h => by rw [Contents.mapNames, ArrayShape.mapNames_eq_self s h]

theorem Member.mapNames_eq_self : (m : Member) → (∀ e ∈ m.names, f e = e) → m.mapNames f = m
  | .elem e, h => by rw [Member.mapNames, h e (by simp [Member.names])]
  | .shape s, h => by rw [Member.mapNames, ArrayShape.mapNames_eq_self s h]

theorem Member.mapNamesList_eq_self : (ms : List Member) →
    (∀ e ∈ Member.namesList ms, f e = e) → Member.mapNamesList f ms = ms
  | [], _ => rfl
  | m :: ms, h => by
    rw [Member.namesList] at h
    obtain ⟨hm, hms⟩ := List.forall_mem_append.1 h
    rw [Member.mapNamesList, Member.mapNames_eq_self m hm, Member.mapNamesList_eq_self ms hms]

end

end MapNames

namespace ElemName

/-- The element type that is read where this one is written. -/
def spelled : ElemName → ElemName
  | .builtin .unknown => .named "unknown"
  | e => e

theorem text_spelled (e : ElemName) : e.spelled.text = e.text := by
  unfold spelled
  split <;> rfl

theorem spelled_eq_self {e : ElemName} (he : e ≠ .builtin .unknown) : e.spelled = e := by
  unfold spelled
  split
  · exact absurd rfl he
  · rfl

/-- No name is read as `unknown`. -/
theorem ofName_ne_unknown (name : String) : ofName name ≠ .builtin .unknown := by
  intro h
  have hfound : Tag.ofName? name = some .unknown := by
    rw [ofName] at h
    split at h
    · next htag => rw [htag, ElemName.builtin.inj h]
    · cases h
  have hmem : Tag.unknown ∈ Tag.recognized := List.mem_of_find?_eq_some hfound
  exact absurd hmem (by decide)

theorem text_ofName (name : String) : (ofName name).text = name := by
  rw [ofName]
  split
  · next htag => simpa [text] using List.find?_some htag
  · rfl

theorem ofName_tagName (t : Tag) : ofName t.name = (builtin t).spelled := by
  cases t <;> rfl

end ElemName

namespace Descriptor

theorem isName_tagName (t : Tag) : IsName t.name.toList := by
  cases t <;> exact ⟨_, _, rfl, by decide, List.all_eq_true.1 (by decide)⟩

mutual

theorem Tree.Denotes.names_known {t : Tree} {s : ArrayShape} :
    t.Denotes s → .builtin .unknown ∉ s.names
  | .simple n _ => by
    simpa [ArrayShape.names, Contents.names] using (ElemName.ofName_ne_unknown n).symm
  | .nested h _ => by simpa [ArrayShape.names, Contents.names] using h.names_known
  | .tuple h => by simpa [ArrayShape.names, Contents.names] using h.names_known

theorem Tree.DenoteMembers.names_known {ts : List Tree} {ms : List Member} :
    Tree.DenoteMembers ts ms → .builtin .unknown ∉ Member.namesList ms
  | .nil => by simp [Member.namesList]
  | .name n h => by
    simpa [Member.namesList, Member.names] using
      And.intro (ElemName.ofName_ne_unknown n).symm h.names_known
  | .shape ht h => by
    simpa [Member.namesList, Member.names] using And.intro ht.names_known h.names_known

end

theorem names_known_of_parse {d : String} {s : ArrayShape} (h : parse d = .ok s) :
    .builtin .unknown ∉ s.names := by
  obtain ⟨t, -, hden⟩ := parse_eq_ok_iff.1 h
  exact hden.names_known

mutual

/-- What a tree denotes is written as the tree is. -/
theorem Tree.Denotes.rendering_eq {t : Tree} {s : ArrayShape} : t.Denotes s → s.rendering = t.text
  | .simple n b => by
    simp only [ArrayShape.rendering, Contents.rendering, Tree.text, ElemName.text_ofName]
  | .nested h b => by
    simp only [ArrayShape.rendering, Contents.rendering, Tree.text, h.rendering_eq]
  | .tuple h => by
    simp only [ArrayShape.rendering, Contents.rendering, Tree.text, h.renderings_eq]

theorem Tree.DenoteMembers.renderings_eq {ts : List Tree} {ms : List Member} :
    Tree.DenoteMembers ts ms → Member.renderings ms = Tree.texts ts
  | .nil => rfl
  | .name n h => by
    simp only [Member.renderings, Member.rendering, Tree.texts, Tree.text, ElemName.text_ofName,
      h.renderings_eq]
  | .shape ht h => by
    simp only [Member.renderings, Member.rendering, Tree.texts, ht.rendering_eq, h.renderings_eq]

end

mutual

/-- The shapes in what a tree denotes are denoted by the parts of the tree. -/
theorem Tree.Denotes.exists_of_mem_parts {t : Tree} {s : ArrayShape} : t.Denotes s → t.Legible →
    ∀ u ∈ s.parts, ∃ t', Tree.Legible t' ∧ t'.Denotes u
  | .simple n b, ht, u, hu => by
    obtain rfl : u = _ := by simpa [ArrayShape.parts, Contents.parts] using hu
    exact ⟨_, ht, .simple n b⟩
  | .nested h b, ht, u, hu => by
    rw [ArrayShape.parts, Contents.parts] at hu
    rcases List.mem_cons.1 hu with rfl | hu
    · exact ⟨_, ht, .nested h b⟩
    · exact h.exists_of_mem_parts (by simpa [Tree.Legible] using ht) u hu
  | .tuple h, ht, u, hu => by
    rw [ArrayShape.parts, Contents.parts] at hu
    rcases List.mem_cons.1 hu with rfl | hu
    · exact ⟨_, ht, .tuple h⟩
    · rw [Tree.Legible] at ht
      exact h.exists_of_mem_parts ht.2 u hu

theorem Tree.DenoteMembers.exists_of_mem_parts {ts : List Tree} {ms : List Member} :
    Tree.DenoteMembers ts ms → Tree.AllLegible ts →
    ∀ u ∈ Member.partsList ms, ∃ t', Tree.Legible t' ∧ t'.Denotes u
  | .nil, _, u, hu => by simp [Member.partsList] at hu
  | .name n h, hts, u, hu => by
    rw [Tree.AllLegible] at hts
    exact h.exists_of_mem_parts hts.2 u (by simpa [Member.partsList, Member.parts] using hu)
  | .shape ht h, hts, u, hu => by
    rw [Tree.AllLegible] at hts
    rw [Member.partsList, Member.parts] at hu
    rcases List.mem_append.1 hu with hu | hu
    · exact ht.exists_of_mem_parts hts.1 u hu
    · exact h.exists_of_mem_parts hts.2 u hu

end

end Descriptor

/-- The description is read as the shape, but for `unknown`. -/
def ArrayShape.IsCanonical (s : ArrayShape) : Prop :=
  Descriptor.parse s.description = .ok (s.mapNames ElemName.spelled)

namespace ArrayShape

open Descriptor

@[simp] theorem description_mapNames (f : ElemName → ElemName) (s : ArrayShape) :
    (s.mapNames f).description = s.description := by
  cases s
  rfl

/-- A canonical shape is, but for `unknown`, what a tree with this text denotes. -/
theorem isCanonical_iff {s : ArrayShape} : s.IsCanonical ↔
    ∃ t : Tree, t.Legible ∧ t.Denotes (s.mapNames ElemName.spelled) := by
  constructor
  · intro h
    obtain ⟨t, ht, hden⟩ := parse_eq_ok_iff.1 h
    exact ⟨t, legible_of_parseTree ht, hden⟩
  · rintro ⟨t, ht, hden⟩
    have htext := hden.description_eq
    rw [description_mapNames] at htext
    rw [IsCanonical, htext]
    exact parse_eq_ok_iff.2 ⟨t, ht.parseTree_text, hden⟩

/-! The ways to make a shape. -/

theorem isCanonical_of_parse {text : String} {s : ArrayShape} (h : parse text = .ok s) :
    s.IsCanonical := by
  have hnames : s.mapNames ElemName.spelled = s := by
    refine s.mapNames_eq_self fun e he => ElemName.spelled_eq_self ?_
    rintro rfl
    exact names_known_of_parse h he
  rw [IsCanonical, hnames]
  exact (parse_description h).1

theorem isCanonical_ofElem (t : Tag) : (ofElem (.builtin t)).IsCanonical := by
  refine isCanonical_iff.2 ⟨.arrayOf (.name t.name) false, ?_, ?_⟩
  · simpa [Tree.Legible] using isName_tagName t
  · have hden := Tree.Denotes.simple t.name false
    rwa [ElemName.ofName_tagName] at hden

theorem IsCanonical.arrayOf {s : ArrayShape} (h : s.IsCanonical) :
    (ArrayShape.arrayOf s).IsCanonical := by
  obtain ⟨t, ht, hden⟩ := isCanonical_iff.1 h
  refine isCanonical_iff.2 ⟨.arrayOf t false, by simpa [Tree.Legible] using ht, ?_⟩
  have hnested := Tree.Denotes.nested hden false
  have htext := hden.description_eq
  rw [description_mapNames] at htext
  rw [Tree.text, ← htext] at hnested
  exact hnested

theorem isCanonical_nestedAny (depth : Nat) : (nestedAny depth).IsCanonical := by
  induction depth with
  | zero => exact isCanonical_ofElem .any
  | succ depth ih => exact ih.arrayOf

/-! What a canonical shape is like. -/

namespace IsCanonical

variable {s t : ArrayShape}

theorem of_mem_parts (h : s.IsCanonical) {u : ArrayShape} (hu : u ∈ s.parts) : u.IsCanonical := by
  obtain ⟨t, ht, hden⟩ := isCanonical_iff.1 h
  refine isCanonical_iff.2 (hden.exists_of_mem_parts ht _ ?_)
  rw [parts_mapNames]
  exact List.mem_map_of_mem hu

theorem description_eq (h : s.IsCanonical) : s.description = s.rendering := by
  obtain ⟨t, -, hden⟩ := isCanonical_iff.1 h
  rw [← rendering_mapNames ElemName.text_spelled s, hden.rendering_eq, ← hden.description_eq,
    description_mapNames]

/-- A tuple has members, and no marker of its own. -/
theorem of_tuple (h : s.IsCanonical) {ms : List Member} (hs : s.contents = .tuple ms) :
    ms ≠ [] ∧ s.nonEmpty = false := by
  obtain ⟨t, ht, hden⟩ := isCanonical_iff.1 h
  obtain ⟨c, n, d⟩ := s
  obtain rfl : c = .tuple ms := hs
  rw [mapNames, Contents.mapNames] at hden
  cases hden with
  | tuple hmembers =>
    refine ⟨?_, rfl⟩
    rintro rfl
    rw [Tree.Legible] at ht
    cases hmembers
    exact ht.1 rfl

theorem mapNames_eq (hs : s.IsCanonical) (ht : t.IsCanonical)
    (h : s.description = t.description) :
    s.mapNames ElemName.spelled = t.mapNames ElemName.spelled := by
  have hread : parse s.description = .ok (s.mapNames ElemName.spelled) := hs
  rw [h, show parse t.description = .ok (t.mapNames ElemName.spelled) from ht] at hread
  exact (Except.ok.inj hread).symm

end IsCanonical
end ArrayShape
end TagCheck
