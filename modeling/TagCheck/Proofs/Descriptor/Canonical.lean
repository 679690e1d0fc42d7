import Mathlib.Tactic.SplitIfs
import TagCheck.Proofs.Descriptor.Grammar

/-! The text of a tree is a descriptor of that tree, written without blanks and parentheses. Main
statement: the description of an array shape is its canonical form, so that two descriptors denote
one shape exactly when they have one description. -/
namespace TagCheck
namespace Descriptor

/-- The characters of a name: a letter, `_` or `$`, and then digits as well. -/
def IsName (cs : List Char) : Prop :=
  ∃ c rest, cs = c :: rest ∧ isNameStart c = true ∧ ∀ x ∈ rest, isNamePart x = true

theorem isNamePart_of_isNameStart {c : Char} (h : isNameStart c = true) : isNamePart c = true := by
  simp only [isNameStart, isNamePart, Char.isAlphanum, Bool.or_eq_true] at *
  exact h.imp_left fun h => h.imp_left .inl

/-- Names are written in the ASCII range, and none of the other characters of a descriptor is. -/
theorem not_separator_of_isNamePart {c : Char} (h : isNamePart c = true) :
    Text.isBlank c = false ∧ c ∉ ['(', ')', '<', '>', ',', '['] := by
  have hbetween {low high : UInt32} (h : (c.val ≥ low && c.val ≤ high) = true) :
      low.toNat ≤ c.toNat ∧ c.toNat ≤ high.toNat := by
    simpa [UInt32.le_iff_toNat_le] using h
  simp only [isNamePart, Char.isAlphanum, Bool.or_eq_true, beq_iff_eq] at h
  have hrange : (48 ≤ c.toNat ∧ c.toNat ≤ 57) ∨ (65 ≤ c.toNat ∧ c.toNat ≤ 90) ∨
      (97 ≤ c.toNat ∧ c.toNat ≤ 122) ∨ c.toNat = 95 ∨ c.toNat = 36 := by
    rcases h with ((h | h) | rfl) | rfl
    · rcases Bool.or_eq_true_iff.1 (show (c.isUpper || c.isLower) = true from h) with h | h
      · exact .inr (.inl (of_decide_eq_true h))
      · exact .inr (.inr (.inl (hbetween h)))
    · exact .inl (hbetween h)
    · simp
    · simp
  constructor
  · simp only [Text.isBlank, Bool.or_eq_false_iff, Bool.and_eq_false_iff, decide_eq_false_iff_not,
      beq_eq_false_iff_ne, Nat.not_le]
    omega
  · intro hc
    simp only [List.mem_cons, List.not_mem_nil, or_false] at hc
    rcases hc with rfl | rfl | rfl | rfl | rfl | rfl <;> simp at hrange

theorem begin_of_isNameStart {c : Char} (h : isNameStart c = true) (offset : Nat) :
    begin c offset = .ok (.name offset [c], []) := by
  obtain ⟨hblank, hother⟩ := not_separator_of_isNamePart (isNamePart_of_isNameStart h)
  simp only [List.mem_cons, List.not_mem_nil, or_false, not_or] at hother
  simp [begin, hblank, hother, h]

section Reading

def Token.Legible : Token → Prop
  | .name s => IsName s.toList
  | _ => True

def Mode.Legible : Mode → Prop
  | .name _ chars => IsName chars.reverse
  | _ => True

theorem legible_of_begin {c : Char} {offset : Nat} {mode : Mode} {ts : List (Token × Nat)}
    (h : begin c offset = .ok (mode, ts)) : mode.Legible ∧ ∀ t ∈ ts, t.1.Legible := by
  unfold begin at h
  split_ifs at h with _ _ _ _ _ _ _ hstart <;> cases h
  all_goals simp [Mode.Legible, Token.Legible]
  exact ⟨c, [], rfl, hstart, by simp⟩

theorem legible_of_tokensFrom {mode : Mode} {cs : List (Char × Nat)} {ts : List (Token × Nat)}
    (h : tokensFrom mode cs = .ok ts) (hmode : mode.Legible) : ∀ t ∈ ts, t.1.Legible := by
  induction cs generalizing mode ts with
  | nil =>
    cases mode with
    | between => cases h; simp
    | name start chars =>
      cases h
      simpa [Token.Legible, Mode.Legible] using hmode
    | bracket start nonEmpty => cases h
  | cons x cs ih =>
    obtain ⟨c, offset⟩ := x
    cases mode with
    | between =>
      rw [tokensFrom] at h
      obtain ⟨⟨mode', front⟩, hbegin, h⟩ := bind_eq_ok_iff.1 h
      obtain ⟨rest, hrest, h⟩ := bind_eq_ok_iff.1 h
      cases h
      have hfront := legible_of_begin hbegin
      grind
    | name start chars =>
      rw [tokensFrom] at h
      split at h
      next hpart =>
        refine ih h ?_
        obtain ⟨d, more, hchars, hd, hmore⟩ := hmode
        refine ⟨d, more ++ [c], by simp [hchars], hd, ?_⟩
        simpa [or_imp, forall_and, hpart] using hmore
      next =>
        obtain ⟨⟨mode', front⟩, hbegin, h⟩ := bind_eq_ok_iff.1 h
        obtain ⟨rest, hrest, h⟩ := bind_eq_ok_iff.1 h
        cases h
        have hfront := legible_of_begin hbegin
        have hname : Token.Legible (.name (String.ofList chars.reverse)) := by
          simpa [Token.Legible, Mode.Legible] using hmode
        grind
    | bracket start nonEmpty =>
      rw [tokensFrom] at h
      split_ifs at h
      · exact ih h trivial
      · exact ih h trivial
      · obtain ⟨rest, hrest, h⟩ := bind_eq_ok_iff.1 h
        cases h
        have htail := ih hrest trivial
        simpa [Token.Legible] using htail

mutual

/-- Trees that have a text: names are names, and a tuple has members. -/
def Tree.Legible : Tree → Prop
  | .name s => IsName s.toList
  | .arrayOf inner _ => inner.Legible
  | .tuple members => members ≠ [] ∧ Tree.AllLegible members

def Tree.AllLegible : List Tree → Prop
  | [] => True
  | t :: ts => t.Legible ∧ Tree.AllLegible ts

end

theorem Tree.Legible.brackets {t : Tree} (h : t.Legible) (bs : List Bool) :
    (bs.foldl .arrayOf t).Legible := by
  induction bs generalizing t with
  | nil => exact h
  | cons b bs ih => exact ih (by simpa [Tree.Legible] using h)

mutual

theorem IsShape.legible {ts : List Token} {t : Tree} :
    IsShape ts t → (∀ x ∈ ts, x.Legible) → t.Legible
  | .brackets h bs, hts => (IsPrimary.legible h fun x hx => hts x (by simp [hx])).brackets bs

theorem IsPrimary.legible {ts : List Token} {t : Tree} :
    IsPrimary ts t → (∀ x ∈ ts, x.Legible) → t.Legible
  | .name s, hts => by
    have hs : Token.Legible (.name s) := hts _ (by simp)
    simpa [Tree.Legible, Token.Legible] using hs
  | .group h, hts => IsShape.legible h fun x hx => hts x (by simp [hx])
  | .tuple h, hts => by
    simpa [Tree.Legible] using IsShapes.legible h fun x hx => hts x (by simp [hx])

theorem IsShapes.legible {ts : List Token} {members : List Tree} :
    IsShapes ts members → (∀ x ∈ ts, x.Legible) → members ≠ [] ∧ Tree.AllLegible members
  | .one h, hts => by simpa [Tree.AllLegible] using IsShape.legible h hts
  | .more h hs, hts => by
    have ht := IsShape.legible h fun x hx => hts x (by simp [hx])
    have hrest := IsShapes.legible hs fun x hx => hts x (by simp [hx])
    simp [Tree.AllLegible, ht, hrest.2]

end

theorem legible_of_parseTree {s : String} {t : Tree} (h : parseTree s = .ok t) : t.Legible := by
  obtain ⟨ts, htokens, hshape⟩ := parseTree_eq_ok_iff.1 h
  refine hshape.legible fun x hx => ?_
  obtain ⟨token, htoken, rfl⟩ := List.mem_map.1 hx
  exact legible_of_tokensFrom htokens trivial token htoken

end Reading

section Printing

/-- The characters are read as the tokens, wherever they stand, unless the text behind them goes
on with a name. -/
def Lexes (cs : List Char) (ts : List Token) : Prop :=
  ∀ offset rest more, (∀ x ∈ rest.head?, isNamePart x.1 = false) →
    tokensFrom .between rest = .ok more →
    ∃ front, tokensFrom .between (withOffsets offset cs ++ rest) = .ok (front ++ more) ∧
      front.map Prod.fst = ts

theorem exists_withOffsets_append (offset : Nat) (cs ds : List Char) : ∃ behind,
    withOffsets offset (cs ++ ds) = withOffsets offset cs ++ withOffsets behind ds := by
  induction cs generalizing offset with
  | nil => exact ⟨offset, rfl⟩
  | cons c cs ih =>
    obtain ⟨behind, h⟩ := ih (offset + c.utf8Size)
    exact ⟨behind, by simp [withOffsets, h]⟩

/-- A name ends where its text cannot go on. -/
theorem tokensFrom_name {start : Nat} {chars cs : List Char} {offset : Nat}
    {rest : List (Char × Nat)} {more : List (Token × Nat)} (hcs : ∀ c ∈ cs, isNamePart c = true)
    (hrest : ∀ x ∈ rest.head?, isNamePart x.1 = false)
    (hmore : tokensFrom .between rest = .ok more) :
    tokensFrom (.name start chars) (withOffsets offset cs ++ rest) =
      .ok ((.name (String.ofList (chars.reverse ++ cs)), start) :: more) := by
  induction cs generalizing chars offset with
  | nil =>
    cases rest with
    | nil =>
      cases hmore
      simp [withOffsets, tokensFrom]
    | cons x rest =>
      obtain ⟨c, o⟩ := x
      rw [tokensFrom] at hmore
      obtain ⟨⟨mode, front⟩, hbegin, hmore⟩ := bind_eq_ok_iff.1 hmore
      obtain ⟨back, hback, hmore⟩ := bind_eq_ok_iff.1 hmore
      cases hmore
      have hc : isNamePart c = false := hrest (c, o) (by simp)
      simp [withOffsets, tokensFrom, hc, hbegin, hback, bind, Except.bind, pure, Except.pure]
  | cons c cs ih =>
    have hnext := @ih (c :: chars) (offset + c.utf8Size) fun x hx => hcs x (by simp [hx])
    simpa [withOffsets, tokensFrom, hcs c (by simp)] using hnext

namespace Lexes

theorem nil : Lexes [] [] := by
  intro offset rest more _ hmore
  exact ⟨[], hmore, rfl⟩

theorem append {cs ds : List Char} {ts us : List Token} (h : Lexes cs ts) (h' : Lexes ds us)
    (hds : ∀ c ∈ ds.head?, isNamePart c = false) : Lexes (cs ++ ds) (ts ++ us) := by
  intro offset rest more hrest hmore
  obtain ⟨behind, hoffsets⟩ := exists_withOffsets_append offset cs ds
  obtain ⟨back, hback, rfl⟩ := h' behind rest more hrest hmore
  have hstop : ∀ x ∈ (withOffsets behind ds ++ rest).head?, isNamePart x.1 = false := by
    cases ds with
    | nil => exact hrest
    | cons d ds => simpa [withOffsets] using hds
  obtain ⟨front, hfront, rfl⟩ := h offset _ _ hstop hback
  exact ⟨front ++ back, by simpa [hoffsets] using hfront, by simp⟩

/-- A character that is a token by itself needs nothing of what follows. -/
theorem symbol_cons {c : Char} {token : Token} {cs : List Char} {ts : List Token}
    (hc : ∀ offset, begin c offset = .ok (.between, [(token, offset)])) (h : Lexes cs ts) :
    Lexes (c :: cs) (token :: ts) := by
  intro offset rest more hrest hmore
  obtain ⟨front, hfront, rfl⟩ := h (offset + c.utf8Size) rest more hrest hmore
  refine ⟨(token, offset) :: front, ?_, by simp⟩
  simp [withOffsets, tokensFrom, hc, hfront, bind, Except.bind, pure, Except.pure]

theorem name {s : String} (h : IsName s.toList) : Lexes s.toList [.name s] := by
  intro offset rest more hrest hmore
  obtain ⟨c, cs, hs, hc, hcs⟩ := h
  have hname := @tokensFrom_name offset [c] cs (offset + c.utf8Size) rest more hcs hrest hmore
  refine ⟨[(.name s, offset)], ?_, rfl⟩
  have htext : String.ofList (c :: cs) = s := by rw [← hs, String.ofList_toList]
  simp only [List.reverse_singleton, List.singleton_append, htext] at hname
  simp [hs, withOffsets, tokensFrom, begin_of_isNameStart hc, hname, bind, Except.bind, pure,
    Except.pure]

theorem brackets (nonEmpty : Bool) : Lexes (brackets nonEmpty).toList [.arrayOf nonEmpty] := by
  intro offset rest more hrest hmore
  refine ⟨[(.arrayOf nonEmpty, offset)], ?_, rfl⟩
  cases nonEmpty <;>
    simp [Descriptor.brackets, withOffsets, tokensFrom, begin, Text.isBlank, hmore, bind,
      Except.bind, pure, Except.pure]

end Lexes

theorem head?_brackets (nonEmpty : Bool) :
    ∀ c ∈ (brackets nonEmpty).toList.head?, isNamePart c = false := by
  have hhead : (brackets nonEmpty).toList.head? = some '[' := by cases nonEmpty <;> rfl
  rw [hhead]
  rintro c ⟨⟩
  decide

theorem Tree.text_tuple_toList (members : List Tree) : (Tree.tuple members).text.toList =
    '<' :: ((",".intercalate (Tree.texts members)).toList ++ ['>']) := by
  simp [Tree.text]

theorem Tree.intercalate_texts_cons (t u : Tree) (ts : List Tree) :
    (",".intercalate (Tree.texts (t :: u :: ts))).toList =
      t.text.toList ++ ',' :: (",".intercalate (Tree.texts (u :: ts))).toList := by
  simp only [Tree.texts, String.intercalate_cons_cons, String.toList_append]
  simp

mutual

/-- The text of a tree is read as tokens that are a sentence for that tree. -/
theorem Tree.Legible.lexes : (t : Tree) → t.Legible →
    ∃ ts, Lexes t.text.toList ts ∧ IsShape ts t
  | .name s, h => by
    rw [Tree.Legible] at h
    exact ⟨[.name s], by simpa [Tree.text] using Lexes.name h, (IsPrimary.name s).isShape⟩
  | .arrayOf inner nonEmpty, h => by
    rw [Tree.Legible] at h
    obtain ⟨ts, hts, hinner⟩ := Tree.Legible.lexes inner h
    refine ⟨ts ++ [Token.arrayOf nonEmpty], ?_, hinner.arrayOf nonEmpty⟩
    simpa [Tree.text] using hts.append (.brackets nonEmpty) (head?_brackets nonEmpty)
  | .tuple members, h => by
    rw [Tree.Legible] at h
    obtain ⟨ts, hts, hmembers⟩ := Tree.AllLegible.lexes members h.1 h.2
    refine ⟨Token.openTuple :: ts ++ [Token.closeTuple], ?_, (IsPrimary.tuple hmembers).isShape⟩
    rw [Tree.text_tuple_toList]
    have hclose : Lexes ['>'] [.closeTuple] := .symbol_cons (fun _ => rfl) .nil
    exact .symbol_cons (fun _ => rfl) (hts.append hclose (by rintro c ⟨⟩; decide))

theorem Tree.AllLegible.lexes : (ts : List Tree) → ts ≠ [] → Tree.AllLegible ts →
    ∃ tokens, Lexes (",".intercalate (Tree.texts ts)).toList tokens ∧ IsShapes tokens ts
  | [], h, _ => absurd rfl h
  | [t], _, h => by
    rw [Tree.AllLegible] at h
    obtain ⟨tokens, htokens, ht⟩ := Tree.Legible.lexes t h.1
    exact ⟨tokens, by simpa [Tree.texts] using htokens, .one ht⟩
  | t :: u :: ts, _, h => by
    rw [Tree.AllLegible] at h
    obtain ⟨front, hfront, ht⟩ := Tree.Legible.lexes t h.1
    obtain ⟨back, hback, hts⟩ := Tree.AllLegible.lexes (u :: ts) (by simp) h.2
    refine ⟨front ++ .comma :: back, ?_, .more ht hts⟩
    rw [Tree.intercalate_texts_cons]
    exact hfront.append (.symbol_cons (fun _ => rfl) hback) (by simp [isNamePart])

end

theorem Tree.Legible.parseTree_text {t : Tree} (h : t.Legible) : parseTree t.text = .ok t := by
  obtain ⟨ts, hts, hshape⟩ := Tree.Legible.lexes t h
  obtain ⟨front, hfront, rfl⟩ := hts 0 [] [] (by simp) rfl
  rw [List.append_nil, List.append_nil] at hfront
  exact parseTree_eq_ok_iff.2 ⟨front, hfront, hshape⟩

def IsTight (c : Char) : Prop := Text.isBlank c = false ∧ c ≠ '(' ∧ c ≠ ')'

instance (c : Char) : Decidable (IsTight c) := inferInstanceAs (Decidable (_ ∧ _ ∧ _))

theorem IsName.isTight {cs : List Char} (h : IsName cs) : ∀ c ∈ cs, IsTight c := by
  intro c hc
  have hpart : isNamePart c = true := by
    obtain ⟨d, rest, rfl, hd, hrest⟩ := h
    rcases List.mem_cons.1 hc with rfl | hc
    · exact isNamePart_of_isNameStart hd
    · exact hrest c hc
  obtain ⟨hblank, hother⟩ := not_separator_of_isNamePart hpart
  simp only [List.mem_cons, not_or] at hother
  exact ⟨hblank, hother.1, hother.2.1⟩

mutual

theorem Tree.Legible.isTight : (t : Tree) → t.Legible → ∀ c ∈ t.text.toList, IsTight c
  | .name s, h => by
    rw [Tree.Legible] at h
    simpa [Tree.text] using h.isTight
  | .arrayOf inner nonEmpty, h => by
    rw [Tree.Legible] at h
    have hinner := Tree.Legible.isTight inner h
    have hbrackets : ∀ c ∈ (brackets nonEmpty).toList, IsTight c := by
      cases nonEmpty <;> simp [brackets, IsTight, Text.isBlank]
    simp only [Tree.text, String.toList_append, List.mem_append]
    exact fun c hc => hc.elim (hinner c) (hbrackets c)
  | .tuple members, h => by
    rw [Tree.Legible] at h
    have hmembers := Tree.AllLegible.isTight members h.2
    rw [Tree.text_tuple_toList]
    simp only [List.mem_cons, List.mem_append, List.not_mem_nil, or_false]
    rintro c (rfl | hc | rfl)
    · decide
    · exact hmembers c hc
    · decide

theorem Tree.AllLegible.isTight : (ts : List Tree) → Tree.AllLegible ts →
    ∀ c ∈ (",".intercalate (Tree.texts ts)).toList, IsTight c
  | [], _ => by simp [Tree.texts]
  | [t], h => by
    rw [Tree.AllLegible] at h
    simpa [Tree.texts] using Tree.Legible.isTight t h.1
  | t :: u :: ts, h => by
    rw [Tree.AllLegible] at h
    have ht := Tree.Legible.isTight t h.1
    have hts := Tree.AllLegible.isTight (u :: ts) h.2
    rw [Tree.intercalate_texts_cons]
    simp only [List.mem_append, List.mem_cons]
    rintro c (hc | rfl | hc)
    · exact ht c hc
    · decide
    · exact hts c hc

end

end Printing

theorem Tree.Denotes.description_eq {t : Tree} {shape : ArrayShape} (h : t.Denotes shape) :
    shape.description = t.text := by
  cases h <;> rfl

theorem parse_description {s : String} {shape : ArrayShape} (h : parse s = .ok shape) :
    parse shape.description = .ok shape ∧ ∀ c ∈ shape.description.toList, IsTight c := by
  obtain ⟨t, ht, hden⟩ := parse_eq_ok_iff.1 h
  have hlegible := legible_of_parseTree ht
  rw [hden.description_eq]
  exact ⟨parse_eq_ok_iff.2 ⟨t, hlegible.parseTree_text, hden⟩, hlegible.isTight⟩

/-- The description of a shape is a descriptor of it without blanks and parentheses, and two
descriptors that are read at all denote one shape exactly when they have one description. -/
theorem description_canonical :
    (∀ s shape, parse s = .ok shape →
      parse shape.description = .ok shape ∧ ∀ c ∈ shape.description.toList, IsTight c) ∧
    ∀ s₁ s₂ shape₁ shape₂, parse s₁ = .ok shape₁ → parse s₂ = .ok shape₂ →
      (shape₁ = shape₂ ↔ shape₁.description = shape₂.description) := by
  constructor
  · intro s shape h
    exact parse_description h
  · intro s₁ s₂ shape₁ shape₂ h₁ h₂
    have hread₁ := (parse_description h₁).1
    have hread₂ := (parse_description h₂).1
    constructor
    · rintro rfl
      rfl
    · intro heq
      rw [heq, hread₂] at hread₁
      exact (Except.ok.inj hread₁).symm

/-- Blanks and parentheses make no difference. -/
theorem description_canonical_of_blanks : ∃ shape,
    parse " <(int [ ]), string>[ + ]" = .ok shape ∧ parse "<int[],(string)>[+]" = .ok shape ∧
    shape.description = "<int[],string>[+]" := by
  obtain ⟨shape₁, hread₁⟩ : ∃ shape, parse " <(int [ ]), string>[ + ]" = .ok shape := ⟨_, rfl⟩
  obtain ⟨shape₂, hread₂⟩ : ∃ shape, parse "<int[],(string)>[+]" = .ok shape := ⟨_, rfl⟩
  have h₁ : (parse " <(int [ ]), string>[ + ]").map (·.description) = .ok "<int[],string>[+]" := by
    rfl
  have h₂ : (parse "<int[],(string)>[+]").map (·.description) = .ok "<int[],string>[+]" := by
    rfl
  rw [hread₁] at h₁
  rw [hread₂] at h₂
  have hsame : shape₁.description = shape₂.description :=
    (Except.ok.inj h₁).trans (Except.ok.inj h₂).symm
  obtain rfl := (description_canonical.2 _ _ shape₁ shape₂ hread₁ hread₂).2 hsame
  exact ⟨shape₁, hread₁, hread₂, Except.ok.inj h₁⟩

end Descriptor
end TagCheck
