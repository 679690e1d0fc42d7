import TagCheck.Proofs.Descriptor.Canonical

/-! Where a descriptor is at fault. Main statement: an error that carries an offset carries that of
the text that it reports, and what stands before the token at fault is the beginning of a
descriptor. -/
namespace TagCheck
namespace Descriptor

/-- The text stands at a byte offset, and a character begins there. -/
def StandsAt (s text : String) (offset : Nat) : Prop :=
  text ≠ "" ∧ ∃ before after, s = before ++ text ++ after ∧ before.utf8ByteSize = offset

theorem StandsAt.lt {s text : String} {offset : Nat} (h : StandsAt s text offset) :
    offset < s.utf8ByteSize := by
  obtain ⟨hne, before, after, rfl, rfl⟩ := h
  have hpos : text.utf8ByteSize ≠ 0 := mt String.utf8ByteSize_eq_zero_iff.1 hne
  simp only [String.utf8ByteSize_append]
  omega

def Token.opening : Token → String
  | name s => s
  | arrayOf _ => "["
  | openGroup => "("
  | closeGroup => ")"
  | openTuple => "<"
  | closeTuple => ">"
  | comma => ","

def Error.place? : Error → Option (String × Nat)
  | empty | notAnArray _ => none
  | unexpectedChar c offset | unexpectedOpen c offset | missingMember c offset
  | unmatched c offset | unterminated c offset => some (String.singleton c, offset)
  | consecutiveTypes name offset => some (name, offset)
  | missingOperand _ offset => some ("[", offset)
  | commaOutsideTuple offset => some (",", offset)
  | emptyTuple offset => some ("<", offset)
  | emptyGroup offset => some ("(", offset)

def Error.IsLocated (s : String) (e : Error) : Prop :=
  ∀ text offset, e.place? = some (text, offset) → StandsAt s text offset

def Shows (s text : String) (offset : Nat) : Prop :=
  StandsAt s text offset ∧ text.toList.all (!Text.isBlank ·) = true

/-- The same of an error, or a name is what it reports. -/
def Error.IsShown (s : String) (e : Error) : Prop :=
  (∀ text offset, e.place? = some (text, offset) → Shows s text offset) ∧
    ∀ name, e = .notAnArray name → IsName name.toList

theorem Error.isShown_of_place {s text : String} {offset : Nat} {e : Error}
    (he : e.place? = some (text, offset)) (h : Shows s text offset) : e.IsShown s := by
  constructor
  · intro text' offset' he'
    cases he.symm.trans he'
    exact h
  · rintro name rfl
    cases he

/-- A result with the property, or an error that shows where it is. -/
def Pinpoints {α : Type} (s : String) (P : α → Prop) : Except Error α → Prop
  | .ok a => P a
  | .error e => e.IsShown s

theorem Pinpoints.bind {α β : Type} {s : String} {P : α → Prop} {Q : β → Prop}
    {x : Except Error α} {f : α → Except Error β} (h : Pinpoints s P x)
    (hf : ∀ a, P a → Pinpoints s Q (f a)) : Pinpoints s Q (x >>= f) := by
  cases x with
  | error e => exact h
  | ok a => exact hf a h

/-! Tokens. -/

/-- What the reader keeps in mind stands in the text that it has read. -/
def Mode.Located (s before : String) : Mode → Prop
  | between => True
  | name start chars => chars ≠ [] ∧ chars.all (!Text.isBlank ·) = true ∧
      ∃ front, before = front ++ String.ofList chars.reverse ∧ front.utf8ByteSize = start
  | bracket start _ => Shows s "[" start

def AllLocated (s : String) (ts : List (Token × Nat)) : Prop :=
  ∀ t ∈ ts, Shows s t.1.opening t.2

theorem AllLocated.append {s : String} {ts us : List (Token × Nat)} (h : AllLocated s ts)
    (h' : AllLocated s us) : AllLocated s (ts ++ us) :=
  fun t ht => (List.mem_append.1 ht).elim (h t) (h' t)

section

variable {s before : String} {c : Char} {cs : List Char}

theorem shows_next (hs : s = before ++ String.ofList (c :: cs)) (hc : ¬ Text.isBlank c = true) :
    Shows s (String.singleton c) before.utf8ByteSize := by
  refine ⟨⟨by simp, before, String.ofList cs, ?_, rfl⟩, by simp [hc]⟩
  rw [hs, String.ofList_cons, String.append_assoc]

theorem pinpoints_begin (hs : s = before ++ String.ofList (c :: cs)) :
    Pinpoints s (fun r => r.1.Located s (before.push c) ∧ AllLocated s r.2)
      (begin c before.utf8ByteSize) := by
  have hnone : AllLocated s [] := by simp [AllLocated]
  unfold begin
  by_cases hblank : Text.isBlank c = true
  · rw [if_pos hblank]
    exact ⟨trivial, hnone⟩
  rw [if_neg hblank]
  have hnext := shows_next hs hblank
  have hsymbol {token : Token} (hc : String.singleton c = token.opening) :
      AllLocated s [(token, before.utf8ByteSize)] := by
    intro t ht
    rw [List.mem_singleton.1 ht]
    exact hc ▸ hnext
  split_ifs with h₁ h₂ h₃ h₄ h₅ h₆
  · exact ⟨trivial, hsymbol (h₁ ▸ rfl)⟩
  · exact ⟨trivial, hsymbol (h₂ ▸ rfl)⟩
  · exact ⟨trivial, hsymbol (h₃ ▸ rfl)⟩
  · exact ⟨trivial, hsymbol (h₄ ▸ rfl)⟩
  · exact ⟨trivial, hsymbol (h₅ ▸ rfl)⟩
  · exact ⟨h₆ ▸ hnext, hnone⟩
  · exact ⟨⟨by simp, by simp [hblank], before, by simp, rfl⟩, hnone⟩
  · exact Error.isShown_of_place rfl hnext

/-- A name that has been read stands where it began. -/
theorem shows_name {start : Nat} {chars : List Char} (hs : s = before ++ String.ofList cs)
    (h : (Mode.name start chars).Located s before) :
    Shows s (String.ofList chars.reverse) start := by
  obtain ⟨hne, hsolid, front, rfl, hstart⟩ := h
  exact ⟨⟨by simpa using hne, front, String.ofList cs, hs, hstart⟩, by simpa using hsolid⟩

end

theorem pinpoints_tokensFrom {s : String} (cs : List Char) {mode : Mode} {before : String}
    (hs : s = before ++ String.ofList cs) (hmode : mode.Located s before) :
    Pinpoints s (AllLocated s) (tokensFrom mode (withOffsets before.utf8ByteSize cs)) := by
  induction cs generalizing mode before with
  | nil =>
    cases mode with
    | between => simp [withOffsets, tokensFrom, Pinpoints, AllLocated]
    | name start chars =>
      have hname := shows_name hs hmode
      simpa [withOffsets, tokensFrom, Pinpoints, AllLocated, Token.opening] using hname
    | bracket start nonEmpty => exact Error.isShown_of_place rfl hmode
  | cons c cs ih =>
    have hsize : (before.push c).utf8ByteSize = before.utf8ByteSize + c.utf8Size :=
      String.utf8ByteSize_push
    have hpush : s = before.push c ++ String.ofList cs := by
      rw [hs, String.ofList_cons, ← String.append_singleton, String.append_assoc]
    -- What follows this character, read in any mode that fits the text before it.
    have hrest {mode' : Mode} (hmode' : mode'.Located s (before.push c)) {front}
        (hfront : AllLocated s front) : Pinpoints s (AllLocated s) (do
          return front ++ (← tokensFrom mode' (withOffsets (before.push c).utf8ByteSize cs))) :=
      (ih hpush hmode').bind fun more hmore => hfront.append hmore
    rw [withOffsets, ← hsize]
    cases mode with
    | between =>
      rw [tokensFrom]
      exact (pinpoints_begin hs).bind fun r hr => hrest hr.1 hr.2
    | name start chars =>
      rw [tokensFrom]
      split
      · next hpart =>
        obtain ⟨-, hsolid, front, rfl, hstart⟩ := hmode
        have hc := (not_separator_of_isNamePart hpart).1
        refine ih hpush ⟨by simp, by rw [List.all_cons, hsolid, hc]; rfl, front, ?_, hstart⟩
        rw [← String.append_singleton, List.reverse_cons, String.ofList_append, String.append_assoc,
          String.singleton_eq_ofList]
      · have hname : AllLocated s [(.name (String.ofList chars.reverse), start)] := by
          simpa [AllLocated, Token.opening] using shows_name hs hmode
        exact (pinpoints_begin hs).bind fun r hr => hrest hr.1 (hname.append hr.2)
    | bracket start nonEmpty =>
      rw [tokensFrom]
      split_ifs with hblank
      · exact ih hpush hmode
      · exact ih hpush hmode
      · have hbrackets : AllLocated s [(.arrayOf nonEmpty, start)] := by
          intro t ht
          rw [List.mem_singleton.1 ht]
          exact hmode
        exact hrest (show Mode.Located s (before.push c) .between from trivial) hbrackets
      · exact Error.isShown_of_place rfl (shows_next hs hblank)

theorem pinpoints_tokens (s : String) : Pinpoints s (AllLocated s) (tokens s) := by
  have hs : s = "" ++ String.ofList s.toList := by simp
  exact pinpoints_tokensFrom s.toList hs trivial

/-! Trees. -/

/-- What is open was opened in the text. -/
def Context.Located (s : String) : Context → Prop
  | root => True
  | group opened outer => Shows s "(" opened ∧ outer.Located s
  | tuple opened _ outer => Shows s "<" opened ∧ outer.Located s

theorem pinpoints_step {s : String} {p : Progress} {token : Token} {offset : Nat}
    (hp : p.context.Located s) (ht : Shows s token.opening offset) :
    Pinpoints s (fun q => q.context.Located s) (p.step (token, offset)) := by
  obtain ⟨c, current⟩ := p
  have herror {e : Error} (he : e.place? = some (token.opening, offset)) : e.IsShown s :=
    Error.isShown_of_place he ht
  cases token with
  | name =>
    cases current with
    | none => exact hp
    | some t => exact herror rfl
  | arrayOf =>
    cases current with
    | none => exact herror rfl
    | some t => exact hp
  | openGroup | openTuple =>
    cases current with
    | none => exact ⟨ht, hp⟩
    | some t => exact herror rfl
  | comma =>
    cases c with
    | root | group => exact herror rfl
    | tuple =>
      cases current with
      | none => exact herror rfl
      | some t => exact hp
  | closeGroup =>
    cases c with
    | root | tuple => exact herror rfl
    | group =>
      cases current with
      | none => exact Error.isShown_of_place rfl hp.1
      | some t => exact hp.2
  | closeTuple =>
    cases c with
    | root | group => exact herror rfl
    | tuple opened members =>
      cases current with
      | none =>
        cases members with
        | nil => exact Error.isShown_of_place rfl hp.1
        | cons => exact herror rfl
      | some t => exact hp.2

theorem pinpoints_finish {s : String} {p : Progress} (hp : p.context.Located s) :
    Pinpoints s (fun _ => True) p.finish := by
  obtain ⟨c, current⟩ := p
  cases c with
  | root =>
    cases current with
    | none => simp [Progress.finish, Pinpoints, Error.IsShown, Error.place?]
    | some t => trivial
  | group | tuple => exact Error.isShown_of_place rfl hp.1

theorem pinpoints_foldlM {s : String} {ts : List (Token × Nat)} (hts : AllLocated s ts)
    {p : Progress} (hp : p.context.Located s) :
    Pinpoints s (fun q => q.context.Located s) (ts.foldlM Progress.step p) := by
  induction ts generalizing p with
  | nil => exact hp
  | cons t ts ih =>
    rw [List.foldlM_cons]
    refine (pinpoints_step hp (hts t (by simp))).bind fun q hq => ?_
    exact ih (fun u hu => hts u (by simp [hu])) hq

theorem pinpoints_parseTree (s : String) : Pinpoints s (fun _ => True) (parseTree s) :=
  (pinpoints_tokens s).bind fun _ hts =>
    (pinpoints_foldlM hts (p := ⟨.root, none⟩) trivial).bind fun _ hq => pinpoints_finish hq

theorem isShown_of_parse {s : String} {e : Error} (h : parse s = .error e) : e.IsShown s := by
  have htree := pinpoints_parseTree s
  unfold parse at h
  cases ht : parseTree s with
  | error e' =>
    rw [ht] at h htree
    cases h
    exact htree
  | ok t =>
    rw [ht] at h
    cases t with
    | name n =>
      cases h
      refine ⟨by simp [Error.place?], ?_⟩
      rintro _ ⟨⟩
      simpa [Tree.Legible, Tree.text] using legible_of_parseTree ht
    | _ => cases h

theorem isLocated_of_parse {s : String} {e : Error} (h : parse s = .error e) : e.IsLocated s :=
  fun text offset he => ((isShown_of_parse h).1 text offset he).1

/-! What stands before a fault. -/

/-- The next token is at fault, or the end if there is none. -/
def Progress.Fails (p : Progress) (e : Error) : List (Token × Nat) → Prop
  | [] => p.finish = .error e
  | t :: _ => p.step t = .error e

theorem exists_fault {ts : List (Token × Nat)} {p : Progress} {e : Error}
    (h : ts.foldlM Progress.step p >>= Progress.finish = .error e) :
    ∃ before after q, ts = before ++ after ∧ before.foldlM Progress.step p = .ok q ∧
      q.Fails e after := by
  induction ts generalizing p with
  | nil => exact ⟨[], [], p, rfl, rfl, h⟩
  | cons t ts ih =>
    rw [List.foldlM_cons] at h
    cases hstep : p.step t with
    | error e' =>
      rw [hstep] at h
      obtain rfl : e' = e := Except.error.inj h
      exact ⟨[], t :: ts, p, rfl, rfl, hstep⟩
    | ok p' =>
      rw [hstep] at h
      obtain ⟨before, after, q, rfl, hrun, hfails⟩ := ih h
      refine ⟨t :: before, after, q, rfl, ?_, hfails⟩
      rw [List.foldlM_cons, hstep]
      exact hrun

/-- What is open can be closed. -/
theorem Context.exists_leads (c : Context) (t : Tree) :
    ∃ ts t', Progress.Leads ⟨c, some t⟩ ts ⟨.root, some t'⟩ ∧ ∀ u ∈ ts, u.Legible := by
  induction c generalizing t with
  | root => exact ⟨[], t, .nil, by simp⟩
  | group opened outer ih =>
    obtain ⟨ts, t', hts, hlegible⟩ := ih t
    exact ⟨.closeGroup :: ts, t', .cons fun _ => ⟨_, rfl, hts⟩, by simpa [Token.Legible]⟩
  | tuple opened members outer ih =>
    obtain ⟨ts, t', hts, hlegible⟩ := ih (.tuple (members ++ [t]))
    exact ⟨.closeTuple :: ts, t', .cons fun _ => ⟨_, rfl, hts⟩, by simpa [Token.Legible]⟩

theorem Progress.exists_leads (p : Progress) :
    ∃ ts t, p.Leads ts ⟨.root, some t⟩ ∧ ∀ u ∈ ts, u.Legible := by
  obtain ⟨c, current⟩ := p
  cases current with
  | some t => exact c.exists_leads t
  | none =>
    obtain ⟨ts, t, hts, hlegible⟩ := c.exists_leads (.name "a")
    refine ⟨.name "a" :: ts, t, .cons fun _ => ⟨_, rfl, hts⟩, ?_⟩
    rintro u (_ | ⟨_, hu⟩)
    · exact ⟨'a', [], rfl, rfl, by simp⟩
    · exact hlegible u hu

/-- Tokens whose names are names can be written down, with a blank behind each. -/
theorem exists_lexes {ts : List Token} (h : ∀ t ∈ ts, t.Legible) : ∃ cs, Lexes cs ts := by
  induction ts with
  | nil => exact ⟨[], .nil⟩
  | cons t ts ih =>
    obtain ⟨cs, hcs⟩ := ih fun u hu => h u (by simp [hu])
    have hblank : Lexes (' ' :: cs) ts := by
      intro offset rest more hrest hmore
      obtain ⟨front, hfront, rfl⟩ := hcs (offset + ' '.utf8Size) rest more hrest hmore
      refine ⟨front, ?_, rfl⟩
      simp [withOffsets, tokensFrom, begin, Text.isBlank, hfront, bind, Except.bind, pure,
        Except.pure]
    have htoken : ∃ ds, Lexes ds [t] := by
      cases t with
      | name s =>
        have hname : (Token.name s).Legible := h _ (by simp)
        exact ⟨_, .name hname⟩
      | arrayOf nonEmpty => exact ⟨_, .brackets nonEmpty⟩
      | openGroup => exact ⟨['('], .symbol_cons (fun _ => rfl) .nil⟩
      | closeGroup => exact ⟨[')'], .symbol_cons (fun _ => rfl) .nil⟩
      | openTuple => exact ⟨['<'], .symbol_cons (fun _ => rfl) .nil⟩
      | closeTuple => exact ⟨['>'], .symbol_cons (fun _ => rfl) .nil⟩
      | comma => exact ⟨[','], .symbol_cons (fun _ => rfl) .nil⟩
    obtain ⟨ds, hds⟩ := htoken
    exact ⟨ds ++ ' ' :: cs, hds.append hblank (by simp [isNamePart])⟩

/-- The offset of an error is that of a character at which the reported text stands, and the tokens
before the one at fault can be continued to a descriptor. -/
theorem error_locates_fault (s : String) :
    (∀ e, parse s = .error e → ∀ text offset, e.place? = some (text, offset) →
      StandsAt s text offset ∧ offset < s.utf8ByteSize) ∧
    ∀ ts e, tokens s = .ok ts → treeOfTokens ts = .error e → ∃ before after q,
      ts = before ++ after ∧ before.foldlM Progress.step ⟨.root, none⟩ = .ok q ∧ q.Fails e after ∧
      ∃ s' ts' more t, tokens s' = .ok ts' ∧ ts'.map Prod.fst = before.map Prod.fst ++ more ∧
        parseTree s' = .ok t := by
  refine ⟨fun e he text offset hplace => ?_, fun ts e hts he => ?_⟩
  · have hat := isLocated_of_parse he text offset hplace
    exact ⟨hat, hat.lt⟩
  · obtain ⟨before, after, q, rfl, hrun, hfails⟩ := exists_fault he
    obtain ⟨more, t, hmore, hlegible⟩ := q.exists_leads
    have hall : ∀ u ∈ before.map Prod.fst ++ more, u.Legible := by
      intro u hu
      rcases List.mem_append.1 hu with hu | hu
      · obtain ⟨token, htoken, rfl⟩ := List.mem_map.1 hu
        exact legible_of_tokensFrom hts trivial token (by simp [htoken])
      · exact hlegible u hu
    obtain ⟨cs, hcs⟩ := exists_lexes hall
    obtain ⟨ts', hts', hfst⟩ := hcs 0 [] [] (by simp) rfl
    rw [List.append_nil, List.append_nil] at hts'
    -- The offsets differ from those in `s`, and the grammar takes no account of them.
    have hstart : Progress.Reads ⟨.root, none⟩ [] := rfl
    have hlast := (hstart.run hrun).run (hmore (more.map (·, 0)) (by simp [Function.comp_def]))
    obtain ⟨_, us, rfl, hshape, heq⟩ := hlast
    have hus : ts'.map Prod.fst = us := by simpa [hfst, Function.comp_def] using heq
    have htokens : tokens (String.ofList cs) = .ok ts' := by rwa [tokens, String.toList_ofList]
    refine ⟨before, after, q, rfl, hrun, hfails, String.ofList cs, ts', more, t, htokens, hfst, ?_⟩
    exact parseTree_eq_ok_iff.2 ⟨ts', htokens, hus ▸ hshape⟩

/-- A closer that fits no opener, behind a blank of several bytes. -/
theorem error_locates_fault_behind_blank :
    parse "<int,\u2003)" = .error (.unmatched ')' 8) ∧ StandsAt "<int,\u2003)" ")" 8 ∧
    ∃ ts before s' ts' more t, tokens "<int,\u2003)" = .ok ts ∧
      treeOfTokens ts = .error (.unmatched ')' 8) ∧ before <+: ts ∧ tokens s' = .ok ts' ∧
      ts'.map Prod.fst = before.map Prod.fst ++ more ∧ parseTree s' = .ok t := by
  obtain ⟨ts, hts⟩ : ∃ ts, tokens "<int,\u2003)" = .ok ts := ⟨_, rfl⟩
  have hparse : parse "<int,\u2003)" = .error (.unmatched ')' 8) := rfl
  have htree : treeOfTokens ts = .error (.unmatched ')' 8) := by
    cases hts
    rfl
  obtain ⟨hplace, hfault⟩ := error_locates_fault "<int,\u2003)"
  obtain ⟨before, after, q, hsplit, -, -, s', ts', more, t, hts', hmore, ht⟩ :=
    hfault ts _ hts htree
  exact ⟨hparse, (hplace _ hparse _ _ rfl).1, ts, before, s', ts', more, t, hts, htree,
    ⟨after, hsplit.symm⟩, hts', hmore, ht⟩

end Descriptor
end TagCheck
