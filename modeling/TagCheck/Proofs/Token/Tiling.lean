import Mathlib.Data.List.Infix
import TagCheck.Proofs.Token.Positions

/-! A source is cut without remainder into blanks and comments on the one hand and the texts of its
tokens on the other. What a token is written like, and where it stands, is said here without the
scanner. -/
namespace TagCheck

/-- Where a text stands that a source has behind the given one: lines are counted by the line feeds
passed, columns by the characters since the last of them. -/
def Position.behind (before : List Char) : Position :=
  ⟨1 + before.count '\n', 1 + (before.reverse.takeWhile (· != '\n')).length⟩

theorem Position.after_behind (before : List Char) (c : Char) :
    (behind before).after c = behind (before ++ [c]) := by
  unfold after behind
  by_cases hc : c = '\n'
  · simp [hc, Nat.add_assoc]
  · simp [hc, Nat.add_comm]

theorem endFrom_behind (before cs : List Char) :
    endFrom (.behind before) cs = .behind (before ++ cs) := by
  induction cs generalizing before with
  | nil => simp [endFrom]
  | cons c cs ih =>
    have hnext := ih (before ++ [c])
    rwa [← Position.after_behind, List.append_assoc] at hnext

/-- Characters that stand where a source has them behind the given text. -/
def Placed (before : List Char) (gs : List Glyph) : Prop :=
  gs = glyphsFrom (.behind before) (gs.map Glyph.char)

theorem placed_cons {before : List Char} {g : Glyph} {gs : List Glyph} :
    Placed before (g :: gs) ↔ g.pos = .behind before ∧ Placed (before ++ [g.char]) gs := by
  simp only [Placed, List.map_cons, glyphsFrom, Position.after_behind, List.cons.injEq]
  refine and_congr_left fun _ => ⟨fun h => by rw [h], fun h => by rw [← h]⟩

theorem chars_glyphsFrom (p : Position) (cs : List Char) :
    (glyphsFrom p cs).map Glyph.char = cs := by
  induction cs generalizing p with
  | nil => rfl
  | cons c cs ih => simp [glyphsFrom, ih]

theorem placed_glyphsFrom (cs : List Char) : Placed [] (glyphsFrom .start cs) := by
  unfold Placed
  rw [chars_glyphsFrom]
  rfl

/-! Blanks and comments. -/

def StartsTrivia (cs : List Char) : Prop :=
  (∃ c ∈ cs.head?, Text.isBlank c = true) ∨ ['/', '/'] <+: cs ∨ ['/', '*'] <+: cs

/-- Blanks and comments, before the given text. A line comment goes up to a line feed or the end of
the source, a block comment up to the first sign that closes it. -/
inductive IsTrivia (rest : List Char) : List Char → Prop where
  | nil : IsTrivia rest []
  | blank {c : Char} {gap : List Char} :
      Text.isBlank c = true → IsTrivia rest gap → IsTrivia rest (c :: gap)
  | line {body gap : List Char} :
      '\n' ∉ body → (∀ c ∈ (gap ++ rest).head?, c = '\n') → IsTrivia rest gap →
      IsTrivia rest ('/' :: '/' :: body ++ gap)
  | block {body gap : List Char} :
      ¬ ['*', '/'] <:+: body ++ ['*'] → IsTrivia rest gap →
      IsTrivia rest ('/' :: '*' :: body ++ '*' :: '/' :: gap)

/-! What tokens are written like. -/

def isNumeralPart (c : Char) : Bool :=
  c.isDigit || Text.isHexDigit c || ['x', 'X', 'o', 'O', 'n', '_', '.', '+', '-'].contains c

namespace TemplatePart

def opening : TemplatePart → List Char
  | whole | head => ['`']
  | middle | tail => ['}']

def closing : TemplatePart → List Char
  | whole | tail => ['`']
  | head | middle => ['$', '{']

end TemplatePart

def TokenKind.IsWritten : TokenKind → List Char → Prop
  | .keyword k, text => text = k.text.toList
  | .punct p, text => ∃ c cs, (cs, p) ∈ Punct.startingWith c ∧ text = c :: cs
  | .number _, text | .bigint _, text =>
    (∃ c ∈ text.head?, c.isDigit = true ∨ c = '.') ∧ text.all isNumeralPart = true
  | .str _, text => ∃ quote body, (quote = '"' ∨ quote = '\'') ∧ text = quote :: body ++ [quote]
  | .ident name, text =>
    text = name.toList ∧ (∃ c ∈ text.head?, Text.isIdentStart c = true) ∧
      text.all Text.isIdentPart = true ∧ ∀ k : Keyword, k.text ≠ name
  | .regex pattern flags, text => text = '/' :: pattern.toList ++ '/' :: flags.toList
  -- a carriage return in a template reads as a line feed
  | .template part _ raw, text =>
    ∃ body, text = part.opening ++ body ++ part.closing ∧ ('\r' ∉ body → body = raw.toList)
  | .eof, text => text = []

namespace Scan

/-- A scan that begins at `gs` and leaves `rest` has read the given text. -/
def Cuts (gs : List Glyph) (text : List Char) (rest : List Glyph) : Prop :=
  ∃ ps, gs = ps ++ rest ∧ ps.map Glyph.char = text

namespace Cuts

variable {gs mid rest : List Glyph} {text more : List Char}

theorem refl (gs : List Glyph) : Cuts gs [] gs := ⟨[], rfl, rfl⟩

theorem cons (g : Glyph) (h : Cuts gs text rest) : Cuts (g :: gs) (g.char :: text) rest := by
  obtain ⟨ps, rfl, rfl⟩ := h
  exact ⟨g :: ps, rfl, rfl⟩

theorem trans (h : Cuts gs text mid) (h' : Cuts mid more rest) : Cuts gs (text ++ more) rest := by
  obtain ⟨ps, rfl, rfl⟩ := h
  obtain ⟨qs, rfl, rfl⟩ := h'
  exact ⟨ps ++ qs, by simp, by simp⟩

theorem chars_eq (h : Cuts gs text rest) :
    gs.map Glyph.char = text ++ rest.map Glyph.char := by
  obtain ⟨ps, rfl, rfl⟩ := h
  simp

theorem placed {before : List Char} (h : Cuts gs text rest) (hgs : Placed before gs) :
    Placed (before ++ text) rest := by
  obtain ⟨ps, rfl, rfl⟩ := h
  induction ps generalizing before with
  | nil => simpa using hgs
  | cons g ps ih => simpa using ih (placed_cons.1 hgs).2

end Cuts

theorem cuts_charsWhile (p : Char → Bool) (gs : List Glyph) :
    Cuts gs (charsWhile p gs) (dropChars p gs) :=
  ⟨_, List.takeWhile_append_dropWhile.symm, rfl⟩

theorem all_charsWhile (p : Char → Bool) (gs : List Glyph) : (charsWhile p gs).all p = true := by
  rw [charsWhile, List.all_map]
  exact List.all_takeWhile

theorem exists_cons_of_nextIs {c : Char} {gs : List Glyph} (h : nextIs c gs = true) :
    ∃ g rest, gs = g :: rest ∧ g.char = c := by
  cases gs with
  | nil => cases h
  | cons g rest => exact ⟨g, rest, rfl, by simpa [nextIs] using h⟩

theorem cuts_of_nextIs {c : Char} {gs : List Glyph} (h : nextIs c gs = true) :
    Cuts gs [c] (gs.drop 1) := by
  obtain ⟨g, rest, rfl, rfl⟩ := exists_cons_of_nextIs h
  exact (Cuts.refl rest).cons g

theorem nextIs_iff {c : Char} {gs : List Glyph} :
    nextIs c gs = true ↔ [c] <+: gs.map Glyph.char := by
  cases gs with
  | nil => simp [nextIs]
  | cons g gs => simpa [nextIs] using eq_comm

/-! Blanks and comments. -/

theorem cuts_comment {newline found : Bool} {gs rest : List Glyph}
    (h : comment newline gs = .ok (found, rest)) :
    ∃ body, Cuts gs (body ++ ['*', '/']) rest ∧ ¬ ['*', '/'] <:+: body ++ ['*'] ∧
      (found = true ↔ newline = true ∨ '\n' ∈ body) := by
  induction gs generalizing newline with
  | nil => cases h
  | cons g gs ih =>
    simp only [comment] at h
    split at h
    · next hclose =>
      cases h
      refine ⟨[], ?_, by simp [List.infix_cons_iff], by simp⟩
      simpa [hclose.1] using (cuts_of_nextIs hclose.2).cons g
    · next hopen =>
      obtain ⟨body, hcuts, hfirst, hfound⟩ := ih h
      refine ⟨g.char :: body, hcuts.cons g, fun hinfix => ?_, ?_⟩
      · -- the sign that closes the comment would begin at the first character
        have hprefix : ['*', '/'] <+: g.char :: (body ++ ['*']) :=
          (List.infix_cons_iff.1 hinfix).resolve_right hfirst
        obtain ⟨hstar, hslash⟩ := List.cons_prefix_cons.1 hprefix
        refine hopen ⟨hstar.symm, nextIs_iff.2 ?_⟩
        rw [hcuts.chars_eq]
        cases body with
        | nil => simp at hslash
        | cons c body => simpa using hslash
      · rw [hfound, Bool.or_eq_true, or_assoc, beq_iff_eq, List.mem_cons, @eq_comm _ '\n']

theorem head_dropChars (p : Char → Bool) (gs : List Glyph) :
    ∀ c ∈ ((dropChars p gs).map Glyph.char).head?, p c = false := by
  intro c hc
  rw [List.head?_map, Option.mem_def, Option.map_eq_some_iff] at hc
  obtain ⟨g, hg, rfl⟩ := hc
  have hnot := List.head?_dropWhile_not (fun g : Glyph => p g.char) gs
  rw [dropChars] at hg
  simpa [hg] using hnot

theorem cuts_trivia {newline found : Bool} {gs rest : List Glyph}
    (h : trivia newline gs = .ok (found, rest)) :
    ∃ gap, Cuts gs gap rest ∧ IsTrivia (rest.map Glyph.char) gap ∧
      ¬ StartsTrivia (rest.map Glyph.char) ∧ (found = true ↔ newline = true ∨ '\n' ∈ gap) := by
  fun_induction trivia newline gs with
  | case1 =>
    cases h
    exact ⟨[], .refl _, .nil, by simp [StartsTrivia], by simp⟩
  | case2 newline g gs hblank ih =>
    obtain ⟨gap, hcuts, hgap, hstop, hfound⟩ := ih h
    refine ⟨g.char :: gap, hcuts.cons g, .blank hblank hgap, hstop, ?_⟩
    rw [hfound, Bool.or_eq_true, or_assoc, beq_iff_eq, List.mem_cons, @eq_comm _ '\n']
  | case3 newline g gs _ hslash ih =>
    obtain ⟨gap, hcuts, hgap, hstop, hfound⟩ := ih h
    obtain ⟨hg, hnext⟩ := hslash
    obtain ⟨g', gs, rfl, hg'⟩ := exists_cons_of_nextIs hnext
    have hline : dropChars (· != '\n') (g' :: gs) = dropChars (· != '\n') gs := by
      simp [dropChars, hg']
    rw [hline] at hcuts
    have hbody : '\n' ∉ charsWhile (· != '\n') gs := fun hmem => by
      simpa using List.all_eq_true.1 (all_charsWhile (· != '\n') gs) _ hmem
    have hend : ∀ c ∈ (gap ++ rest.map Glyph.char).head?, c = '\n' := fun c hc => by
      rw [← hcuts.chars_eq] at hc
      simpa using head_dropChars _ gs c hc
    have htext := ((((cuts_charsWhile (· != '\n') gs).trans hcuts).cons g').cons g)
    rw [hg, hg'] at htext
    refine ⟨_, htext, .line hbody hend hgap, hstop, ?_⟩
    simp [hfound, hbody]
  | case4 newline g gs _ _ hstar found' rest' hc ih =>
    obtain ⟨gap, hcuts, hgap, hstop, hfound⟩ := ih h
    obtain ⟨body, hbody, hfirst, hfound'⟩ := cuts_comment hc
    have htext := (((cuts_of_nextIs hstar.2).trans (hbody.trans hcuts))).cons g
    rw [hstar.1] at htext
    refine ⟨'/' :: '*' :: body ++ '*' :: '/' :: gap, ?_, .block hfirst hgap, hstop, ?_⟩
    · simpa using htext
    · simp [hfound, hfound', or_assoc]
  | case5 => cases h
  | case6 newline g gs hblank hline hblock =>
    cases h
    refine ⟨[], .refl _, .nil, ?_, by simp⟩
    rintro (⟨c, hc, hblank'⟩ | hslash | hstar)
    · simp only [List.map_cons, List.head?_cons, Option.mem_def, Option.some.injEq] at hc
      exact hblank (hc ▸ hblank')
    · obtain ⟨hg, hnext⟩ := List.cons_prefix_cons.1 hslash
      exact hline ⟨hg.symm, nextIs_iff.2 hnext⟩
    · obtain ⟨hg, hnext⟩ := List.cons_prefix_cons.1 hstar
      exact hblock ⟨hg.symm, nextIs_iff.2 hnext⟩

/-! Literals. -/

theorem cuts_hexDigits {n : Nat} {gs rest : List Glyph} {ds : List Char}
    (h : hexDigits n gs = .ok (ds, rest)) : Cuts gs ds rest := by
  induction n generalizing gs ds with
  | zero =>
    cases h
    exact .refl _
  | succ n ih =>
    cases gs with
    | nil => simp [hexDigits] at h
    | cons g gs =>
      simp only [hexDigits] at h
      split at h
      · split at h
        · next hr =>
          cases h
          exact (ih hr).cons g
        · cases h
      · cases h

theorem cuts_bracedDigits {gs rest : List Glyph} {ds : List Char}
    (h : bracedDigits gs = .ok (ds, rest)) : Cuts gs (ds ++ ['}']) rest := by
  induction gs generalizing ds with
  | nil => simp [bracedDigits] at h
  | cons g gs ih =>
    simp only [bracedDigits] at h
    split at h
    · next hbrace =>
      cases h
      simpa [hbrace] using (Cuts.refl _).cons g
    · split at h
      · split at h
        · next hr =>
          cases h
          exact (ih hr).cons g
        · cases h
      · cases h

/-- An escape is spelled as it was read. -/
theorem cuts_escape {gs rest : List Glyph} {e : Escape} (h : escape gs = .ok (e, rest)) :
    Cuts gs e.raw rest := by
  cases gs with
  | nil => simp [escape] at h
  | cons g gs =>
    simp only [escape] at h
    split at h
    case h_8 hg =>
      cases h
      exact hg ▸ (Cuts.refl _).cons g
    case h_9 hg =>
      obtain ⟨ds, hr, rfl⟩ := of_mapValue h
      exact hg ▸ (cuts_hexDigits hr).cons g
    case h_10 hg =>
      split at h
      · next hbrace =>
        obtain ⟨ds, hr, rfl⟩ := of_mapValue h
        exact hg ▸ ((cuts_of_nextIs hbrace).trans (cuts_bracedDigits hr)).cons g
      · obtain ⟨ds, hr, rfl⟩ := of_mapValue h
        exact hg ▸ (cuts_hexDigits hr).cons g
    all_goals
      cases h
      exact (Cuts.refl _).cons g

theorem cuts_string {quote : Char} {value : List Char} {gs rest : List Glyph} {k : TokenKind}
    (h : string quote value gs = .ok (k, rest)) :
    ∃ body v, Cuts gs (body ++ [quote]) rest ∧ k = .str v := by
  fun_induction string quote value gs with
  | case1 | case4 | case5 => cases h
  | case2 value g gs hquote =>
    cases h
    exact ⟨[], _, hquote ▸ (Cuts.refl _).cons g, rfl⟩
  | case3 value g gs _ _ e rest' hr ih =>
    obtain ⟨body, v, hcuts, rfl⟩ := ih h
    exact ⟨g.char :: (e.raw ++ body), v, by simpa using ((cuts_escape hr).trans hcuts).cons g, rfl⟩
  | case6 value g gs _ _ _ ih =>
    obtain ⟨body, v, hcuts, rfl⟩ := ih h
    exact ⟨g.char :: body, v, hcuts.cons g, rfl⟩

theorem cuts_templateText {cooked raw : List Char} {gs rest : List Glyph} {t : TemplateText}
    (h : templateText cooked raw gs = .ok (t, rest)) :
    ∃ body, Cuts gs (body ++ if t.substitution then ['$', '{'] else ['`']) rest ∧
      ('\r' ∉ body → t.raw = raw.reverse ++ body) := by
  fun_induction templateText cooked raw gs with
  | case1 | case5 => cases h
  | case2 cooked raw g gs hquote =>
    cases h
    exact ⟨[], by simpa [hquote] using (Cuts.refl _).cons g, by simp⟩
  | case3 cooked raw g gs _ hopen =>
    cases h
    exact ⟨[], by simpa [hopen.1] using (cuts_of_nextIs hopen.2).cons g, by simp⟩
  | case4 cooked raw g gs _ _ hslash e rest' hr ih =>
    obtain ⟨body, hcuts, hraw⟩ := ih h
    refine ⟨g.char :: (e.raw ++ body), by simpa using ((cuts_escape hr).trans hcuts).cons g, ?_⟩
    intro hcr
    simp only [List.mem_cons, List.mem_append, not_or] at hcr
    simp [hraw hcr.2.2, hslash]
  | case6 cooked raw g gs _ _ _ hcr ih =>
    obtain ⟨body, hcuts, -⟩ := ih h
    have hline : ∃ feed, Cuts gs feed (dropIf '\n' gs) := by
      obtain ⟨ps, hps⟩ := dropIf_suffix '\n' gs
      exact ⟨_, ps, hps.symm, rfl⟩
    obtain ⟨feed, hfeed⟩ := hline
    exact ⟨g.char :: (feed ++ body), by simpa using (hfeed.trans hcuts).cons g, by simp [hcr]⟩
  | case7 cooked raw g gs _ _ _ _ ih =>
    obtain ⟨body, hcuts, hraw⟩ := ih h
    refine ⟨g.char :: body, hcuts.cons g, fun hcr => ?_⟩
    simp [hraw fun hmem => hcr (List.mem_cons_of_mem _ hmem)]

theorem cuts_regexPattern {inClass : Bool} {pattern : List Char} {gs rest : List Glyph}
    {cs : List Char} (h : regexPattern inClass pattern gs = .ok (cs, rest)) :
    ∃ body, Cuts gs (body ++ ['/']) rest ∧ cs = pattern.reverse ++ body := by
  fun_induction regexPattern inClass pattern gs with
  | case1 | case2 | case3 | case4 => cases h
  | case5 inClass pattern g _ hslash e gs _ ih =>
    obtain ⟨body, hcuts, rfl⟩ := ih h
    exact ⟨g.char :: e.char :: body, (hcuts.cons e).cons g, by simp [hslash]⟩
  | case6 inClass pattern g gs _ _ hclose =>
    cases h
    exact ⟨[], by simpa [hclose.1] using (Cuts.refl _).cons g, by simp⟩
  | case7 inClass pattern g gs _ _ _ _ ih =>
    obtain ⟨body, hcuts, rfl⟩ := ih h
    exact ⟨g.char :: body, hcuts.cons g, by simp⟩

/-! Numbers. -/

/-- A scan that begins at `gs` and leaves `rest` has read nothing but characters of numbers. -/
def ReadsNumeral (gs rest : List Glyph) : Prop :=
  ∃ text, Cuts gs text rest ∧ text.all isNumeralPart = true

namespace ReadsNumeral

variable {gs mid rest : List Glyph}

theorem refl (gs : List Glyph) : ReadsNumeral gs gs := ⟨[], .refl gs, rfl⟩

theorem trans (h : ReadsNumeral gs mid) (h' : ReadsNumeral mid rest) : ReadsNumeral gs rest := by
  obtain ⟨text, hcuts, hall⟩ := h
  obtain ⟨text', hcuts', hall'⟩ := h'
  exact ⟨text ++ text', hcuts.trans hcuts', by simp [hall, hall']⟩

theorem cons {g : Glyph} (hg : isNumeralPart g.char = true) (h : ReadsNumeral gs rest) :
    ReadsNumeral (g :: gs) rest := by
  obtain ⟨text, hcuts, hall⟩ := h
  exact ⟨g.char :: text, hcuts.cons g, by simp [hg, hall]⟩

end ReadsNumeral

theorem readsNumeral_dropChars {p : Char → Bool} (hp : ∀ c, p c = true → isNumeralPart c = true)
    (gs : List Glyph) : ReadsNumeral gs (dropChars p gs) :=
  ⟨_, cuts_charsWhile p gs, List.all_eq_true.2 fun c hc =>
    hp c (List.all_eq_true.1 (all_charsWhile p gs) c hc)⟩

theorem readsNumeral_dropIf {c : Char} (hc : isNumeralPart c = true) (gs : List Glyph) :
    ReadsNumeral gs (dropIf c gs) := by
  cases gs with
  | nil => exact .refl _
  | cons g gs =>
    simp only [dropIf]
    split
    · next hg => exact (ReadsNumeral.refl gs).cons (hg ▸ hc)
    · exact .refl _

theorem isNumeralPart_of_isDigit {c : Char} (h : c.isDigit = true) : isNumeralPart c = true := by
  simp [isNumeralPart, h]

theorem isNumeralPart_of_isDecimalPart {c : Char} (h : isDecimalPart c = true) :
    isNumeralPart c = true := by
  simp only [isDecimalPart, Bool.or_eq_true, beq_iff_eq] at h
  rcases h with h | rfl
  · exact isNumeralPart_of_isDigit h
  · rfl

theorem isHexDigit_of_isDigitOf {radix : Nat} (hradix : radix ≤ 16) {c : Char}
    (h : Text.isDigitOf radix c = true) : Text.isHexDigit c = true := by
  simp only [Text.isHexDigit, Text.isDigitOf, Text.digitValue?, Option.isSome_filter,
    Option.any_eq_true, decide_eq_true_eq] at h ⊢
  obtain ⟨v, hv, hlt⟩ := h
  exact ⟨v, hv, by omega⟩

theorem isNumeralPart_of_isDigitOf {radix : Nat} (hradix : radix ≤ 16) {c : Char}
    (h : (Text.isDigitOf radix c || c == '_') = true) : isNumeralPart c = true := by
  simp only [Bool.or_eq_true, beq_iff_eq] at h
  rcases h with h | rfl
  · simp [isNumeralPart, isHexDigit_of_isDigitOf hradix h]
  · rfl

/-- The character that announces a radix is one of a number. -/
theorem exists_of_radix? {radix : Nat} {gs : List Glyph} (h : radix? gs = some radix) :
    radix ≤ 16 ∧ ReadsNumeral gs (gs.drop 1) := by
  cases gs with
  | nil => cases h
  | cons g gs =>
    have hpart : ∀ c, isNumeralPart c = true → g.char = c → ReadsNumeral (g :: gs) gs :=
      fun c hc hg => (ReadsNumeral.refl gs).cons (hg ▸ hc)
    simp only [radix?] at h
    split at h
    · next hx =>
      cases h
      exact ⟨Nat.le_refl _, hx.elim (hpart _ rfl) (hpart _ rfl)⟩
    · split at h
      · next ho =>
        cases h
        exact ⟨by decide, ho.elim (hpart _ rfl) (hpart _ rfl)⟩
      · split at h
        · next hb =>
          cases h
          exact ⟨by decide, hb.elim (hpart _ (by decide)) (hpart _ (by decide))⟩
        · cases h

theorem readsNumeral_radixNumber {radix : Nat} (hradix : radix ≤ 16) {gs rest : List Glyph}
    {k : TokenKind} (h : radixNumber radix gs = .ok (k, rest)) :
    ReadsNumeral gs rest ∧ ((∃ x, k = .number x) ∨ ∃ ds, k = .bigint ds) := by
  have hd := readsNumeral_dropChars (fun c => isNumeralPart_of_isDigitOf hradix) gs
  simp only [radixNumber] at h
  split at h
  · cases h
  · split at h
    · cases h
    · split at h
      · cases h
        exact ⟨hd.trans (readsNumeral_dropIf rfl _), .inr ⟨_, rfl⟩⟩
      · cases h
        exact ⟨hd, .inl ⟨_, rfl⟩⟩

theorem readsNumeral_exponent (gs : List Glyph) : ReadsNumeral gs (exponent gs).2 := by
  have hd := readsNumeral_dropChars (fun c => isNumeralPart_of_isDecimalPart)
  have he {g : Glyph} (h : g.char = 'e' ∨ g.char = 'E') : isNumeralPart g.char = true := by
    rcases h with h | h <;> rw [h] <;> decide
  have hs {g : Glyph} (h : g.char = '+' ∨ g.char = '-') : isNumeralPart g.char = true := by
    rcases h with h | h <;> rw [h] <;> rfl
  unfold exponent
  rcases gs with _ | ⟨e, _ | ⟨s, rest⟩⟩
  · exact .refl _
  · exact .refl _
  · dsimp only
    split
    · next hexp =>
      split
      · next hsign =>
        cases rest with
        | nil => exact .refl _
        | cons d rest =>
          dsimp only
          split
          · exact ((hd _).cons (hs hsign)).cons (he hexp)
          · exact .refl _
      · split
        · exact (hd _).cons (he hexp)
        · exact .refl _
    · exact .refl _

theorem readsNumeral_fraction (gs : List Glyph) : ReadsNumeral gs (fraction gs).2 := by
  cases gs with
  | nil => exact .refl _
  | cons g gs =>
    simp only [fraction]
    split
    · next hpoint =>
      refine .cons ?_ (readsNumeral_dropChars (fun c => isNumeralPart_of_isDecimalPart) gs)
      rw [hpoint]
      rfl
    · exact .refl _

theorem readsNumeral_mantissa (first : Char) (gs : List Glyph) :
    ReadsNumeral gs (mantissa first gs).2 := by
  have hd := readsNumeral_dropChars (fun c => isNumeralPart_of_isDecimalPart) gs
  simp only [mantissa]
  split
  · exact hd
  · exact hd.trans (readsNumeral_fraction _)

theorem readsNumeral_decimalNumber {first : Char} {gs rest : List Glyph} {k : TokenKind}
    (h : decimalNumber first gs = .ok (k, rest)) :
    ReadsNumeral gs rest ∧ ((∃ x, k = .number x) ∨ ∃ ds, k = .bigint ds) := by
  have he := (readsNumeral_mantissa first gs).trans (readsNumeral_exponent _)
  simp only [decimalNumber] at h
  split at h
  · cases h
    exact ⟨he.trans (readsNumeral_dropIf rfl _), .inr ⟨_, rfl⟩⟩
  · split at h
    · cases h
      exact ⟨he, .inl ⟨_, rfl⟩⟩
    · cases h

theorem readsNumeral_number {first : Char} {gs rest : List Glyph} {k : TokenKind}
    (h : number first gs = .ok (k, rest)) :
    ReadsNumeral gs rest ∧ ((∃ x, k = .number x) ∨ ∃ ds, k = .bigint ds) := by
  unfold number at h
  split at h
  · next radix hradix =>
    split at hradix
    · obtain ⟨hle, hannounce⟩ := exists_of_radix? hradix
      exact (readsNumeral_radixNumber hle h).imp_left hannounce.trans
    · cases hradix
  · exact readsNumeral_decimalNumber h

/-! Tokens. -/

/-- A scan behind the first character of a token has read the rest of it. -/
def ReadsToken (first : Char) (gs : List Glyph) (k : TokenKind) (rest : List Glyph) : Prop :=
  ∃ text, Cuts gs text rest ∧ k.IsWritten (first :: text)

theorem readsToken_number {first : Char} {gs rest : List Glyph} {k : TokenKind}
    (hfirst : first.isDigit = true ∨ first = '.') (h : number first gs = .ok (k, rest)) :
    ReadsToken first gs k rest := by
  obtain ⟨⟨text, hcuts, hall⟩, hk⟩ := readsNumeral_number h
  have hwritten : (∃ c ∈ (first :: text).head?, c.isDigit = true ∨ c = '.') ∧
      (first :: text).all isNumeralPart = true := by
    refine ⟨⟨first, rfl, hfirst⟩, ?_⟩
    rw [List.all_cons, hall, Bool.and_true]
    rcases hfirst with hfirst | rfl
    · exact isNumeralPart_of_isDigit hfirst
    · rfl
  rcases hk with ⟨x, rfl⟩ | ⟨ds, rfl⟩
  · exact ⟨text, hcuts, hwritten⟩
  · exact ⟨text, hcuts, hwritten⟩

theorem readsToken_string {quote : Char} (hquote : quote = '"' ∨ quote = '\'')
    {gs rest : List Glyph} {k : TokenKind} (h : string quote [] gs = .ok (k, rest)) :
    ReadsToken quote gs k rest := by
  obtain ⟨body, v, hcuts, rfl⟩ := cuts_string h
  exact ⟨_, hcuts, quote, body, hquote, rfl⟩

theorem readsToken_regex {gs rest : List Glyph} {k : TokenKind} (h : regex gs = .ok (k, rest)) :
    ReadsToken '/' gs k rest := by
  simp only [regex] at h
  split at h
  · next pattern rest' hr =>
    cases h
    obtain ⟨body, hcuts, rfl⟩ := cuts_regexPattern hr
    exact ⟨_, hcuts.trans (cuts_charsWhile Char.isAlpha rest'), by simp [TokenKind.IsWritten]⟩
  · cases h

theorem readsToken_template {o c : TemplatePart} (hopen : o.closing = ['$', '{'])
    (hclosed : c.closing = ['`']) {first : Char} (ho : o.opening = [first])
    (hc : c.opening = [first]) {gs rest : List Glyph} {k : TokenKind} {b : Bool}
    (h : template o c gs = .ok ((k, b), rest)) : ReadsToken first gs k rest := by
  obtain ⟨t, ht, heq⟩ := of_mapValue h
  obtain ⟨body, hcuts, hraw⟩ := cuts_templateText ht
  cases heq
  refine ⟨_, hcuts, body, ?_, fun hcr => by simpa using (hraw hcr).symm⟩
  split
  · simp [hopen, ho]
  · simp [hclosed, hc]

theorem isIdentPart_of_isIdentStart {c : Char} (h : Text.isIdentStart c = true) :
    Text.isIdentPart c = true := by
  simp only [Text.isIdentStart, Text.isIdentPart, Text.isAlphanumeric, Bool.or_eq_true] at h ⊢
  rcases h with (h | h) | h
  · exact .inl (.inl (.inl (.inr h)))
  · exact .inl (.inr h)
  · exact .inr h

theorem readsToken_word {first : Char} (hfirst : Text.isIdentStart first = true)
    (gs : List Glyph) : ReadsToken first gs (word first gs).1 (word first gs).2 := by
  refine ⟨_, cuts_charsWhile Text.isIdentPart gs, ?_⟩
  simp only [word]
  split
  · next k hk =>
    have htext := List.find?_some hk
    simp only [beq_iff_eq] at htext
    simp [TokenKind.IsWritten, htext]
  · next hnone =>
    refine ⟨by simp, ⟨first, rfl, hfirst⟩, ?_, fun k hk => ?_⟩
    · rw [List.all_cons, isIdentPart_of_isIdentStart hfirst, all_charsWhile]
      rfl
    · refine List.find?_eq_none.1 hnone k ?_ (by simp [hk])
      cases k <;> decide

theorem cuts_of_startsWith {cs : List Char} {gs : List Glyph} (h : startsWith cs gs = true) :
    Cuts gs cs (gs.drop cs.length) := by
  fun_induction startsWith cs gs with
  | case1 gs => exact .refl gs
  | case2 => cases h
  | case3 c cs g gs ih =>
    simp only [Bool.and_eq_true, beq_iff_eq] at h
    exact h.1 ▸ (ih h.2).cons g

theorem readsToken_sign {c : Char} {gs rest : List Glyph} {p : Punct}
    (h : sign? c gs = some (p, rest)) : ReadsToken c gs (.punct p) rest := by
  obtain ⟨⟨cs, p'⟩, hfind, heq⟩ := Option.map_eq_some_iff.1 h
  cases heq
  refine ⟨cs, cuts_of_startsWith ?_, c, cs, List.mem_of_find?_eq_some hfind, rfl⟩
  simpa using List.find?_some hfind

theorem readsToken_token {braces braces' : List Nat} {regexAllowed : Bool} {g : Glyph}
    {gs rest : List Glyph} {k : TokenKind}
    (h : token braces regexAllowed g gs = .ok ((k, braces'), rest)) :
    ReadsToken g.char gs k rest := by
  simp only [token] at h
  split at h
  · next hbrace =>
    cases h
    exact ⟨[], .refl _, '{', [], by simp [Punct.startingWith], by rw [hbrace]⟩
  split at h
  · next hbrace =>
    rw [hbrace]
    have hsign : ReadsToken '}' gs (.punct .rbrace) gs :=
      ⟨[], .refl _, '}', [], by simp [Punct.startingWith], rfl⟩
    split at h
    · cases h
      exact hsign
    · obtain ⟨⟨k', b⟩, hs, heq⟩ := of_mapValue h
      cases heq
      exact readsToken_template rfl rfl rfl rfl hs
    · cases h
      exact hsign
  split at h
  · next hquote =>
    obtain ⟨⟨k', b⟩, hs, heq⟩ := of_mapValue h
    cases heq
    rw [hquote]
    exact readsToken_template rfl rfl rfl rfl hs
  split at h
  · next hquote =>
    obtain ⟨k', hs, heq⟩ := of_mapValue h
    cases heq
    exact readsToken_string hquote hs
  split at h
  · next hfirst =>
    obtain ⟨k', hs, heq⟩ := of_mapValue h
    cases heq
    refine readsToken_number ?_ hs
    simp only [Bool.or_eq_true, Bool.and_eq_true, beq_iff_eq] at hfirst
    exact hfirst.imp_right And.left
  split at h
  · next hslash =>
    obtain ⟨k', hs, heq⟩ := of_mapValue h
    cases heq
    rw [hslash.1]
    exact readsToken_regex hs
  split at h
  · next hstart =>
    obtain ⟨k', hs, heq⟩ := of_mapValue h
    cases heq
    cases hs
    exact readsToken_word hstart gs
  split at h
  · next p rest' hsign =>
    cases h
    exact readsToken_sign hsign
  · cases h

end Scan

/-! Tiles. -/

/-- A token with its text and what stands between it and the token before. -/
structure Tile where
  gap : List Char
  text : List Char
  token : Token

def Tile.chars (t : Tile) : List Char := t.gap ++ t.text

/-- A token is read between two texts where it should be. -/
structure Tile.Stands (t : Tile) (before after : List Char) : Prop where
  trivia : IsTrivia (t.text ++ after) t.gap
  -- the gap takes in all that could belong to it
  full : ¬ StartsTrivia (t.text ++ after)
  written : t.token.kind.IsWritten t.text
  pos_eq : t.token.pos = .behind (before ++ t.gap)
  newline_iff : t.token.newlineBefore = true ↔ '\n' ∈ t.gap

/-- Tiles that cut up the rest of a source, the end token last. -/
inductive Tiled : List Char → List Tile → List Char → Prop where
  | last {before : List Char} {t : Tile} :
      t.Stands before [] → t.token.kind = .eof → Tiled before [t] t.chars
  | cons {before after : List Char} {t : Tile} {ts : List Tile} :
      t.Stands before after → t.token.kind ≠ .eof → t.text ≠ [] →
      Tiled (before ++ t.chars) ts after → Tiled before (t :: ts) (t.chars ++ after)

theorem Scan.tiled_of_tokensFrom {eof : Position} {braces : List Nat} {found : List Token}
    {gs : List Glyph} {tokens : List Token} (h : tokensFrom eof braces found gs = .ok tokens)
    {before : List Char} (hgs : Placed before gs)
    (heof : eof = .behind (before ++ gs.map Glyph.char)) :
    ∃ tiles, Tiled before tiles (gs.map Glyph.char) ∧
      tokens = found.reverse ++ tiles.map Tile.token := by
  fun_induction tokensFrom eof braces found gs generalizing before with
  | case1 | case3 | case4 => cases h
  | case2 braces found gs newline ht =>
    cases h
    obtain ⟨gap, hcuts, hgap, hfull, hnewline⟩ := cuts_trivia ht
    have hchars : gs.map Glyph.char = gap := by simpa using hcuts.chars_eq
    refine ⟨[⟨gap, [], ⟨.eof, eof, newline⟩⟩], ?_, by simp⟩
    have hlast : Tile.Stands ⟨gap, [], ⟨.eof, eof, newline⟩⟩ before [] :=
      ⟨hgap, hfull, rfl, heof.trans (by rw [hchars]), by simpa using hnewline⟩
    simpa [hchars, Tile.chars] using Tiled.last hlast rfl
  | case5 braces found gs newline g rest ht kind braces' rest' hk ih =>
    obtain ⟨gap, hcuts, hgap, hfull, hnewline⟩ := cuts_trivia ht
    obtain ⟨text, htext, hwritten⟩ := readsToken_token hk
    have hplaced := hcuts.placed hgs
    have hrest : (g :: rest).map Glyph.char = (g.char :: text) ++ rest'.map Glyph.char := by
      simp [htext.chars_eq]
    have hall := hcuts.chars_eq
    rw [hrest] at hgap hfull hall
    have hplaced' : Placed (before ++ (gap ++ g.char :: text)) rest' := by
      simpa using (htext.cons g).placed hplaced
    obtain ⟨tiles, htiles, rfl⟩ := ih h hplaced' (by rw [heof, hall]; simp)
    refine ⟨⟨gap, g.char :: text, ⟨kind, g.pos, newline⟩⟩ :: tiles, ?_, by simp⟩
    have hstands : Tile.Stands ⟨gap, g.char :: text, ⟨kind, g.pos, newline⟩⟩ before
        (rest'.map Glyph.char) :=
      ⟨hgap, hfull, hwritten, (placed_cons.1 hplaced).1, by simpa using hnewline⟩
    have hkind : kind ≠ .eof := by
      rintro rfl
      cases hwritten
    rw [hall, ← List.append_assoc]
    exact .cons hstands hkind (List.cons_ne_nil _ _) htiles

theorem tiled_of_tokenize {source : String} {tokens : List Token}
    (h : tokenize source = .ok tokens) :
    ∃ tiles, Tiled [] tiles source.toList ∧ tokens = tiles.map Tile.token := by
  have heof : endFrom .start source.toList =
      .behind ([] ++ (glyphsFrom .start source.toList).map Glyph.char) := by
    rw [chars_glyphsFrom]
    exact endFrom_behind [] source.toList
  obtain ⟨tiles, htiles, rfl⟩ := Scan.tiled_of_tokensFrom h (placed_glyphsFrom _) heof
  rw [chars_glyphsFrom] at htiles
  exact ⟨tiles, htiles, rfl⟩

namespace Tiled

variable {before cs : List Char} {tiles : List Tile}

theorem ne_nil (h : Tiled before tiles cs) : tiles ≠ [] := by
  cases h <;> simp

theorem flatMap_chars (h : Tiled before tiles cs) : tiles.flatMap Tile.chars = cs := by
  induction h with
  | last => simp
  | cons _ _ _ _ ih => rw [List.flatMap_cons, ih]

theorem stands (h : Tiled before tiles cs) {earlier later : List Tile} {t : Tile}
    (ht : tiles = earlier ++ t :: later) :
    t.Stands (before ++ earlier.flatMap Tile.chars) (later.flatMap Tile.chars) ∧
      (t.text = [] ↔ later = []) ∧ (t.token.kind = .eof ↔ later = []) := by
  induction h generalizing earlier with
  | @last before u hu heof =>
    obtain ⟨rfl, hcons⟩ := List.append_eq_singleton_iff.1 ht.symm |>.resolve_right (by simp)
    cases hcons
    have htext : t.text = [] := by
      have hwritten := hu.written
      rwa [heof] at hwritten
    simpa [htext, heof] using hu
  | @cons before after u us hu hkind htext htiles ih =>
    cases earlier with
    | nil =>
      cases ht
      rw [htiles.flatMap_chars]
      simpa [hkind, htext, htiles.ne_nil] using hu
    | cons v earlier =>
      cases ht
      simpa using ih rfl

end Tiled

/-- A token stands where the first character of its text does. -/
theorem exists_text_of_mem_tokens {source : String} {tokens : List Token}
    (h : tokenize source = .ok tokens) {t : Token} (ht : t ∈ tokens) (hkind : t.kind ≠ .eof) :
    ∃ before text after, source.toList = before ++ text ++ after ∧ text ≠ [] ∧
      t.kind.IsWritten text ∧ t.pos = .behind before := by
  obtain ⟨tiles, htiles, rfl⟩ := tiled_of_tokenize h
  obtain ⟨tile, htile, rfl⟩ := List.mem_map.1 ht
  obtain ⟨earlier, later, htile⟩ := List.append_of_mem htile
  obtain ⟨hstands, htext, hend⟩ := htiles.stands htile
  have hlater : later ≠ [] := fun h => hkind (hend.2 h)
  refine ⟨earlier.flatMap Tile.chars ++ tile.gap, tile.text, later.flatMap Tile.chars, ?_,
    fun h => hlater (htext.1 h), hstands.written, by simpa using hstands.pos_eq⟩
  rw [← htiles.flatMap_chars, htile]
  simp [Tile.chars]

/-- An identifier is made of the characters of identifiers. -/
theorem all_isIdentPart_of_mem_tokens {source : String} {tokens : List Token}
    (h : tokenize source = .ok tokens) {t : Token} (ht : t ∈ tokens) {name : String}
    (hkind : t.kind = .ident name) : name.toList.all Text.isIdentPart = true := by
  obtain ⟨_, text, _, -, -, hwritten, -⟩ :=
    exists_text_of_mem_tokens h ht (by simp [hkind])
  rw [hkind] at hwritten
  obtain ⟨rfl, -, hpart, -⟩ := hwritten
  exact hpart

/-- The tokens of a source, with what stands between them, make up the source. -/
theorem tokens_tile_source {source : String} {tokens : List Token}
    (h : tokenize source = .ok tokens) :
    ∃ tiles : List Tile, tiles ≠ [] ∧ tiles.map Tile.token = tokens ∧
      tiles.flatMap Tile.chars = source.toList ∧
      ∀ earlier t later, tiles = earlier ++ t :: later →
        t.Stands (earlier.flatMap Tile.chars) (later.flatMap Tile.chars) ∧
          (t.text = [] ↔ later = []) ∧ (t.token.kind = .eof ↔ later = []) := by
  obtain ⟨tiles, htiles, rfl⟩ := tiled_of_tokenize h
  refine ⟨tiles, htiles.ne_nil, rfl, htiles.flatMap_chars, fun earlier t later ht => ?_⟩
  simpa using htiles.stands ht

/-- A template that goes over two lines between comments: the token behind it begins at column 2 of
the second line. -/
theorem template_tiles_lines : ∃ tokens,
    tokenize "/* \n */x // y\n= `é\n`;" = .ok tokens ∧
    tokens.map (fun t => (t.pos, t.newlineBefore)) =
      [(⟨2, 4⟩, true), (⟨3, 1⟩, true), (⟨3, 3⟩, false), (⟨4, 2⟩, false), (⟨4, 3⟩, false)] ∧
    ∃ tiles : List Tile, tiles ≠ [] ∧ tiles.map Tile.token = tokens ∧
      tiles.flatMap Tile.chars = "/* \n */x // y\n= `é\n`;".toList ∧
      ∀ earlier t later, tiles = earlier ++ t :: later →
        t.Stands (earlier.flatMap Tile.chars) (later.flatMap Tile.chars) ∧
          (t.text = [] ↔ later = []) ∧ (t.token.kind = .eof ↔ later = []) := by
  have htest : (tokenize "/* \n */x // y\n= `é\n`;").toOption.map
      (List.map fun t => (t.pos, t.newlineBefore)) = some
        [(⟨2, 4⟩, true), (⟨3, 1⟩, true), (⟨3, 3⟩, false), (⟨4, 2⟩, false), (⟨4, 3⟩, false)] := by
    decide +kernel
  cases htokens : tokenize "/* \n */x // y\n= `é\n`;" with
  | error e => simp [htokens, Except.toOption] at htest
  | ok tokens =>
    refine ⟨tokens, rfl, ?_, tokens_tile_source htokens⟩
    simpa [htokens, Except.toOption] using htest

end TagCheck
