import TagCheck.Proofs.Token.Tiling

/-! The raw text of a template, put between backquotes, is read as the template it comes from. The
scanners look no further than what they read, but for the character behind a `$`. -/
namespace TagCheck
namespace Scan

theorem Cuts.of_nil {gs rest : List Glyph} (h : Cuts gs [] rest) : gs = rest := by
  obtain ⟨ps, rfl, hps⟩ := h
  simp [List.map_eq_nil_iff.1 hps]

theorem Cuts.of_cons {gs rest : List Glyph} {c : Char} {text : List Char}
    (h : Cuts gs (c :: text) rest) :
    ∃ g gs', gs = g :: gs' ∧ g.char = c ∧ Cuts gs' text rest := by
  obtain ⟨ps, rfl, hps⟩ := h
  obtain ⟨g, ps, rfl, rfl, rfl⟩ := List.map_eq_cons_iff.1 hps
  exact ⟨g, ps ++ rest, rfl, rfl, ps, rfl, rfl⟩

theorem Cuts.of_append {gs rest : List Glyph} {text more : List Char}
    (h : Cuts gs (text ++ more) rest) : ∃ mid, Cuts gs text mid ∧ Cuts mid more rest := by
  obtain ⟨ps, rfl, hps⟩ := h
  obtain ⟨ps, qs, rfl, rfl, rfl⟩ := List.map_eq_append_iff.1 hps
  exact ⟨qs ++ rest, ⟨ps, by simp, rfl⟩, qs, rfl, rfl⟩

/-- A scan that gives this value wherever this text stands, whatever is behind it. -/
def Rereads {α : Type} (scan : List Glyph → Scan α) (text : List Char) (a : α) : Prop :=
  ∀ gs rest, Cuts gs text rest → scan gs = .ok (a, rest)

theorem rereads_hexDigits {n : Nat} {gs rest : List Glyph} {ds : List Char}
    (h : hexDigits n gs = .ok (ds, rest)) : Rereads (hexDigits n) ds ds := by
  induction n generalizing gs ds with
  | zero =>
    cases h
    intro gs rest hcuts
    rw [hcuts.of_nil, hexDigits]
  | succ n ih =>
    cases gs with
    | nil => simp [hexDigits] at h
    | cons g gs =>
      simp only [hexDigits] at h
      split at h
      · next hhex =>
        split at h
        · next hr =>
          cases h
          intro gs' rest' hcuts
          obtain ⟨g', gs', rfl, hg, hcuts⟩ := hcuts.of_cons
          simp [hexDigits, hg, hhex, ih hr gs' rest' hcuts]
        · cases h
      · cases h

theorem rereads_bracedDigits {gs rest : List Glyph} {ds : List Char}
    (h : bracedDigits gs = .ok (ds, rest)) : Rereads bracedDigits (ds ++ ['}']) ds := by
  induction gs generalizing ds with
  | nil => simp [bracedDigits] at h
  | cons g gs ih =>
    simp only [bracedDigits] at h
    split at h
    · cases h
      intro gs' rest' hcuts
      obtain ⟨g', gs', rfl, hg, hcuts⟩ := hcuts.of_cons
      simp [bracedDigits, hg, hcuts.of_nil]
    · next hbrace =>
      split at h
      · next hhex =>
        split at h
        · next hr =>
          cases h
          intro gs' rest' hcuts
          obtain ⟨g', gs', rfl, hg, hcuts⟩ := hcuts.of_cons
          simp [bracedDigits, hg, hbrace, hhex, ih hr gs' rest' hcuts]
        · cases h
      · cases h

theorem nextIs_of_hexDigits {n : Nat} {gs : List Glyph} {r : List Char × List Glyph}
    (h : hexDigits (n + 1) gs = .ok r) : nextIs '{' gs = false := by
  by_contra hbrace
  obtain ⟨g, gs, rfl, hg⟩ := exists_cons_of_nextIs (eq_true_of_ne_false hbrace)
  rw [hexDigits, hg, if_neg (by decide)] at h
  cases h

theorem rereads_escape {gs rest : List Glyph} {e : Escape} (h : escape gs = .ok (e, rest)) :
    Rereads escape e.raw e := by
  cases gs with
  | nil => simp [escape] at h
  | cons g gs =>
    intro gs' rest' hcuts
    simp only [escape] at h
    split at h
    case h_8 =>
      cases h
      obtain ⟨g', gs', rfl, hg', hcuts⟩ := hcuts.of_cons
      simp [escape, hg', hcuts.of_nil]
    case h_9 =>
      obtain ⟨ds, hr, rfl⟩ := of_mapValue h
      obtain ⟨g', gs', rfl, hg', hcuts⟩ := hcuts.of_cons
      simp [escape, hg', rereads_hexDigits hr gs' rest' hcuts, mapValue]
    case h_10 =>
      split at h
      · obtain ⟨ds, hr, rfl⟩ := of_mapValue h
        obtain ⟨g', gs', rfl, hg', hcuts⟩ := hcuts.of_cons
        obtain ⟨b, gs', rfl, hb, hcuts⟩ := hcuts.of_cons
        simp [escape, hg', nextIs, hb, rereads_bracedDigits hr gs' rest' hcuts, mapValue]
      · obtain ⟨ds, hr, rfl⟩ := of_mapValue h
        obtain ⟨g', gs', rfl, hg', hcuts⟩ := hcuts.of_cons
        have hagain := rereads_hexDigits hr gs' rest' hcuts
        simp [escape, hg', nextIs_of_hexDigits hagain, hagain, mapValue]
    all_goals
      cases h
      obtain ⟨g', gs', rfl, hg', hcuts⟩ := hcuts.of_cons
      cases hcuts.of_nil
      simp_all [escape]

theorem templateText_backslash {cooked raw : List Char} {g : Glyph} {gs rest : List Glyph}
    {e : Escape} (hg : g.char = '\\') (he : escape gs = .ok (e, rest)) :
    templateText cooked raw (g :: gs) =
      templateText (e.cooked.reverse ++ cooked) (e.raw.reverse ++ '\\' :: raw) rest := by
  rw [templateText, hg, if_neg (by decide), if_neg (by simp), if_pos rfl]
  split
  · next heq =>
    rw [he] at heq
    cases heq
    rfl
  · next heq =>
    rw [he] at heq
    cases heq

/-- What is read from here on: as it reads, and as it is spelled up to the end of the text. -/
theorem rereads_templateText {cooked raw : List Char} {gs rest : List Glyph} {t : TemplateText}
    (h : templateText cooked raw gs = .ok (t, rest)) :
    ∃ cs rs, t.cooked = cooked.reverse ++ cs ∧ t.raw = raw.reverse ++ rs ∧
      (['{'] <+: rs → nextIs '{' gs = true) ∧
      ∀ cooked' raw', Rereads (templateText cooked' raw') (rs ++ ['`'])
        ⟨cooked'.reverse ++ cs, raw'.reverse ++ rs, false⟩ := by
  have hend : ∀ cooked' raw', Rereads (templateText cooked' raw') ([] ++ ['`'])
      ⟨cooked'.reverse ++ [], raw'.reverse ++ [], false⟩ := by
    intro cooked' raw' gs' rest' hcuts
    obtain ⟨g', gs', rfl, hg', hcuts⟩ := hcuts.of_cons
    simp [templateText, hg', hcuts.of_nil]
  fun_induction templateText cooked raw gs with
  | case1 | case5 => cases h
  | case2 | case3 =>
    cases h
    exact ⟨[], [], by simp, by simp, by simp, hend⟩
  | case4 cooked raw g gs _ _ hslash e rest' hr ih =>
    obtain ⟨cs, rs, hcooked, hraw, -, hreads⟩ := ih h
    refine ⟨e.cooked ++ cs, '\\' :: (e.raw ++ rs), by simp [hcooked], by simp [hraw], by simp, ?_⟩
    intro cooked' raw' gs' rest' hcuts
    rw [List.cons_append, List.append_assoc] at hcuts
    obtain ⟨g', gs', rfl, hg', hcuts⟩ := hcuts.of_cons
    obtain ⟨mid, hescape, hcuts⟩ := hcuts.of_append
    rw [templateText_backslash hg' (rereads_escape hr gs' mid hescape),
      hreads _ _ mid rest' hcuts]
    simp
  | case6 cooked raw g gs _ _ _ _ ih =>
    obtain ⟨cs, rs, hcooked, hraw, -, hreads⟩ := ih h
    refine ⟨'\n' :: cs, '\n' :: rs, by simp [hcooked], by simp [hraw], by simp, ?_⟩
    intro cooked' raw' gs' rest' hcuts
    obtain ⟨g', gs', rfl, hg', hcuts⟩ := hcuts.of_cons
    rw [templateText]
    simp [hg', hreads _ _ gs' rest' hcuts]
  | case7 cooked raw g gs hquote hopen hslash hreturn ih =>
    obtain ⟨cs, rs, hcooked, hraw, hnext, hreads⟩ := ih h
    refine ⟨g.char :: cs, g.char :: rs, by simp [hcooked], by simp [hraw], ?_, ?_⟩
    · intro hbrace
      simp [nextIs, ← (List.cons_prefix_cons.1 hbrace).1]
    intro cooked' raw' gs' rest' hcuts
    obtain ⟨g', gs', rfl, hg', hcuts⟩ := hcuts.of_cons
    -- a brace behind a `$` would have opened a substitution in the first place
    have hopen' : ¬ (g.char = '$' ∧ nextIs '{' gs' = true) := by
      rintro ⟨hdollar, hbrace⟩
      rw [nextIs_iff, hcuts.chars_eq] at hbrace
      refine hopen ⟨hdollar, hnext ?_⟩
      cases rs with
      | nil => simp at hbrace
      | cons c rs => simpa using hbrace
    rw [templateText, hg', if_neg hquote, if_neg hopen', if_neg hslash, if_neg hreturn,
      hreads _ _ gs' rest' hcuts]
    simp

/-- A token of a template stems from a stretch of template text. -/
theorem exists_templateText_of_token {braces braces' : List Nat} {allowed : Bool} {g : Glyph}
    {gs rest : List Glyph} {part : TemplatePart} {cooked raw : String}
    (h : token braces allowed g gs = .ok ((.template part cooked raw, braces'), rest)) :
    ∃ t, templateText [] [] gs = .ok (t, rest) ∧ cooked = .ofList t.cooked ∧
      raw = .ofList t.raw := by
  obtain ⟨text, -, body, hopening, -⟩ := readsToken_token h
  have hfirst : g.char = '}' ∨ g.char = '`' := by
    cases part <;> simp_all [TemplatePart.opening]
  have hpart : ∃ o c b, template o c gs = .ok ((.template part cooked raw, b), rest) := by
    simp only [token] at h
    rcases hfirst with hg | hg
    · rw [hg, if_neg (by decide), if_pos rfl] at h
      split at h
      · cases h
      · obtain ⟨⟨k, b⟩, htemplate, heq⟩ := of_mapValue h
        cases heq
        exact ⟨_, _, b, htemplate⟩
      · cases h
    · rw [hg, if_neg (by decide), if_neg (by decide), if_pos rfl] at h
      obtain ⟨⟨k, b⟩, htemplate, heq⟩ := of_mapValue h
      cases heq
      exact ⟨_, _, b, htemplate⟩
  obtain ⟨o, c, b, htemplate⟩ := hpart
  obtain ⟨t, ht, heq⟩ := of_mapValue htemplate
  cases heq
  exact ⟨t, ht, rfl, rfl⟩

theorem tokensFrom_nil (eof : Position) (found : List Token) :
    tokensFrom eof [] found [] = .ok (found.reverse ++ [⟨.eof, eof, false⟩]) := by
  have ht : trivia false [] = .ok (false, []) := by rw [trivia.eq_def]
  rw [tokensFrom]
  split
  · next heq => simp [ht] at heq
  · next heq =>
    rw [ht] at heq
    cases heq
    simp
  · next heq => simp [ht] at heq

/-- The whole source is one token. -/
theorem tokensFrom_of_token {eof : Position} {g : Glyph} {gs : List Glyph} {k : TokenKind}
    (ht : trivia false (g :: gs) = .ok (false, g :: gs))
    (hk : token [] true g gs = .ok ((k, []), [])) :
    tokensFrom eof [] [] (g :: gs) = .ok [⟨k, g.pos, false⟩, ⟨.eof, eof, false⟩] := by
  rw [tokensFrom]
  split
  · next heq => simp [ht] at heq
  · next heq => simp [ht] at heq
  · next heq =>
    rw [ht] at heq
    cases heq
    split
    · next hk' => simp [hk] at hk'
    · next hk' =>
      simp only [List.head?_nil, Option.all_none, hk] at hk'
      cases hk'
      rw [tokensFrom_nil]
      rfl

end Scan

/-- The raw text of a template determines how it reads: between backquotes it is one template, with
the same two texts. -/
theorem tokenize_raw_text {source : String} {tokens : List Token}
    (h : tokenize source = .ok tokens) {t : Token} (ht : t ∈ tokens) {part : TemplatePart}
    {cooked raw : String} (hkind : t.kind = .template part cooked raw) :
    tokenize ("`" ++ raw ++ "`") =
      .ok [⟨.template .whole cooked raw, .start, false⟩,
        ⟨.eof, .behind ("`" ++ raw ++ "`").toList, false⟩] := by
  have hread := isRead_of_tokenize h ht (by simp [hkind])
  rw [hkind] at hread
  obtain ⟨_, _, _, gs, _, rest, htoken⟩ := hread
  obtain ⟨text, htext, rfl, rfl⟩ := Scan.exists_templateText_of_token htoken
  obtain ⟨cs, rs, hcooked, hraw, -, hreads⟩ := Scan.rereads_templateText htext
  simp only [List.reverse_nil, List.nil_append] at hcooked hraw
  have hchars : ("`" ++ String.ofList text.raw ++ "`").toList = '`' :: (rs ++ ['`']) := by
    simp [hraw]
  have hagain := hreads [] [] (glyphsFrom (Position.start.after '`') (rs ++ ['`'])) []
    ⟨_, (List.append_nil _).symm, chars_glyphsFrom _ _⟩
  have htemplate : Scan.token [] true ⟨'`', .start⟩
      (glyphsFrom (Position.start.after '`') (rs ++ ['`'])) =
      .ok ((.template .whole (.ofList text.cooked) (.ofList text.raw), []), []) := by
    simp [Scan.token, Scan.template, hagain, Scan.mapValue, hcooked, hraw]
  have hend := endFrom_behind [] ('`' :: (rs ++ ['`']))
  rw [tokenize, hchars]
  exact (Scan.tokensFrom_of_token (by rw [Scan.trivia.eq_def]; rfl) htemplate).trans
    (by rw [← List.nil_append ('`' :: _), ← hend]; rfl)

/-- The middle of a template with a carriage return, an escape and a `$` at its end. -/
theorem tokenize_raw_text_of_middle : ∃ tokens,
    tokenize "`$\x7b1\x7d\r\n\\u\x7b41\x7d$$\x7b2\x7d`" = .ok tokens ∧
    ⟨.template .middle "\nA$" "\n\\u\x7b41\x7d$", ⟨1, 5⟩, false⟩ ∈ tokens ∧
    tokenize ("`" ++ "\n\\u\x7b41\x7d$" ++ "`") =
      .ok [⟨.template .whole "\nA$" "\n\\u\x7b41\x7d$", .start, false⟩,
        ⟨.eof, .behind ("`" ++ "\n\\u\x7b41\x7d$" ++ "`").toList, false⟩] := by
  have h : tokenize "`$\x7b1\x7d\r\n\\u\x7b41\x7d$$\x7b2\x7d`" = .ok
      [⟨.template .head "" "", ⟨1, 1⟩, false⟩, ⟨.number (.ofInt 1), ⟨1, 4⟩, false⟩,
        ⟨.template .middle "\nA$" "\n\\u\x7b41\x7d$", ⟨1, 5⟩, false⟩,
        ⟨.number (.ofInt 2), ⟨2, 10⟩, false⟩, ⟨.template .tail "" "", ⟨2, 11⟩, false⟩,
        ⟨.eof, ⟨2, 13⟩, false⟩] := by
    decide +kernel
  exact ⟨_, h, .tail _ (.tail _ (.head _)), tokenize_raw_text h (.tail _ (.tail _ (.head _))) rfl⟩

end TagCheck
