import TagCheck.Token.Literal

/-! The tokens of a source, in order, closed by an end token. -/
namespace TagCheck
namespace Scan

/-- The rest of a block comment; the answer says whether a line feed was in it or before it. -/
def comment (newline : Bool) : List Glyph → Scan Bool
  | [] => .error (.unterminatedComment, [])
  | g :: gs =>
    if g.char = '*' ∧ nextIs '/' gs then .ok (newline, gs.drop 1)
    else comment (newline || g.char == '\n') gs

theorem comment_suffix {newline found : Bool} {gs rest : List Glyph}
    (h : comment newline gs = .ok (found, rest)) : rest <:+ gs := by
  induction gs generalizing newline with
  | nil => cases h
  | cons g gs ih =>
    simp only [comment] at h
    split at h
    · cases h
      exact (List.drop_suffix 1 gs).trans (List.suffix_cons g gs)
    · exact (ih h).trans (List.suffix_cons g gs)

/-- Skips blanks and comments; the answer says whether a line feed was among them. -/
def trivia (newline : Bool) : List Glyph → Scan Bool
  | [] => .ok (newline, [])
  | g :: gs =>
    if Text.isBlank g.char then trivia (newline || g.char == '\n') gs
    else if g.char = '/' ∧ nextIs '/' gs then trivia newline (dropChars (· != '\n') gs)
    else if g.char = '/' ∧ nextIs '*' gs then
      match _h : comment newline (gs.drop 1) with
      | .ok (newline, rest) => trivia newline rest
      | .error e => .error e
    else .ok (newline, g :: gs)
termination_by gs => gs.length
decreasing_by
  · simp
  · have := (dropChars_suffix (· != '\n') gs).length_le
    simp only [List.length_cons]
    omega
  · have := (comment_suffix _h).length_le
    simp only [List.length_drop, List.length_cons] at *
    omega

theorem trivia_suffix {newline found : Bool} {gs rest : List Glyph}
    (h : trivia newline gs = .ok (found, rest)) : rest <:+ gs := by
  fun_induction trivia newline gs with
  | case1 =>
    cases h
    exact List.suffix_refl _
  | case2 _ _ _ _ ih => exact (ih h).trans (List.suffix_cons _ _)
  | case3 _ _ gs _ _ ih =>
    exact ((ih h).trans (dropChars_suffix (· != '\n') gs)).trans (List.suffix_cons _ _)
  | case4 _ _ gs _ _ _ _ _ hc ih =>
    exact (((ih h).trans (comment_suffix hc)).trans (List.drop_suffix 1 gs)).trans
      (List.suffix_cons _ _)
  | case5 => cases h
  | case6 =>
    cases h
    exact List.suffix_refl _

/-- A template token: its text decides whether a substitution is left open. -/
def template (open_ closed : TemplatePart) (gs : List Glyph) : Scan (TokenKind × Bool) :=
  mapValue (fun t =>
    (.template (if t.substitution then open_ else closed) (String.ofList t.cooked)
      (String.ofList t.raw), t.substitution)) (templateText [] [] gs)

/-- Whether the rest of a source begins with the given characters. -/
def startsWith : List Char → List Glyph → Bool
  | [], _ => true
  | _ :: _, [] => false
  | c :: cs, g :: gs => g.char == c && startsWith cs gs

/-- The longest sign that begins with a character. -/
def sign? (c : Char) (gs : List Glyph) : Option (Punct × List Glyph) :=
  ((Punct.startingWith c).find? fun s => startsWith s.1 gs).map fun s =>
    (s.2, gs.drop s.1.length)

/-- One token whose first character is given. For each template substitution that is open, the
innermost first, `braces` counts the braces open in it; `regexAllowed` says what a slash is. -/
def token (braces : List Nat) (regexAllowed : Bool) (g : Glyph) (gs : List Glyph) :
    Scan (TokenKind × List Nat) :=
  let c := g.char
  if c = '{' then
    .ok ((.punct .lbrace, match braces with | [] => [] | n :: ns => (n + 1) :: ns), gs)
  else if c = '}' then
    match braces with
    | [] => .ok ((.punct .rbrace, []), gs)
    | 0 :: outer =>
      mapValue (fun r => (r.1, if r.2 then 0 :: outer else outer)) (template .middle .tail gs)
    | (n + 1) :: outer => .ok ((.punct .rbrace, n :: outer), gs)
  else
    let keeping (s : Scan TokenKind) : Scan (TokenKind × List Nat) := mapValue (·, braces) s
    if c = '`' then
      mapValue (fun r => (r.1, if r.2 then 0 :: braces else braces)) (template .head .whole gs)
    else if c = '"' ∨ c = '\'' then keeping (string c [] gs)
    else if c.isDigit || (c == '.' && (gs.head?.any fun h => h.char.isDigit)) then
      keeping (number c gs)
    else if c = '/' ∧ regexAllowed then keeping (regex gs)
    else if Text.isIdentStart c then keeping (.ok (word c gs))
    else match sign? c gs with
      | some (p, rest) => .ok ((.punct p, braces), rest)
      | none => .error (.unexpectedChar c, g :: gs)

theorem template_suffix {o c : TemplatePart} {gs rest : List Glyph} {r : TokenKind × Bool}
    (h : template o c gs = .ok (r, rest)) : rest <:+ gs := by
  obtain ⟨_, h, -⟩ := of_mapValue h
  exact templateText_suffix h

theorem token_suffix {braces braces' : List Nat} {regexAllowed : Bool} {g : Glyph}
    {gs rest : List Glyph} {k : TokenKind}
    (h : token braces regexAllowed g gs = .ok ((k, braces'), rest)) : rest <:+ gs := by
  simp only [token] at h
  split at h
  · cases h
    exact List.suffix_refl _
  split at h
  · split at h
    · cases h
      exact List.suffix_refl _
    · obtain ⟨_, h, -⟩ := of_mapValue h
      exact template_suffix h
    · cases h
      exact List.suffix_refl _
  split at h
  · obtain ⟨_, h, -⟩ := of_mapValue h
    exact template_suffix h
  split at h
  · obtain ⟨_, h, -⟩ := of_mapValue h
    exact string_suffix h
  split at h
  · obtain ⟨_, h, -⟩ := of_mapValue h
    exact number_suffix h
  split at h
  · obtain ⟨_, h, -⟩ := of_mapValue h
    exact regex_suffix h
  split at h
  · obtain ⟨_, h, -⟩ := of_mapValue h
    cases h
    exact dropChars_suffix _ _
  split at h
  · next p rest' hs =>
    cases h
    obtain ⟨s, _, hs⟩ := Option.map_eq_some_iff.1 hs
    cases hs
    exact List.drop_suffix _ gs
  · cases h

/-- The tokens of the rest of a source that ends at `eof`; those found so far come last first. -/
def tokensFrom (eof : Position) (braces : List Nat) (found : List Token) (gs : List Glyph) :
    Except SourceError (List Token) :=
  match _ht : trivia false gs with
  | .error (cause, rest) => .error ⟨cause, positionOf eof rest⟩
  | .ok (newline, []) =>
    if braces.isEmpty then .ok (⟨.eof, eof, newline⟩ :: found).reverse
    else .error ⟨.unterminatedTemplate, eof⟩
  | .ok (newline, g :: rest) =>
    match _hk : token braces (found.head?.all fun t => t.kind.allowsRegexAfter) g rest with
    | .error (cause, rest) => .error ⟨cause, positionOf eof rest⟩
    | .ok ((kind, braces'), rest') =>
      tokensFrom eof braces' (⟨kind, g.pos, newline⟩ :: found) rest'
termination_by gs.length
decreasing_by
  have := (trivia_suffix _ht).length_le
  have := (token_suffix _hk).length_le
  simp only [List.length_cons] at *
  omega

end Scan

/-- The tokens of a source. -/
def tokenize (source : String) : Except SourceError (List Token) :=
  let cs := source.toList
  Scan.tokensFrom (endFrom .start cs) [] [] (glyphsFrom .start cs)

end TagCheck
