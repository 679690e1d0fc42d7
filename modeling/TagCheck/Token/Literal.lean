import TagCheck.Double.Text
import TagCheck.SourceError
import TagCheck.Text.Letter

/-! Literals: numbers, strings, template text, regular expressions and words. Each scanner begins
behind the character that announces the literal and gives the rest of the source; a fault comes
with the rest at which it was noticed. -/
namespace TagCheck

abbrev Scan (α : Type) := Except (Cause × List Glyph) (α × List Glyph)

namespace Scan

def mapValue {α β : Type} (f : α → β) : Scan α → Scan β
  | .ok (a, rest) => .ok (f a, rest)
  | .error e => .error e

theorem of_mapValue {α β : Type} {f : α → β} {s : Scan α} {b : β} {rest : List Glyph}
    (h : mapValue f s = .ok (b, rest)) : ∃ a, s = .ok (a, rest) ∧ f a = b := by
  cases s with
  | error e => cases h
  | ok p => cases h; exact ⟨p.1, rfl, rfl⟩

def charsWhile (p : Char → Bool) (gs : List Glyph) : List Char :=
  (gs.takeWhile fun g => p g.char).map Glyph.char

def dropChars (p : Char → Bool) (gs : List Glyph) : List Glyph := gs.dropWhile fun g => p g.char

theorem dropChars_suffix (p : Char → Bool) (gs : List Glyph) : dropChars p gs <:+ gs :=
  List.dropWhile_suffix _

/-- Drops one character if it is the given one. -/
def dropIf (c : Char) : List Glyph → List Glyph
  | [] => []
  | g :: gs => if g.char = c then gs else g :: gs

theorem dropIf_suffix (c : Char) (gs : List Glyph) : dropIf c gs <:+ gs := by
  cases gs with
  | nil => exact List.suffix_refl _
  | cons g gs =>
    simp only [dropIf]
    split
    · exact List.suffix_cons g gs
    · exact List.suffix_refl _

def nextIs (c : Char) : List Glyph → Bool
  | [] => false
  | g :: _ => g.char == c

/-! Words. -/

def word (first : Char) (gs : List Glyph) : TokenKind × List Glyph :=
  let name := String.ofList (first :: charsWhile Text.isIdentPart gs)
  let kind := match Keyword.ofText? name with
    | some k => .keyword k
    | none => .ident name
  (kind, dropChars Text.isIdentPart gs)

/-! Numbers. An underscore between digits is skipped. -/

def isDecimalPart (c : Char) : Bool := c.isDigit || c == '_'

def withoutUnderscores (cs : List Char) : List Char := cs.filter (· != '_')

/-- The radix that the character behind a leading zero announces. -/
def radix? : List Glyph → Option Nat
  | [] => none
  | g :: _ =>
    if g.char = 'x' ∨ g.char = 'X' then some 16
    else if g.char = 'o' ∨ g.char = 'O' then some 8
    else if g.char = 'b' ∨ g.char = 'B' then some 2
    else none

/-- Digits of a radix up to 2^128, behind its announcement. -/
def radixNumber (radix : Nat) (gs : List Glyph) : Scan TokenKind :=
  let part (c : Char) := Text.isDigitOf radix c || c == '_'
  let digits := withoutUnderscores (charsWhile part gs)
  let rest := dropChars part gs
  let value := Text.natOfDigits radix digits
  if digits.isEmpty then .error (.missingDigits, rest)
  else if Nat.pow 2 128 ≤ value then .error (.badNumber (String.ofList digits), rest)
  else if nextIs 'n' rest then .ok (.bigint (toString value), dropIf 'n' rest)
  else .ok (.number (.ofInt value), rest)

/-- The exponent part, if a digit stands in it. -/
def exponent (gs : List Glyph) : List Char × List Glyph :=
  let digits (sign : List Char) (gs : List Glyph) : Option (List Char × List Glyph) :=
    match gs with
    | g :: _ =>
      if g.char.isDigit then
        some ('e' :: sign ++ charsWhile isDecimalPart gs, dropChars isDecimalPart gs)
      else none
    | [] => none
  let found := match gs with
    | e :: s :: rest =>
      if e.char = 'e' ∨ e.char = 'E' then
        if s.char = '+' ∨ s.char = '-' then digits [s.char] rest else digits [] (s :: rest)
      else none
    | _ => none
  found.getD ([], gs)

/-- A point and the digits behind it. -/
def fraction : List Glyph → List Char × List Glyph
  | [] => ([], [])
  | g :: gs =>
    if g.char = '.' then ('.' :: charsWhile isDecimalPart gs, dropChars isDecimalPart gs)
    else ([], g :: gs)

/-- The digits before the exponent, those from the point on apart, when the first character, a
digit or a point, has been read. -/
def mantissa (first : Char) (gs : List Glyph) : (List Char × List Char) × List Glyph :=
  let digits := charsWhile isDecimalPart gs
  let rest := dropChars isDecimalPart gs
  if first = '.' then (([], '.' :: digits), rest)
  else ((first :: digits, (fraction rest).1), (fraction rest).2)

def decimalNumber (first : Char) (gs : List Glyph) : Scan TokenKind :=
  let ((whole, fraction), afterMantissa) := mantissa first gs
  let (power, rest) := exponent afterMantissa
  let numeral := withoutUnderscores (whole ++ fraction ++ power)
  if fraction.isEmpty && power.isEmpty && nextIs 'n' rest then
    let digits := numeral.dropWhile (· == '0')
    .ok (.bigint (if digits.isEmpty then "0" else String.ofList digits), dropIf 'n' rest)
  else match Double.ofNumeral? numeral with
    | some x => .ok (.number x, rest)
    | none => .error (.badNumber (String.ofList numeral), rest)

def number (first : Char) (gs : List Glyph) : Scan TokenKind :=
  match (if first = '0' then radix? gs else none) with
  | some radix => radixNumber radix (gs.drop 1)
  | none => decimalNumber first gs

theorem exponent_suffix (gs : List Glyph) : (exponent gs).2 <:+ gs := by
  have hd := dropChars_suffix isDecimalPart
  unfold exponent
  rcases gs with _ | ⟨e, _ | ⟨s, rest⟩⟩
  · exact List.suffix_refl _
  · exact List.suffix_refl _
  · have hrest : rest <:+ e :: s :: rest := (List.suffix_cons s rest).trans (List.suffix_cons e _)
    dsimp only
    split
    · split
      · cases rest with
        | nil => exact List.suffix_refl _
        | cons d rest =>
          dsimp only
          split
          · exact (hd _).trans hrest
          · exact List.suffix_refl _
      · split
        · exact (hd _).trans (List.suffix_cons e _)
        · exact List.suffix_refl _
    · exact List.suffix_refl _

theorem fraction_suffix (gs : List Glyph) : (fraction gs).2 <:+ gs := by
  cases gs with
  | nil => exact List.suffix_refl _
  | cons g gs =>
    simp only [fraction]
    split
    · exact (dropChars_suffix isDecimalPart gs).trans (List.suffix_cons g gs)
    · exact List.suffix_refl _

theorem mantissa_suffix (first : Char) (gs : List Glyph) : (mantissa first gs).2 <:+ gs := by
  simp only [mantissa]
  split
  · exact dropChars_suffix isDecimalPart gs
  · exact (fraction_suffix _).trans (dropChars_suffix isDecimalPart gs)

theorem radixNumber_suffix {radix : Nat} {gs rest : List Glyph} {k : TokenKind}
    (h : radixNumber radix gs = .ok (k, rest)) : rest <:+ gs := by
  have hd := dropChars_suffix (fun c => Text.isDigitOf radix c || c == '_') gs
  simp only [radixNumber] at h
  split at h
  · cases h
  · split at h
    · cases h
    · split at h
      · cases h
        exact (dropIf_suffix 'n' _).trans hd
      · cases h
        exact hd

theorem decimalNumber_suffix {first : Char} {gs rest : List Glyph} {k : TokenKind}
    (h : decimalNumber first gs = .ok (k, rest)) : rest <:+ gs := by
  have he := (exponent_suffix _).trans (mantissa_suffix first gs)
  simp only [decimalNumber] at h
  split at h
  · cases h
    exact (dropIf_suffix 'n' _).trans he
  · split at h
    · cases h
      exact he
    · cases h

theorem number_suffix {first : Char} {gs rest : List Glyph} {k : TokenKind}
    (h : number first gs = .ok (k, rest)) : rest <:+ gs := by
  unfold number at h
  split at h
  · exact (radixNumber_suffix h).trans (List.drop_suffix 1 gs)
  · exact decimalNumber_suffix h

/-! Escapes. -/

/-- The character with a code, and the replacement character where there is none. -/
def charOfCode (n : Nat) : Char := if n.isValidChar then Char.ofNat n else '\ufffd'

def charOfDigits (ds : List Char) : Char := charOfCode (Text.natOfDigits 16 ds)

def hexDigits : Nat → List Glyph → Scan (List Char)
  | 0, gs => .ok ([], gs)
  | _ + 1, [] => .error (.badHexEscape, [])
  | n + 1, g :: gs =>
    if Text.isHexDigit g.char then
      match hexDigits n gs with
      | .ok (ds, rest) => .ok (g.char :: ds, rest)
      | .error e => .error e
    else .error (.badHexEscape, gs)

/-- Hexadecimal digits up to a closing brace. -/
def bracedDigits : List Glyph → Scan (List Char)
  | [] => .error (.badUnicodeEscape, [])
  | g :: gs =>
    if g.char = '}' then .ok ([], gs)
    else if Text.isHexDigit g.char then
      match bracedDigits gs with
      | .ok (ds, rest) => .ok (g.char :: ds, rest)
      | .error e => .error e
    else .error (.badUnicodeEscape, gs)

/-- What an escape stands for, and how it is spelled. -/
structure Escape where
  cooked : List Char
  raw : List Char

/-- The escape behind a backslash. -/
def escape : List Glyph → Scan Escape
  | [] => .error (.unterminatedEscape, [])
  | g :: gs =>
    let simple (c : Char) : Scan Escape := .ok (⟨[c], [g.char]⟩, gs)
    match g.char with
    | 'n' => simple '\n'
    | 't' => simple '\t'
    | 'r' => simple '\r'
    | 'b' => simple '\x08'
    | 'f' => simple '\x0c'
    | 'v' => simple '\x0b'
    | '0' => simple '\x00'
    | '\n' => .ok (⟨[], ['\n']⟩, gs)
    | 'x' => mapValue (fun ds => ⟨[charOfDigits ds], 'x' :: ds⟩) (hexDigits 2 gs)
    | 'u' =>
      if nextIs '{' gs then
        mapValue (fun ds => ⟨[charOfDigits ds], 'u' :: '{' :: ds ++ ['}']⟩)
          (bracedDigits (gs.drop 1))
      else mapValue (fun ds => ⟨[charOfDigits ds], 'u' :: ds⟩) (hexDigits 4 gs)
    | c => simple c

theorem hexDigits_suffix {n : Nat} {gs rest : List Glyph} {ds : List Char}
    (h : hexDigits n gs = .ok (ds, rest)) : rest <:+ gs := by
  induction n generalizing gs ds with
  | zero =>
    cases h
    exact List.suffix_refl _
  | succ n ih =>
    cases gs with
    | nil => simp [hexDigits] at h
    | cons g gs =>
      simp only [hexDigits] at h
      split at h
      · split at h
        · next hr =>
          cases h
          exact (ih hr).trans (List.suffix_cons g gs)
        · cases h
      · cases h

theorem bracedDigits_suffix {gs rest : List Glyph} {ds : List Char}
    (h : bracedDigits gs = .ok (ds, rest)) : rest <:+ gs := by
  induction gs generalizing ds with
  | nil => simp [bracedDigits] at h
  | cons g gs ih =>
    simp only [bracedDigits] at h
    split at h
    · cases h
      exact List.suffix_cons _ _
    · split at h
      · split at h
        · next hr =>
          cases h
          exact (ih hr).trans (List.suffix_cons g gs)
        · cases h
      · cases h

theorem escape_suffix {gs rest : List Glyph} {e : Escape} (h : escape gs = .ok (e, rest)) :
    rest <:+ gs := by
  cases gs with
  | nil => simp [escape] at h
  | cons g gs =>
    have hg := List.suffix_cons g gs
    simp only [escape] at h
    split at h
    case h_9 =>
      obtain ⟨ds, hr, -⟩ := of_mapValue h
      exact (hexDigits_suffix hr).trans hg
    case h_10 =>
      split at h
      · obtain ⟨ds, hr, -⟩ := of_mapValue h
        exact ((bracedDigits_suffix hr).trans (List.drop_suffix 1 gs)).trans hg
      · obtain ⟨ds, hr, -⟩ := of_mapValue h
        exact (hexDigits_suffix hr).trans hg
    all_goals
      cases h
      exact hg

/-! Strings and templates. -/

/-- The value of a string up to its closing quote; the characters read so far come last first. -/
def string (quote : Char) (value : List Char) : List Glyph → Scan TokenKind
  | [] => .error (.unterminatedString, [])
  | g :: gs =>
    if g.char = quote then .ok (.str (String.ofList value.reverse), gs)
    else if g.char = '\\' then
      match _h : escape gs with
      | .ok (e, rest) => string quote (e.cooked.reverse ++ value) rest
      | .error e => .error e
    else if g.char = '\n' then .error (.newlineInString, g :: gs)
    else string quote (g.char :: value) gs
termination_by gs => gs.length
decreasing_by
  · have := (escape_suffix _h).length_le
    simp only [List.length_cons]
    omega
  · simp

theorem string_suffix {quote : Char} {value : List Char} {gs rest : List Glyph} {k : TokenKind}
    (h : string quote value gs = .ok (k, rest)) : rest <:+ gs := by
  fun_induction string quote value gs with
  | case1 => cases h
  | case2 =>
    cases h
    exact List.suffix_cons _ _
  | case3 _ _ _ _ _ _ _ hr ih =>
    exact ((ih h).trans (escape_suffix hr)).trans (List.suffix_cons _ _)
  | case4 => cases h
  | case5 => cases h
  | case6 _ _ _ _ _ _ ih => exact (ih h).trans (List.suffix_cons _ _)

/-- A stretch of template text, as it reads and as it is spelled, and whether a substitution
follows it. -/
structure TemplateText where
  cooked : List Char
  raw : List Char
  substitution : Bool

/-- Template text up to a backquote or the next substitution; what was read so far comes last
first. A carriage return, with a line feed behind it or not, reads as a line feed. -/
def templateText (cooked raw : List Char) : List Glyph → Scan TemplateText
  | [] => .error (.unterminatedTemplate, [])
  | g :: gs =>
    if g.char = '`' then .ok (⟨cooked.reverse, raw.reverse, false⟩, gs)
    else if g.char = '$' ∧ nextIs '{' gs then .ok (⟨cooked.reverse, raw.reverse, true⟩, gs.drop 1)
    else if g.char = '\\' then
      match _h : escape gs with
      | .ok (e, rest) =>
        templateText (e.cooked.reverse ++ cooked) (e.raw.reverse ++ '\\' :: raw) rest
      | .error e => .error e
    else if g.char = '\r' then templateText ('\n' :: cooked) ('\n' :: raw) (dropIf '\n' gs)
    else templateText (g.char :: cooked) (g.char :: raw) gs
termination_by gs => gs.length
decreasing_by
  · have := (escape_suffix _h).length_le
    simp only [List.length_cons]
    omega
  · have := (dropIf_suffix '\n' gs).length_le
    simp only [List.length_cons]
    omega
  · simp

theorem templateText_suffix {cooked raw : List Char} {gs rest : List Glyph} {t : TemplateText}
    (h : templateText cooked raw gs = .ok (t, rest)) : rest <:+ gs := by
  fun_induction templateText cooked raw gs with
  | case1 => cases h
  | case2 =>
    cases h
    exact List.suffix_cons _ _
  | case3 =>
    cases h
    exact (List.drop_suffix 1 _).trans (List.suffix_cons _ _)
  | case4 _ _ _ _ _ _ _ _ _ hr ih =>
    exact ((ih h).trans (escape_suffix hr)).trans (List.suffix_cons _ _)
  | case5 => cases h
  | case6 _ _ _ _ _ _ _ _ ih =>
    exact ((ih h).trans (dropIf_suffix _ _)).trans (List.suffix_cons _ _)
  | case7 _ _ _ _ _ _ _ _ ih => exact (ih h).trans (List.suffix_cons _ _)

/-! Regular expressions. -/

/-- The pattern of a regular expression up to its closing slash, which does not count within a
character class; the pattern read so far comes last first. -/
def regexPattern (inClass : Bool) (pattern : List Char) : List Glyph → Scan (List Char)
  | [] => .error (.unterminatedRegex, [])
  | g :: gs =>
    if g.char = '\n' then .error (.unterminatedRegex, gs)
    else if g.char = '\\' then
      match gs with
      | [] => .error (.unterminatedRegex, [])
      | e :: rest =>
        if e.char = '\n' then .error (.unterminatedRegex, rest)
        else regexPattern inClass (e.char :: '\\' :: pattern) rest
    else if g.char = '/' ∧ inClass = false then .ok (pattern.reverse, gs)
    else
      let inClass := if g.char = '[' then true else if g.char = ']' then false else inClass
      regexPattern inClass (g.char :: pattern) gs

theorem regexPattern_suffix {inClass : Bool} {pattern : List Char} {gs rest : List Glyph}
    {cs : List Char} (h : regexPattern inClass pattern gs = .ok (cs, rest)) : rest <:+ gs := by
  fun_induction regexPattern inClass pattern gs with
  | case1 => cases h
  | case2 => cases h
  | case3 => cases h
  | case4 => cases h
  | case5 =>
    rename_i ih
    exact ((ih h).trans (List.suffix_cons _ _)).trans (List.suffix_cons _ _)
  | case6 =>
    cases h
    exact List.suffix_cons _ _
  | case7 =>
    rename_i ih
    exact (ih h).trans (List.suffix_cons _ _)

def regex (gs : List Glyph) : Scan TokenKind :=
  match regexPattern false [] gs with
  | .ok (pattern, rest) =>
    let flags := charsWhile Char.isAlpha rest
    .ok (.regex (String.ofList pattern) (String.ofList flags), dropChars Char.isAlpha rest)
  | .error e => .error e

theorem regex_suffix {gs rest : List Glyph} {k : TokenKind} (h : regex gs = .ok (k, rest)) :
    rest <:+ gs := by
  simp only [regex] at h
  split at h
  · next pattern rest' hr =>
    cases h
    exact (dropChars_suffix _ _).trans (regexPattern_suffix hr)
  · cases h

end Scan
end TagCheck
