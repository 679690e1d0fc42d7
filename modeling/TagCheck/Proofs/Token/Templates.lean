import TagCheck.Proofs.Token.Tiling

/-! The tokens of templates nest. What may stand in a substitution is said by a grammar, and once
more by reading the tokens with a stack of what is open. The counters of the scanner are what the
rest of the source still owes to the grammar. -/
namespace TagCheck
namespace TokenKind

def isPlain : TokenKind → Bool
  | punct .lbrace | punct .rbrace | eof => false
  | template part _ _ => part == .whole
  | _ => true

mutual

/-- What may stand in a substitution: braces in pairs, and templates with all of their parts. -/
inductive IsBalanced : List TokenKind → Prop
  | nil : IsBalanced []
  | plain {k : TokenKind} {ks : List TokenKind} (hk : k.isPlain = true) (h : IsBalanced ks) :
    IsBalanced (k :: ks)
  | braces {inner ks : List TokenKind} (hinner : IsBalanced inner) (h : IsBalanced ks) :
    IsBalanced (punct .lbrace :: (inner ++ punct .rbrace :: ks))
  | template (cooked raw : String) {parts ks : List TokenKind} (hparts : EndsTemplate parts)
    (h : IsBalanced ks) : IsBalanced (template .head cooked raw :: (parts ++ ks))

/-- What follows the opening of a substitution, up to the end of its template. -/
inductive EndsTemplate : List TokenKind → Prop
  | tail (cooked raw : String) {inner : List TokenKind} (hinner : IsBalanced inner) :
    EndsTemplate (inner ++ [template .tail cooked raw])
  | middle (cooked raw : String) {inner parts : List TokenKind} (hinner : IsBalanced inner)
    (h : EndsTemplate parts) : EndsTemplate (inner ++ template .middle cooked raw :: parts)

end

/-- The tokens of a source up to the end token, which stands in no template. Outside of templates
braces need not match. -/
inductive IsNested : List TokenKind → Prop
  | eof : IsNested [eof]
  | plain {k : TokenKind} {ks : List TokenKind} (hk : k.isPlain = true) (h : IsNested ks) :
    IsNested (k :: ks)
  | lbrace {ks : List TokenKind} (h : IsNested ks) : IsNested (punct .lbrace :: ks)
  | rbrace {ks : List TokenKind} (h : IsNested ks) : IsNested (punct .rbrace :: ks)
  | template (cooked raw : String) {parts ks : List TokenKind} (hparts : EndsTemplate parts)
    (h : IsNested ks) : IsNested (template .head cooked raw :: (parts ++ ks))

/-! Balanced tokens may stand in front of anything. -/

theorem IsBalanced.append {ks ls : List TokenKind} :
    IsBalanced ks → IsBalanced ls → IsBalanced (ks ++ ls)
  | .nil, h => h
  | .plain hk hks, h => .plain hk (hks.append h)
  | .braces hinner hks, h => by simpa using IsBalanced.braces hinner (hks.append h)
  | .template cooked raw hparts hks, h => by
    simpa using IsBalanced.template cooked raw hparts (hks.append h)

theorem EndsTemplate.prepend {ks ls : List TokenKind} (hks : IsBalanced ks)
    (h : EndsTemplate ls) : EndsTemplate (ks ++ ls) := by
  cases h with
  | tail cooked raw hinner => simpa using EndsTemplate.tail cooked raw (hks.append hinner)
  | middle cooked raw hinner h =>
    simpa using EndsTemplate.middle cooked raw (hks.append hinner) h

theorem IsNested.prepend {ks ls : List TokenKind} :
    IsBalanced ks → IsNested ls → IsNested (ks ++ ls)
  | .nil, h => h
  | .plain hk hks, h => .plain hk (h.prepend hks)
  | .braces hinner hks, h => by
    simpa using IsNested.lbrace (((h.prepend hks).rbrace).prepend hinner)
  | .template cooked raw hparts hks, h => by
    simpa using IsNested.template cooked raw hparts (h.prepend hks)

/-- What the rest of a source owes, given how many braces are open in each of the substitutions
that are open, the innermost first. -/
inductive Settles : List Nat → List TokenKind → Prop
  | outside {ks : List TokenKind} (h : IsNested ks) : Settles [] ks
  | substitution {outer : List Nat} {parts ks : List TokenKind} (hparts : EndsTemplate parts)
    (h : Settles outer ks) : Settles (0 :: outer) (parts ++ ks)
  | brace {n : Nat} {outer : List Nat} {inner ks : List TokenKind} (hinner : IsBalanced inner)
    (h : Settles (n :: outer) ks) : Settles ((n + 1) :: outer) (inner ++ punct .rbrace :: ks)

theorem Settles.prepend {braces : List Nat} {ks ls : List TokenKind} (hks : IsBalanced ks)
    (h : Settles braces ls) : Settles braces (ks ++ ls) := by
  cases h with
  | outside h => exact .outside (h.prepend hks)
  | substitution hparts h =>
    rw [← List.append_assoc]
    exact .substitution (hparts.prepend hks) h
  | brace hinner h =>
    rw [← List.append_assoc]
    exact .brace (hks.append hinner) h

/-- What a token does to the counters of open braces. -/
inductive Counts : TokenKind → List Nat → List Nat → Prop
  | plain {k : TokenKind} (hk : k.isPlain = true) (braces : List Nat) : Counts k braces braces
  | lbraceOutside : Counts (punct .lbrace) [] []
  | rbraceOutside : Counts (punct .rbrace) [] []
  | lbrace (n : Nat) (outer : List Nat) : Counts (punct .lbrace) (n :: outer) ((n + 1) :: outer)
  | rbrace (n : Nat) (outer : List Nat) : Counts (punct .rbrace) ((n + 1) :: outer) (n :: outer)
  | head (cooked raw : String) (braces : List Nat) :
    Counts (template .head cooked raw) braces (0 :: braces)
  | middle (cooked raw : String) (outer : List Nat) :
    Counts (template .middle cooked raw) (0 :: outer) (0 :: outer)
  | tail (cooked raw : String) (outer : List Nat) :
    Counts (template .tail cooked raw) (0 :: outer) outer

/-- A token settles what the tokens behind it do not owe any more. -/
theorem Counts.settles {k : TokenKind} {braces braces' : List Nat} (hk : k.Counts braces braces')
    {ks : List TokenKind} (h : Settles braces' ks) : Settles braces (k :: ks) := by
  cases hk with
  | plain hk => exact h.prepend (.plain hk .nil)
  | lbraceOutside =>
    cases h with
    | outside h => exact .outside h.lbrace
  | rbraceOutside =>
    cases h with
    | outside h => exact .outside h.rbrace
  | lbrace n outer =>
    cases h with
    | brace hinner h => simpa using h.prepend (.braces hinner .nil)
  | rbrace n outer => exact .brace .nil h
  | head cooked raw braces =>
    cases h with
    | substitution hparts h => simpa using h.prepend (.template cooked raw hparts .nil)
  | middle cooked raw outer =>
    cases h with
    | substitution hparts h => exact .substitution (.middle cooked raw .nil hparts) h
  | tail cooked raw outer => exact .substitution (.tail cooked raw .nil) h

end TokenKind

namespace Scan

open TokenKind

/-- No other character begins a brace. -/
theorem isPlain_of_mem_startingWith {c : Char} (hopen : c ≠ '{') (hclose : c ≠ '}') :
    ∀ s ∈ Punct.startingWith c, (TokenKind.punct s.2).isPlain = true := by
  unfold Punct.startingWith
  split
  case h_19 => exact absurd rfl hopen
  case h_20 => exact absurd rfl hclose
  all_goals simp [isPlain]

theorem isPlain_of_sign {c : Char} (hopen : c ≠ '{') (hclose : c ≠ '}') {gs rest : List Glyph}
    {p : Punct} (h : sign? c gs = some (p, rest)) : (TokenKind.punct p).isPlain = true := by
  obtain ⟨⟨cs, p'⟩, hfind, heq⟩ := Option.map_eq_some_iff.1 h
  cases heq
  exact isPlain_of_mem_startingWith hopen hclose _ (List.mem_of_find?_eq_some hfind)

theorem isPlain_word (first : Char) (gs : List Glyph) : (word first gs).1.isPlain = true := by
  simp only [word]
  split <;> rfl

/-- A template token, with whether it leaves a substitution open. -/
theorem exists_of_template {o c : TemplatePart} {gs rest : List Glyph} {k : TokenKind} {b : Bool}
    (h : template o c gs = .ok ((k, b), rest)) :
    ∃ cooked raw, k = .template (if b then o else c) cooked raw := by
  obtain ⟨t, -, heq⟩ := of_mapValue h
  cases heq
  exact ⟨_, _, rfl⟩

theorem counts_of_token {braces braces' : List Nat} {regexAllowed : Bool} {g : Glyph}
    {gs rest : List Glyph} {k : TokenKind}
    (h : token braces regexAllowed g gs = .ok ((k, braces'), rest)) : k.Counts braces braces' := by
  simp only [token] at h
  split at h
  · cases braces with
    | nil => cases h; exact .lbraceOutside
    | cons n outer => cases h; exact .lbrace n outer
  next hopen =>
  split at h
  · split at h
    · cases h
      exact .rbraceOutside
    · obtain ⟨⟨k', b⟩, hs, heq⟩ := of_mapValue h
      cases heq
      obtain ⟨cooked, raw, rfl⟩ := exists_of_template hs
      cases b
      · exact .tail cooked raw _
      · exact .middle cooked raw _
    · cases h
      exact .rbrace _ _
  next hclose =>
  split at h
  · obtain ⟨⟨k', b⟩, hs, heq⟩ := of_mapValue h
    cases heq
    obtain ⟨cooked, raw, rfl⟩ := exists_of_template hs
    cases b
    · exact .plain rfl _
    · exact .head cooked raw _
  -- all other tokens are plain and leave the counters as they are
  split at h
  · obtain ⟨k', hs, heq⟩ := of_mapValue h
    cases heq
    obtain ⟨-, v, -, rfl⟩ := cuts_string hs
    exact .plain rfl _
  split at h
  · obtain ⟨k', hs, heq⟩ := of_mapValue h
    cases heq
    rcases (readsNumeral_number hs).2 with ⟨x, rfl⟩ | ⟨ds, rfl⟩ <;> exact .plain rfl _
  split at h
  · obtain ⟨k', hs, heq⟩ := of_mapValue h
    cases heq
    simp only [regex] at hs
    split at hs <;> cases hs
    exact .plain rfl _
  split at h
  · obtain ⟨k', hs, heq⟩ := of_mapValue h
    cases heq
    cases hs
    exact .plain (isPlain_word _ gs) _
  split at h
  · next hsign =>
    cases h
    exact .plain (isPlain_of_sign hopen hclose hsign) _
  · cases h

/-- The tokens that are still to come settle what the counters say. -/
theorem settles_of_tokensFrom {eof : Position} {braces : List Nat} {found : List Token}
    {gs : List Glyph} {tokens : List Token} (h : tokensFrom eof braces found gs = .ok tokens) :
    ∃ rest, tokens = found.reverse ++ rest ∧ Settles braces (rest.map Token.kind) := by
  fun_induction tokensFrom eof braces found gs with
  | case1 | case3 | case4 => cases h
  | case2 braces found gs newline ht hbraces =>
    cases h
    obtain rfl := List.isEmpty_iff.1 hbraces
    exact ⟨[⟨.eof, eof, newline⟩], by simp, .outside .eof⟩
  | case5 braces found gs newline g rest ht kind braces' rest' hk ih =>
    obtain ⟨later, rfl, hlater⟩ := ih h
    exact ⟨⟨kind, g.pos, newline⟩ :: later, by simp, (counts_of_token hk).settles hlater⟩

end Scan

theorem isNested_of_tokenize {source : String} {tokens : List Token}
    (h : tokenize source = .ok tokens) : TokenKind.IsNested (tokens.map Token.kind) := by
  obtain ⟨rest, rfl, hrest⟩ := Scan.settles_of_tokensFrom h
  cases hrest with
  | outside h => simpa using h

/-! Reading with a stack. -/

/-- What is open: a brace, or a substitution of the template whose head is the token with this
number. -/
inductive Construct where
  | brace
  | substitution (head : Nat)
  deriving DecidableEq, Repr

namespace Construct

/-- What is open behind a token, given its number and what is open before it, the innermost first.
Parts of templates and closing braces have to meet what they belong to. -/
def read (i : Nat) (stack : List Construct) : TokenKind → Option (List Construct)
  | .punct .lbrace => some (.brace :: stack)
  | .punct .rbrace =>
    match stack with
    | [] => some []
    | .brace :: outer => some outer
    | .substitution _ :: _ => none
  | .template .head _ _ => some (.substitution i :: stack)
  | .template .middle _ _ =>
    match stack with
    | .substitution head :: outer => some (.substitution head :: outer)
    | _ => none
  | .template .tail _ _ =>
    match stack with
    | .substitution _ :: outer => some outer
    | _ => none
  | .eof => if stack.all (· == .brace) then some stack else none
  | _ => some stack

def readAll (i : Nat) (stack : List Construct) : List TokenKind → Option (List Construct)
  | [] => some stack
  | k :: ks => (read i stack k).bind fun stack => readAll (i + 1) stack ks

theorem readAll_append (i : Nat) (stack : List Construct) (ks ls : List TokenKind) :
    readAll i stack (ks ++ ls) =
      (readAll i stack ks).bind fun stack => readAll (i + ks.length) stack ls := by
  induction ks generalizing i stack with
  | nil => rfl
  | cons k ks ih =>
    have hcount : i + (k :: ks).length = i + 1 + ks.length := by simp; omega
    simp only [List.cons_append, readAll, ih, Option.bind_assoc, hcount]

theorem read_of_isPlain {k : TokenKind} (hk : k.isPlain = true) (i : Nat)
    (stack : List Construct) : read i stack k = some stack := by
  unfold read
  split <;> simp_all [TokenKind.isPlain]

end Construct

namespace TokenKind

open Construct

mutual

/-- Balanced tokens leave open what was open before them, and nothing else. -/
theorem IsBalanced.readAll {ks : List TokenKind} : IsBalanced ks → ∀ i stack,
    Construct.readAll i stack ks = some stack
  | .nil, _, _ => rfl
  | .plain hk h, i, stack => by
    simp only [Construct.readAll, read_of_isPlain hk, Option.bind_some, h.readAll]
  | .braces hinner h, i, stack => by
    simp only [Construct.readAll, readAll_append, Construct.read, Option.bind_some, hinner.readAll,
      h.readAll]
  | .template _ _ hparts h, i, stack => by
    simp only [Construct.readAll, readAll_append, Construct.read, Option.bind_some, hparts.readAll,
      h.readAll]

theorem EndsTemplate.readAll {ks : List TokenKind} : EndsTemplate ks → ∀ i head stack,
    Construct.readAll i (.substitution head :: stack) ks = some stack
  | .tail _ _ hinner, i, head, stack => by
    simp only [Construct.readAll, readAll_append, Construct.read, Option.bind_some, hinner.readAll]
  | .middle _ _ hinner h, i, head, stack => by
    simp only [Construct.readAll, readAll_append, Construct.read, Option.bind_some, hinner.readAll,
      h.readAll]

end

/-- Outside of templates only braces are open, in the end as before. -/
theorem IsNested.readAll {ks : List TokenKind} (h : IsNested ks) (i : Nat)
    {stack : List Construct} (hstack : ∀ c ∈ stack, c = .brace) :
    ∃ left, Construct.readAll i stack ks = some left ∧ ∀ c ∈ left, c = .brace := by
  induction h generalizing i stack with
  | eof =>
    have hall : stack.all (· == .brace) = true := by simpa using hstack
    exact ⟨stack, by simp [Construct.readAll, Construct.read, hall], hstack⟩
  | plain hk h ih =>
    simp only [Construct.readAll, read_of_isPlain hk, Option.bind_some]
    exact ih _ hstack
  | lbrace h ih =>
    simp only [Construct.readAll, Construct.read, Option.bind_some]
    exact ih _ (List.forall_mem_cons.2 ⟨rfl, hstack⟩)
  | rbrace h ih =>
    cases stack with
    | nil => exact ih _ hstack
    | cons c outer =>
      obtain ⟨rfl, houter⟩ := List.forall_mem_cons.1 hstack
      exact ih _ houter
  | template cooked raw hparts h ih =>
    simp only [Construct.readAll, readAll_append, Construct.read, Option.bind_some, hparts.readAll]
    exact ih _ hstack

end TokenKind

/-- The tokens of a source nest as the grammar says: every part of a template meets a substitution
of that template as the innermost of what is open. -/
theorem templates_nested {source : String} {tokens : List Token}
    (h : tokenize source = .ok tokens) :
    TokenKind.IsNested (tokens.map Token.kind) ∧
      ∃ left, Construct.readAll 0 [] (tokens.map Token.kind) = some left ∧
        ∀ c ∈ left, c = .brace := by
  have hnested := isNested_of_tokenize h
  exact ⟨hnested, hnested.readAll 0 (by simp)⟩

/-- Templates in templates, with braces in strings, comments and expressions that are not those of
a substitution. The last brace is left open. -/
theorem templates_nested_of_braces : ∃ tokens,
    tokenize
      "a`x$\x7b \x7bk: `\\`$\x7b'\x7d`'\x7d`\x7d /* \x7d */ \x7dy$\x7b/[`\x7d]/\x7d` + \x7b" =
        .ok tokens ∧
    tokens.map (fun t => t.kind.label) = ["Ident", "TemplateHead", "LBrace", "Ident", "Colon",
      "TemplateHead", "Str", "TemplateTail", "RBrace", "TemplateMiddle", "Regex", "TemplateTail",
      "Plus", "LBrace", "Eof"] ∧
    TokenKind.IsNested (tokens.map Token.kind) ∧
      ∃ left, Construct.readAll 0 [] (tokens.map Token.kind) = some left ∧
        ∀ c ∈ left, c = .brace := by
  have htest : Option.map (List.map fun t => t.kind.label) (Except.toOption (tokenize
      "a`x$\x7b \x7bk: `\\`$\x7b'\x7d`'\x7d`\x7d /* \x7d */ \x7dy$\x7b/[`\x7d]/\x7d` + \x7b")) =
      some ["Ident", "TemplateHead", "LBrace", "Ident", "Colon", "TemplateHead", "Str",
        "TemplateTail", "RBrace", "TemplateMiddle", "Regex", "TemplateTail", "Plus", "LBrace",
        "Eof"] := by
    decide +kernel
  cases htokens : tokenize
      "a`x$\x7b \x7bk: `\\`$\x7b'\x7d`'\x7d`\x7d /* \x7d */ \x7dy$\x7b/[`\x7d]/\x7d` + \x7b" with
  | error e => simp [htokens, Except.toOption] at htest
  | ok tokens =>
    refine ⟨tokens, rfl, ?_, templates_nested htokens⟩
    simpa [htokens, Except.toOption] using htest

end TagCheck
