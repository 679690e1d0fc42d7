import Mathlib.Data.List.Nodup
import TagCheck.Token.Scan

/-! Tokens stand one after another: each has a position of its own. -/
namespace TagCheck

def Position.Before (p q : Position) : Prop :=
  p.line < q.line ∨ p.line = q.line ∧ p.column < q.column

namespace Position.Before

theorem trans {p q r : Position} (h : p.Before q) (h' : q.Before r) : p.Before r := by
  unfold Before at *
  omega

theorem ne {p q : Position} (h : p.Before q) : p ≠ q := by
  rintro rfl
  unfold Before at h
  omega

theorem after (p : Position) (c : Char) : p.Before (p.after c) := by
  unfold Position.after
  split
  · exact .inl (Nat.lt_succ_self _)
  · exact .inr ⟨rfl, Nat.lt_succ_self _⟩

end Position.Before

/-- The characters of a text, and then its end, stand one after another. -/
theorem pairwise_glyphsFrom (p : Position) (cs : List Char) :
    (p :: ((glyphsFrom p cs).map Glyph.pos ++ [endFrom p cs]).tail).Pairwise Position.Before := by
  induction cs generalizing p with
  | nil => exact List.pairwise_singleton _ _
  | cons c cs ih =>
    have htail : ((glyphsFrom p (c :: cs)).map Glyph.pos ++ [endFrom p (c :: cs)]).tail =
        p.after c ::
          ((glyphsFrom (p.after c) cs).map Glyph.pos ++ [endFrom (p.after c) cs]).tail := by
      cases cs <;> rfl
    rw [htail]
    have hnext := ih (p.after c)
    refine List.pairwise_cons.2 ⟨List.forall_mem_cons.2 ⟨.after p c, fun q hq => ?_⟩, hnext⟩
    exact (Position.Before.after p c).trans ((List.pairwise_cons.1 hnext).1 q hq)

theorem nodup_positions_glyphs (cs : List Char) :
    ((glyphsFrom .start cs).map Glyph.pos ++ [endFrom .start cs]).Nodup := by
  have hpairwise := pairwise_glyphsFrom .start cs
  have hcons : Position.start :: ((glyphsFrom .start cs).map Glyph.pos ++
      [endFrom .start cs]).tail = (glyphsFrom .start cs).map Glyph.pos ++ [endFrom .start cs] := by
    cases cs <;> rfl
  rw [hcons] at hpairwise
  exact hpairwise.imp Position.Before.ne

/-- What a scan of one token can give; the end token is not scanned. -/
def TokenKind.IsRead (k : TokenKind) : Prop :=
  k ≠ .eof → ∃ braces allowed g gs braces' rest,
    Scan.token braces allowed g gs = .ok ((k, braces'), rest)

namespace Scan

/-- The tokens that are added stand at some of the characters left or at the end, in order. -/
theorem exists_of_tokensFrom {eof : Position} {braces : List Nat} {found : List Token}
    {gs : List Glyph} {tokens : List Token} (h : tokensFrom eof braces found gs = .ok tokens) :
    ∃ new, tokens = found.reverse ++ new ∧
      (new.map Token.pos).Sublist (gs.map Glyph.pos ++ [eof]) ∧ ∀ t ∈ new, t.kind.IsRead := by
  fun_induction tokensFrom eof braces found gs with
  | case1 => cases h
  | case2 =>
    cases h
    refine ⟨[_], List.reverse_cons, List.sublist_append_right _ _, ?_⟩
    simp [TokenKind.IsRead]
  | case3 => cases h
  | case4 => cases h
  | case5 braces found gs newline g rest ht kind braces' rest' hk ih =>
    obtain ⟨new, rfl, hpos, hread⟩ := ih h
    refine ⟨⟨kind, g.pos, newline⟩ :: new, by simp, ?_,
      List.forall_mem_cons.2 ⟨fun _ => ⟨_, _, _, _, _, _, hk⟩, hread⟩⟩
    have hrest : (g :: rest').Sublist gs :=
      ((token_suffix hk).sublist.cons_cons g).trans (trivia_suffix ht).sublist
    exact (hpos.cons_cons g.pos).trans ((hrest.map Glyph.pos).append_right [eof])

end Scan

variable {source : String} {tokens : List Token}

theorem nodup_positions_of_tokenize (h : tokenize source = .ok tokens) :
    (tokens.map Token.pos).Nodup := by
  obtain ⟨new, rfl, hpos, -⟩ := Scan.exists_of_tokensFrom h
  exact hpos.nodup (nodup_positions_glyphs source.toList)

theorem isRead_of_tokenize (h : tokenize source = .ok tokens) {t : Token} (ht : t ∈ tokens) :
    t.kind.IsRead := by
  obtain ⟨new, rfl, -, hread⟩ := Scan.exists_of_tokensFrom h
  exact hread t (by simpa using ht)

end TagCheck
