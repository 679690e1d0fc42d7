import TagCheck.Proofs.Program.Bare
import TagCheck.Proofs.Program.Precedence

/-! Two readers in lockstep. Their tokens are spelled alike up to a fork, where they go on
differently. As long as the first reader stays before the fork, the second one steps over the same
tokens and returns the same but for numbers and places, unless it gives up for want of depth.
Readers that are put together from such readers are of this kind too. -/
namespace TagCheck

open Parse

/-- What can be seen of a token besides its place: its kind and whether it begins a line. -/
def Token.spelling (t : Token) : TokenKind × Bool := (t.kind, t.newlineBefore)

/-- What `isArrowNext` sees. -/
def startsArrow : List Token → Bool
  | [] => false
  | t :: ts =>
    match t.kind with
    | .ident _ => ts.head?.any (·.kind = .punct .arrow)
    | .punct .lparen => isArrowHead 1 ts
    | _ => false

/-- Two ways in which tokens may go on. Both begin alike, and no search for an arrow ends in them. -/
structure Fork where
  left : List Token
  right : List Token
  head? : right.head?.map Token.spelling = left.head?.map Token.spelling
  length_le : left.length ≤ right.length
  startsArrow_left : startsArrow left = false
  startsArrow_right : startsArrow right = false
  isArrowHead_left (depth : Nat) : isArrowHead depth left = false
  isArrowHead_right (depth : Nat) : isArrowHead depth right = false

theorem Parse.run_isArrowNext (c : Cursor) : isArrowNext.run c = .ok (startsArrow c.rest, c) := by
  obtain ⟨_ | ⟨⟨kind, pos, newline⟩, ts⟩, i, j⟩ := c
  · rfl
  · cases kind with
    | ident name => cases ts <;> rfl
    | punct p => cases p <;> rfl
    | _ => rfl

theorem isArrowHead_rparen (depth : Nat) (pos : Position) (newline : Bool) (ts : List Token) :
    isArrowHead depth (⟨.punct .rparen, pos, newline⟩ :: ts) =
      if depth ≤ 1 then decide (ts.head?.map Token.spelling = some (.punct .arrow, false))
      else isArrowHead (depth - 1) ts := by
  rw [isArrowHead.eq_def]
  cases ts <;> simp [Token.spelling]

/-- Neither a parenthesis nor the end. -/
def TokenKind.isFlat : TokenKind → Bool
  | punct .lparen | punct .rparen | eof => false
  | _ => true

namespace TokenKind

variable {kind : TokenKind}

theorem ne_eof_of_isFlat (h : kind.isFlat = true) : kind ≠ .eof := by
  rintro rfl
  cases h

theorem isFlat_of_eq_some {α : Type} {f : TokenKind → Option α} {a : α} (h : f kind = some a)
    (hopen : f (.punct .lparen) = none) (hclose : f (.punct .rparen) = none)
    (hend : f .eof = none) : kind.isFlat = true := by
  unfold isFlat
  split <;> simp_all

end TokenKind

/-- A search for an arrow passes over these tokens. -/
def Skipped (us : List Token) : Prop :=
  ∀ depth ts, isArrowHead (depth + 1) (us ++ ts) = isArrowHead (depth + 1) ts

namespace Skipped

variable {us vs : List Token} {t u : Token}

theorem append (hu : Skipped us) (hv : Skipped vs) : Skipped (us ++ vs) := by
  intro depth ts
  rw [List.append_assoc, hu, hv]

theorem singleton (h : t.kind.isFlat = true) : Skipped [t] := by
  intro depth ts
  obtain ⟨kind, pos, newline⟩ := t
  cases kind with
  | punct p => cases p <;> first | rfl | cases h
  | eof => cases h
  | _ => rfl

theorem parens (ht : t.kind = .punct .lparen) (h : Skipped us) (hu : u.kind = .punct .rparen) :
    Skipped (t :: us ++ [u]) := by
  intro depth ts
  obtain ⟨kind, pos, newline⟩ := t
  obtain ⟨kind', pos', newline'⟩ := u
  cases ht
  cases hu
  have hopen : isArrowHead (depth + 1) (⟨.punct .lparen, pos, newline⟩ :: us ++
      [⟨.punct .rparen, pos', newline'⟩] ++ ts) =
      isArrowHead (depth + 2) (us ++ ⟨.punct .rparen, pos', newline'⟩ :: ts) := by
    simp [isArrowHead]
  rw [hopen, h (depth + 1), isArrowHead_rparen, if_neg (by omega)]
  rfl

end Skipped

/-- The first tokens begin with at least so many that a search for an arrow passes over, and the
others follow. -/
def Behind (least : Nat) (ts ts₁ : List Token) : Prop :=
  ∃ us, ts = us ++ ts₁ ∧ least ≤ us.length ∧ Skipped us

namespace Behind

variable {l l' : Nat} {ts ts₁ ts₂ : List Token}

theorem refl : Behind 0 ts ts := ⟨[], rfl, le_rfl, fun _ _ => rfl⟩

theorem trans (h : Behind l ts ts₁) (h' : Behind l' ts₁ ts₂) : Behind (l + l') ts ts₂ := by
  obtain ⟨us, rfl, hle, hus⟩ := h
  obtain ⟨vs, rfl, hle', hvs⟩ := h'
  refine ⟨us ++ vs, (List.append_assoc ..).symm, ?_, hus.append hvs⟩
  rw [List.length_append]
  omega

theorem suffix (h : Behind l ts ts₁) : ts₁ <:+ ts := by
  obtain ⟨us, rfl, -⟩ := h
  exact List.suffix_append ..

theorem length_le (h : Behind l ts ts₁) : ts₁.length + l ≤ ts.length := by
  obtain ⟨us, rfl, hle, -⟩ := h
  rw [List.length_append]
  omega

end Behind

namespace Fork

variable (F : Fork)

/-- Tokens that are spelled alike up to the fork. -/
def Alike (ts ts' : List Token) : Prop :=
  ∃ us us', us'.map Token.spelling = us.map Token.spelling ∧ ts = us ++ F.left ∧ ts' = us' ++ F.right

namespace Alike

variable {F} {ts ts' : List Token} {t : Token}

theorem head? (h : F.Alike ts ts') :
    ts'.head?.map Token.spelling = ts.head?.map Token.spelling := by
  obtain ⟨_ | ⟨u, us⟩, us', hus, rfl, rfl⟩ := h
  · cases List.map_eq_nil_iff.1 hus
    exact F.head?
  · obtain ⟨u', us', rfl, hu, -⟩ := List.map_eq_cons_iff.1 hus
    exact congrArg some hu

theorem length_le (h : F.Alike ts ts') : ts.length ≤ ts'.length := by
  obtain ⟨us, us', hus, rfl, rfl⟩ := h
  have hlength : us'.length = us.length := by simpa using congrArg List.length hus
  simpa [hlength] using F.length_le

/-- A step that stays before the fork. -/
theorem tail (h : F.Alike (t :: ts) ts') (hleft : F.left <:+ ts) :
    ∃ t' us', ts' = t' :: us' ∧ t'.spelling = t.spelling ∧ F.Alike ts us' := by
  obtain ⟨_ | ⟨u, us⟩, us', hus, hts, rfl⟩ := h
  · have hle := hleft.length_le
    rw [← List.nil_append F.left, ← hts] at hle
    exact absurd hle (Nat.not_succ_le_self _)
  · cases hts
    obtain ⟨u', us', rfl, hu, hus⟩ := List.map_eq_cons_iff.1 hus
    exact ⟨u', us' ++ F.right, rfl, hu, us, us', hus, rfl, rfl⟩

theorem isArrowHead_eq (h : F.Alike ts ts') (depth : Nat) :
    isArrowHead depth ts' = isArrowHead depth ts := by
  obtain ⟨us, us', hus, rfl, rfl⟩ := h
  induction us generalizing us' depth with
  | nil =>
    cases List.map_eq_nil_iff.1 hus
    exact (F.isArrowHead_right depth).trans (F.isArrowHead_left depth).symm
  | cons u us ih =>
    obtain ⟨⟨kind, pos', newline⟩, us', rfl, hu, hus'⟩ := List.map_eq_cons_iff.1 hus
    obtain ⟨_, pos, _⟩ := u
    cases hu
    have hhead := head? (F := F) ⟨us, us', hus', rfl, rfl⟩
    cases kind with
    | punct p =>
      cases p with
      | rparen =>
        rw [List.cons_append, List.cons_append, isArrowHead_rparen, isArrowHead_rparen, hhead,
          ih _ us' hus']
      | _ => exact ih _ us' hus'
    | eof => rfl
    | _ => exact ih _ us' hus'

theorem startsArrow_eq (h : F.Alike ts ts') : startsArrow ts' = startsArrow ts := by
  obtain ⟨_ | ⟨⟨kind, pos, newline⟩, us⟩, us', hus, rfl, rfl⟩ := h
  · cases List.map_eq_nil_iff.1 hus
    exact F.startsArrow_right.trans F.startsArrow_left.symm
  · obtain ⟨⟨_, pos', _⟩, us', rfl, hu, hus'⟩ := List.map_eq_cons_iff.1 hus
    cases hu
    have halike : F.Alike (us ++ F.left) (us' ++ F.right) := ⟨us, us', hus', rfl, rfl⟩
    cases kind with
    | ident name =>
      have hnext := congrArg (Option.any fun s => decide (s.1 = .punct .arrow)) halike.head?
      rwa [Option.any_map, Option.any_map] at hnext
    | punct p =>
      cases p with
      | lparen => exact halike.isArrowHead_eq 1
      | _ => rfl
    | _ => rfl

end Alike

end Fork

/-! ### The relation between two readers -/

namespace Parse

theorem run_accept {kind : TokenKind} {t : Token} {ts : List Token} {i : NodeId} {j : FuncId}
    (ht : t.kind = kind) (hkind : kind ≠ .eof) :
    (accept kind).run ⟨t :: ts, i, j⟩ = .ok (true, ⟨ts, i, j⟩) := by
  have hnext : (isNext kind).run ⟨t :: ts, i, j⟩ = .ok (true, ⟨t :: ts, i, j⟩) := by
    rw [run_isNext]
    simp [Cursor.kind, ht]
  rw [accept, run_bind_of_ok hnext, if_pos rfl, run_bind_of_ok (run_advance (ht ▸ hkind))]
  rfl

theorem run_expect {kind : TokenKind} {t : Token} {ts : List Token} {i : NodeId} {j : FuncId}
    (ht : t.kind = kind) (hkind : kind ≠ .eof) :
    (expect kind).run ⟨t :: ts, i, j⟩ = .ok ((), ⟨ts, i, j⟩) := by
  rw [expect, run_bind_of_ok (run_accept ht hkind)]
  rfl

theorem exists_of_run_accept {c c₁ : Cursor} {kind : TokenKind}
    (h : (accept kind).run c = .ok (true, c₁)) (hkind : kind ≠ .eof) :
    ∃ t, c.rest = t :: c₁.rest ∧ t.kind = kind := by
  have hc := kind_of_run_accept h
  obtain ⟨_ | ⟨t, ts⟩, i, j⟩ := c
  · exact absurd hc.symm hkind
  · cases (run_accept hc hkind).symm.trans h
    exact ⟨t, rfl, hc⟩

theorem exists_of_run_expect {c c₁ : Cursor} {kind : TokenKind} {a : Unit}
    (h : (expect kind).run c = .ok (a, c₁)) (hkind : kind ≠ .eof) :
    ∃ t, c.rest = t :: c₁.rest ∧ t.kind = kind := by
  obtain ⟨found, c₂, haccept, h⟩ := exists_of_run_bind_eq_ok h
  cases found with
  | false => exact absurd h run_fail_ne
  | true =>
    cases h
    exact exists_of_run_accept haccept hkind

end Parse

def SourceError.TooDeep (e : SourceError) : Prop := e.cause = .tooDeep maxNesting

/-- The same under `f`. -/
def Same (f : α → β) (a a' : α) : Prop := f a' = f a

/-- From tokens in `K`, the first reader steps over at least so many of them, and if it stays before
the fork, the second one steps over tokens that are spelled like them. -/
structure Fork.Lockstep (F : Fork) (K : List Token → Prop) (least : Nat) (m : Parse α) (m' : Parse β)
    (R : α → β → Prop) : Prop where
  passes {c c₁ : Cursor} {a : α} : K c.rest → m.run c = .ok (a, c₁) →
    Behind least c.rest c₁.rest ∧ ∃ b, R a b
  follows {c c' c₁ : Cursor} {a : α} : F.Alike c.rest c'.rest → K c.rest → m.run c = .ok (a, c₁) →
    F.left <:+ c₁.rest →
      m'.Ends c' SourceError.TooDeep fun b c₁' => F.Alike c₁.rest c₁'.rest ∧ R a b

/-- At least so many tokens fewer than some in `K`. -/
def Past (n : Nat) (K : List Token → Prop) (us : List Token) : Prop :=
  ∃ ts, K ts ∧ us.length + n ≤ ts.length

/-- Tokens in `K` that begin with this kind. -/
def Opening (kind : TokenKind) (K : List Token → Prop) (ts : List Token) : Prop :=
  K ts ∧ ts.head?.elim .eof Token.kind = kind

theorem past_of_opening {n : Nat} {kind : TokenKind} {K : List Token → Prop} {us : List Token}
    (h : Past n (Opening kind K) us) : Past n K us := by
  obtain ⟨ts, hts, hle⟩ := h
  exact ⟨ts, hts.1, hle⟩

theorem past_of_past {n d : Nat} {K : List Token → Prop} {us : List Token}
    (h : Past n (Past d K) us) : Past n K us := by
  obtain ⟨ts, ⟨vs, hvs, hle⟩, hle'⟩ := h
  exact ⟨vs, hvs, by omega⟩

namespace Fork

variable {F : Fork} {K L : List Token → Prop} {l l' : Nat} {α β γ δ σ τ : Type} {m : Parse α}
  {m' : Parse β} {k : α → Parse γ} {k' : β → Parse δ} {R R' : α → β → Prop} {Q : γ → δ → Prop}

namespace Lockstep

theorem weaken (h : F.Lockstep K l m m' R) (hK : ∀ ts, L ts → K ts) (hl : l' ≤ l)
    (hR : ∀ a b, R a b → R' a b) : F.Lockstep L l' m m' R' where
  passes hc hrun := by
    obtain ⟨⟨us, hrest, hle, hus⟩, b, hb⟩ := h.passes (hK _ hc) hrun
    exact ⟨⟨us, hrest, hl.trans hle, hus⟩, b, hR _ _ hb⟩
  follows halike hc hrun hleft :=
    (h.follows halike (hK _ hc) hrun hleft).imp (fun _ => id) fun _ _ => .imp_right (hR _ _)

theorem on (h : F.Lockstep K l m m' R) (hK : ∀ ts, L ts → K ts) : F.Lockstep L l m m' R :=
  h.weaken hK le_rfl fun _ _ => id

theorem least (h : F.Lockstep K l m m' R) (hl : l' ≤ l) : F.Lockstep K l' m m' R :=
  h.weaken (fun _ => id) hl fun _ _ => id

/-- The first reader does not read anything from such tokens. -/
theorem fails (h : ∀ c c₁ a, K c.rest → m.run c ≠ .ok (a, c₁)) : F.Lockstep K l m m' R :=
  ⟨fun hc hrun => absurd hrun (h _ _ _ hc), fun _ hc hrun => absurd hrun (h _ _ _ hc)⟩

theorem pure {a : α} {b : β} (h : R a b) : F.Lockstep K 0 (pure a) (pure b) R where
  passes _ hrun := by
    cases hrun
    exact ⟨.refl, b, h⟩
  follows halike _ hrun _ := by
    cases hrun
    exact ⟨halike, h⟩

theorem bindOf {d : Nat} (hm : F.Lockstep K l m m' R)
    (hk : ∀ a b, R a b → F.Lockstep (Past l K) d (k a) (k' b) Q) :
    F.Lockstep K (l + d) (m >>= k) (m' >>= k') Q where
  passes {c _ _} hc hrun := by
    obtain ⟨a, c₁, hrun₁, hrun₂⟩ := exists_of_run_bind_eq_ok hrun
    obtain ⟨hbehind, b, hb⟩ := hm.passes hc hrun₁
    obtain ⟨hbehind', hd⟩ := (hk a b hb).passes ⟨c.rest, hc, hbehind.length_le⟩ hrun₂
    exact ⟨hbehind.trans hbehind', hd⟩
  follows {c _ _ _} halike hc hrun hleft := by
    obtain ⟨a, c₁, hrun₁, hrun₂⟩ := exists_of_run_bind_eq_ok hrun
    obtain ⟨hbehind, b, hb⟩ := hm.passes hc hrun₁
    have hc₁ : Past l K c₁.rest := ⟨c.rest, hc, hbehind.length_le⟩
    have hsuffix := ((hk a b hb).passes hc₁ hrun₂).1.suffix
    refine (hm.follows halike hc hrun₁ (hleft.trans hsuffix)).bind fun b c₁' hb => ?_
    exact (hk a b hb.2).follows hb.1 hc₁ hrun₂ hleft

theorem bind (hm : F.Lockstep K l m m' R)
    (hk : ∀ a b, R a b → F.Lockstep (Past l K) 0 (k a) (k' b) Q) :
    F.Lockstep K l (m >>= k) (m' >>= k') Q :=
  hm.bindOf hk

theorem andThen (hm : F.Lockstep K l m m' R)
    (hk : ∀ a b, R a b → F.Lockstep (Past l K) 0 (k a) (k' b) Q) :
    F.Lockstep K 0 (m >>= k) (m' >>= k') Q :=
  (hm.bind hk).least (Nat.zero_le l)

theorem before (hm : F.Lockstep K l m m' R)
    (hk : ∀ a b, R a b → F.Lockstep (Past l K) 1 (k a) (k' b) Q) :
    F.Lockstep K 1 (m >>= k) (m' >>= k') Q :=
  (hm.bindOf hk).least (Nat.le_add_left 1 l)

theorem map {Q : γ → γ → Prop} {f : α → γ} {f' : β → γ} (h : F.Lockstep K l m m' R)
    (hQ : ∀ a b, R a b → Q (f a) (f' b)) : F.Lockstep K l (f <$> m) (f' <$> m') Q := by
  rw [map_eq_pure_bind, map_eq_pure_bind]
  exact h.bind fun a b hab => .pure (hQ a b hab)

/-- Readers that step over nothing. -/
theorem still {p : Parse σ} {p' : Parse τ} {k : σ → Parse α} {k' : τ → Parse β}
    (hp : ∀ c, ∃ a c₁, p.run c = .ok (a, c₁) ∧ c₁.rest = c.rest)
    (hp' : ∀ c, ∃ b c₁, p'.run c = .ok (b, c₁) ∧ c₁.rest = c.rest)
    (hk : ∀ a b, F.Lockstep K l (k a) (k' b) R) : F.Lockstep K l (p >>= k) (p' >>= k') R where
  passes {c _ _} hc hrun := by
    obtain ⟨a, c₁, hrun₁, hrest⟩ := hp c
    obtain ⟨b, -⟩ := hp' c
    rw [run_bind_of_ok hrun₁] at hrun
    exact hrest ▸ (hk a b).passes (hrest ▸ hc) hrun
  follows {c c' _ _} halike hc hrun hleft := by
    obtain ⟨a, c₁, hrun₁, hrest⟩ := hp c
    obtain ⟨b, c₁', hrun₁', hrest'⟩ := hp' c'
    rw [run_bind_of_ok hrun₁] at hrun
    rw [← hrest] at hc halike
    exact .after hrun₁' ((hk a b).follows (hrest' ▸ halike) hc hrun hleft)

end Lockstep

theorem lockstep_position {k : Position → Parse α} {k' : Position → Parse β}
    (hk : ∀ pos pos', F.Lockstep K l (k pos) (k' pos') R) :
    F.Lockstep K l (position >>= k) (position >>= k') R :=
  .still (fun c => ⟨_, c, run_position c, rfl⟩) (fun c => ⟨_, c, run_position c, rfl⟩) hk

theorem lockstep_newNode {pos pos' : Position} {k : Node → Parse α} {k' : Node → Parse β}
    (hk : ∀ n n', F.Lockstep K l (k n) (k' n') R) :
    F.Lockstep K l (newNode pos >>= k) (newNode pos' >>= k') R :=
  .still (fun _ => ⟨_, _, rfl, rfl⟩) (fun _ => ⟨_, _, rfl, rfl⟩) hk

theorem lockstep_newNode_left {pos : Position} {k : Node → Parse α}
    (hk : ∀ n, F.Lockstep K l (k n) m' R) : F.Lockstep K l (newNode pos >>= k) m' R := by
  rw [← pure_bind () fun _ => m']
  exact .still (fun _ => ⟨_, _, rfl, rfl⟩) (fun _ => ⟨_, _, rfl, rfl⟩) fun n _ => hk n

theorem lockstep_newNode_right {pos : Position} {k' : Node → Parse β}
    (hk : ∀ n, F.Lockstep K l m (k' n) R) : F.Lockstep K l m (newNode pos >>= k') R := by
  rw [← pure_bind () fun _ => m]
  exact .still (fun _ => ⟨_, _, rfl, rfl⟩) (fun _ => ⟨_, _, rfl, rfl⟩) fun _ n => hk n

theorem lockstep_newFunc {k : FuncId → Parse α} {k' : FuncId → Parse β}
    (hk : ∀ n n', F.Lockstep K l (k n) (k' n') R) :
    F.Lockstep K l (newFunc >>= k) (newFunc >>= k') R :=
  .still (fun _ => ⟨_, _, rfl, rfl⟩) (fun _ => ⟨_, _, rfl, rfl⟩) hk

/-! Steps that look at the next token. -/

/-- Both readers see the same. -/
theorem lockstep_look {p : Parse σ} {f : List Token → σ} {k : σ → Parse α} {k' : σ → Parse β}
    (hp : ∀ c, p.run c = .ok (f c.rest, c)) (hf : ∀ ts ts', F.Alike ts ts' → f ts' = f ts)
    (hk : ∀ a, F.Lockstep (fun ts => K ts ∧ f ts = a) l (k a) (k' a) R) :
    F.Lockstep K l (p >>= k) (p >>= k') R where
  passes hc hrun := by
    rw [run_bind_of_ok (hp _)] at hrun
    exact (hk _).passes ⟨hc, rfl⟩ hrun
  follows {c c' _ _} halike hc hrun hleft := by
    rw [run_bind_of_ok (hp _), ← hf _ _ halike] at hrun
    exact .after (hp c') ((hk _).follows halike ⟨hc, (hf _ _ halike).symm⟩ hrun hleft)

theorem Alike.kind_eq {ts ts' : List Token} (h : F.Alike ts ts') :
    ts'.head?.elim .eof Token.kind = ts.head?.elim .eof Token.kind := by
  have hkind := congrArg (Option.elim · .eof Prod.fst) h.head?
  rwa [Option.elim_map, Option.elim_map] at hkind

theorem lockstep_peek {k : TokenKind → Parse α} {k' : TokenKind → Parse β}
    (hk : ∀ kind, F.Lockstep (Opening kind K) l (k kind) (k' kind) R) :
    F.Lockstep K l (peek >>= k) (peek >>= k') R :=
  lockstep_look run_peek (fun _ _ => Alike.kind_eq) hk

theorem lockstep_isNext {kind : TokenKind} {k : Bool → Parse α} {k' : Bool → Parse β}
    (ht : F.Lockstep (Opening kind K) l (k true) (k' true) R)
    (hf : F.Lockstep K l (k false) (k' false) R) :
    F.Lockstep K l (isNext kind >>= k) (isNext kind >>= k') R := by
  rw [isNext, bind_assoc, bind_assoc]
  refine lockstep_peek fun next => ?_
  rw [pure_bind, pure_bind]
  by_cases h : next = kind
  · subst h
    rwa [decide_eq_true rfl]
  · rw [decide_eq_false h]
    exact hf.on fun _ => And.left

theorem lockstep_onNewLine {k : Bool → Parse α} {k' : Bool → Parse β}
    (hk : ∀ b, F.Lockstep K l (k b) (k' b) R) :
    F.Lockstep K l (onNewLine >>= k) (onNewLine >>= k') R := by
  refine lockstep_look (f := fun ts => (ts.head?.map Token.spelling).elim false Prod.snd) ?_ ?_
    fun b => (hk b).on fun _ => And.left
  · rintro ⟨_ | ⟨t, ts⟩, i, j⟩ <;> rfl
  · exact fun _ _ h => congrArg (Option.elim · false Prod.snd) h.head?

theorem lockstep_isArrowNext {k : Bool → Parse α} {k' : Bool → Parse β}
    (hk : ∀ b, F.Lockstep K l (k b) (k' b) R) :
    F.Lockstep K l (isArrowNext >>= k) (isArrowNext >>= k') R :=
  lockstep_look run_isArrowNext (fun _ _ => Alike.startsArrow_eq) fun b => (hk b).on fun _ => And.left

theorem lockstep_test {f : TokenKind → Parse Bool} {k : Bool → Parse α} {k' : Bool → Parse β}
    (hf : ∀ kind, ∃ b, f kind = pure b) (hk : ∀ b, F.Lockstep K l (k b) (k' b) R) :
    F.Lockstep K l ((peek >>= f) >>= k) ((peek >>= f) >>= k') R := by
  rw [bind_assoc, bind_assoc]
  refine lockstep_peek fun kind => ?_
  obtain ⟨b, hb⟩ := hf kind
  rw [hb, pure_bind, pure_bind]
  exact (hk b).on fun _ => And.left

theorem lockstep_endsHere {k : Bool → Parse α} {k' : Bool → Parse β}
    (hk : ∀ b, F.Lockstep K l (k b) (k' b) R) :
    F.Lockstep K l (endsHere >>= k) (endsHere >>= k') R := by
  rw [endsHere, bind_assoc, bind_assoc]
  refine lockstep_peek fun kind => ?_
  split
  · exact (hk _).on fun _ => And.left
  · exact (hk _).on fun _ => And.left
  · exact lockstep_onNewLine fun b => (hk b).on fun _ => And.left

/-! Steps over tokens. -/

theorem lockstep_fail {cause : Cause} : F.Lockstep K l (fail cause) m' R :=
  .fails fun _ _ _ _ => run_fail_ne

theorem lockstep_advance {kind : TokenKind} (hkind : kind.isFlat = true) :
    F.Lockstep (Opening kind K) 1 advance advance fun _ _ => True := by
  have hstep {c c₁ : Cursor} {a : Unit} (hc : Opening kind K c.rest)
      (hrun : advance.run c = .ok (a, c₁)) : ∃ t, c.rest = t :: c₁.rest ∧ t.kind.isFlat = true := by
    obtain ⟨_ | ⟨t, ts⟩, i, j⟩ := c
    · cases hc.2.symm ▸ hkind
    · have ht : t.kind.isFlat = true := (congrArg TokenKind.isFlat hc.2).trans hkind
      cases (run_advance (TokenKind.ne_eof_of_isFlat ht)).symm.trans hrun
      exact ⟨t, rfl, ht⟩
  constructor
  · intro c c₁ a hc hrun
    obtain ⟨t, hrest, ht⟩ := hstep hc hrun
    exact ⟨⟨[t], hrest, le_rfl, .singleton ht⟩, (), trivial⟩
  · intro c c' c₁ a halike hc hrun hleft
    obtain ⟨t, hrest, ht⟩ := hstep hc hrun
    obtain ⟨rest, i, j⟩ := c'
    rw [hrest] at halike
    obtain ⟨t', us', rfl, ht', halike⟩ := halike.tail hleft
    have hkind' : t'.kind = t.kind := congrArg Prod.fst ht'
    exact .of_ok (run_advance (hkind' ▸ TokenKind.ne_eof_of_isFlat ht)) ⟨halike, trivial⟩

theorem lockstep_accept {kind : TokenKind} {k : Bool → Parse α} {k' : Bool → Parse β}
    (hkind : kind.isFlat = true) (hl : l ≤ 1) (ht : F.Lockstep (Past 1 K) 0 (k true) (k' true) R)
    (hf : F.Lockstep K l (k false) (k' false) R) :
    F.Lockstep K l (accept kind >>= k) (accept kind >>= k') R := by
  rw [accept, bind_assoc, bind_assoc]
  refine lockstep_isNext ?_ ?_
  · simp only [if_true, bind_assoc, pure_bind]
    refine ((lockstep_advance hkind).bind fun _ _ _ => ?_).least hl
    exact ht.on fun _ => past_of_opening
  · simpa only [Bool.false_eq_true, if_false, pure_bind] using hf

theorem lockstep_expect {kind : TokenKind} (hkind : kind.isFlat = true) :
    F.Lockstep K 1 (expect kind) (expect kind) fun _ _ => True :=
  lockstep_accept hkind le_rfl (.pure trivial) lockstep_fail

theorem lockstep_parens {k : α → Parse γ} {k' : β → Parse δ}
    (hm : F.Lockstep (Past 1 K) l m m' R)
    (hk : ∀ a b, R a b → F.Lockstep (Past 1 K) 0 (k a) (k' b) Q) :
    F.Lockstep K 1 (do expect (.punct .lparen); let a ← m; expect (.punct .rparen); k a)
      (do expect (.punct .lparen); let b ← m'; expect (.punct .rparen); k' b) Q := by
  have hsplit {c c₁ : Cursor} {x : γ} (hc : K c.rest) (hrun : StateT.run (do
      expect (.punct .lparen); let a ← m; expect (.punct .rparen); k a) c = .ok (x, c₁)) :
      ∃ t u c₂ c₃ c₄ a, t.kind = .punct .lparen ∧ u.kind = .punct .rparen ∧
        c.rest = t :: c₂.rest ∧ c₃.rest = u :: c₄.rest ∧ Past 1 K c₂.rest ∧ Past 1 K c₄.rest ∧
        m.run c₂ = .ok (a, c₃) ∧ (k a).run c₄ = .ok (x, c₁) := by
    obtain ⟨_, c₂, hopen, hrun⟩ := exists_of_run_bind_eq_ok hrun
    obtain ⟨a, c₃, hinner, hrun⟩ := exists_of_run_bind_eq_ok hrun
    obtain ⟨_, c₄, hclose, hrun⟩ := exists_of_run_bind_eq_ok hrun
    obtain ⟨t, hrest, ht⟩ := exists_of_run_expect hopen nofun
    obtain ⟨u, hrest', hu⟩ := exists_of_run_expect hclose nofun
    have hc₂ : Past 1 K c₂.rest := ⟨c.rest, hc, by rw [hrest, List.length_cons]⟩
    have hle := (hm.passes hc₂ hinner).1.length_le
    refine ⟨t, u, c₂, c₃, c₄, a, ht, hu, hrest, hrest', hc₂, ⟨c.rest, hc, ?_⟩, hinner, hrun⟩
    rw [hrest', List.length_cons] at hle
    rw [hrest, List.length_cons]
    omega
  constructor
  · intro c c₁ x hc hrun
    obtain ⟨t, u, c₂, c₃, c₄, a, ht, hu, hrest, hrest', hc₂, hc₄, hinner, hrun⟩ := hsplit hc hrun
    obtain ⟨⟨us, hus, -, hskipped⟩, b, hb⟩ := hm.passes hc₂ hinner
    obtain ⟨hbehind, hx⟩ := (hk a b hb).passes hc₄ hrun
    have hparens : Behind 1 c.rest c₄.rest := by
      refine ⟨t :: us ++ [u], ?_, by simp, .parens ht hskipped hu⟩
      simp [hrest, hus, hrest']
    exact ⟨hparens.trans hbehind, hx⟩
  · intro c c' c₁ x halike hc hrun hleft
    obtain ⟨t, u, c₂, c₃, c₄, a, ht, hu, hrest, hrest', hc₂, hc₄, hinner, hrun⟩ := hsplit hc hrun
    obtain ⟨hbehind, b, hb⟩ := hm.passes hc₂ hinner
    have hleft₄ := hleft.trans ((hk a b hb).passes hc₄ hrun).1.suffix
    have hleft₃ : F.left <:+ c₃.rest := hrest' ▸ hleft₄.trans (List.suffix_cons ..)
    obtain ⟨rest, i, j⟩ := c'
    rw [hrest] at halike
    obtain ⟨t', us', rfl, ht', halike⟩ := halike.tail (hleft₃.trans hbehind.suffix)
    refine .after (run_expect ((congrArg Prod.fst ht').trans ht) nofun) ?_
    refine (hm.follows halike hc₂ hinner hleft₃).bind ?_
    rintro b ⟨rest', i', j'⟩ ⟨halike, hb⟩
    rw [hrest'] at halike
    obtain ⟨u', vs', rfl, hu', halike⟩ := halike.tail hleft₄
    refine .after (run_expect ((congrArg Prod.fst hu').trans hu) nofun) ?_
    exact (hk a b hb).follows halike hc₄ hrun hleft

theorem lockstep_endStatement : F.Lockstep K 0 endStatement endStatement fun _ _ => True := by
  refine lockstep_accept rfl (Nat.zero_le 1) (.pure trivial) (lockstep_endsHere fun b => ?_)
  split
  · exact .pure trivial
  · exact lockstep_fail

theorem lockstep_propertyName : F.Lockstep K 1 propertyName propertyName Eq := by
  refine lockstep_peek fun kind => ?_
  split
  all_goals first
    | exact (lockstep_advance rfl).bind fun _ _ _ => .pure rfl
    | exact lockstep_fail

theorem lockstep_ident : F.Lockstep K 1 ident ident (Same Ident.bare) := by
  refine lockstep_peek fun kind => ?_
  split
  · refine lockstep_position fun pos pos' => (lockstep_advance rfl).bind fun _ _ _ => ?_
    exact lockstep_newNode fun n n' => .pure rfl
  · exact lockstep_fail

theorem lockstep_lift {x : Except SourceError α} {x' : Except SourceError β}
    (h : ∀ a, x = .ok a → ∃ b, x' = .ok b ∧ R a b) :
    F.Lockstep K 0 (liftM x : Parse α) (liftM x' : Parse β) R := by
  cases x with
  | error e => exact .fails nofun
  | ok a =>
    obtain ⟨b, rfl, hab⟩ := h a rfl
    exact .pure hab

/-! ### Loops -/

/-- Tokens with which a loop with so much fuel does not run out of it. -/
def Within (n : Nat) (ts : List Token) : Prop := ts.length < n

theorem within_of_past {n : Nat} {ts : List Token} (h : Past 1 (Within (n + 1)) ts) :
    Within n ts := by
  obtain ⟨us, hus, hle⟩ := h
  rw [Within] at hus ⊢
  omega

theorem within_of_past_past {n : Nat} {ts : List Token}
    (h : Past 1 (Past l (Within (n + 1))) ts) : Within n ts := by
  obtain ⟨vs, ⟨us, hus, hle⟩, hle'⟩ := h
  rw [Within] at hus ⊢
  omega

theorem lockstep_budget {k : Nat → Parse α} {k' : Nat → Parse β}
    (hk : ∀ n n', n ≤ n' → F.Lockstep (Within n) l (k n) (k' n') R) :
    F.Lockstep K l (budget >>= k) (budget >>= k') R where
  passes _ hrun := by
    rw [run_bind_of_ok (run_budget _)] at hrun
    exact (hk _ _ le_rfl).passes (Nat.lt_succ_self _) hrun
  follows halike _ hrun hleft := by
    rw [run_bind_of_ok (run_budget _)] at hrun
    refine .after (run_budget _) ?_
    exact (hk _ _ (Nat.succ_le_succ halike.length_le)).follows halike (Nat.lt_succ_self _) hrun hleft

/-- The loops do not run out of fuel. -/
theorem lockstep_fuel {m : Nat → Parse α} {m' : Nat → Parse β}
    (hm : ∀ n n', n ≤ n' → F.Lockstep (Within n) l (m n) (m' n') R →
      F.Lockstep (Within (n + 1)) l (m (n + 1)) (m' (n' + 1)) R) :
    ∀ n n', n ≤ n' → F.Lockstep (Within n) l (m n) (m' n') R
  | 0, _, _ => .fails fun _ _ _ hc => absurd hc (Nat.not_lt_zero _)
  | n + 1, n' + 1, hn =>
    hm n n' (Nat.le_of_succ_le_succ hn) (lockstep_fuel hm n n' (Nat.le_of_succ_le_succ hn))

/-- Both readers return an item and have stepped over a token, or both return none. -/
def Offers (F : Fork) (item : Parse (Option α)) (item' : Parse (Option β)) (R : α → β → Prop) :
    Prop :=
  ∀ {γ δ : Type} {K : List Token → Prop} {k : Option α → Parse γ} {k' : Option β → Parse δ}
    {Q : γ → δ → Prop}, F.Lockstep K 0 (k none) (k' none) Q →
    (∀ a b, R a b → F.Lockstep (Past 1 K) 0 (k (some a)) (k' (some b)) Q) →
    F.Lockstep K 0 (item >>= k) (item' >>= k') Q

section Loops

variable {f : α → σ} {n n' : Nat} (hn : n ≤ n')

include hn

theorem lockstep_collect {item item' : Parse (Option α)} (h : F.Offers item item' (Same f)) :
    F.Lockstep (Within n) 0 (collect item n) (collect item' n') (Same (List.map f)) := by
  refine lockstep_fuel (fun n n' hn ih => ?_) n n' hn
  refine h (.pure rfl) fun a b hab => (ih.on fun _ => within_of_past).bind fun as bs has => .pure ?_
  exact congrArg₂ List.cons hab has

theorem lockstep_extend {step : α → Parse (Option α)} {step' : β → Parse (Option β)}
    (h : ∀ a b, R a b → F.Offers (step a) (step' b) R) {a : α} {b : β} (hab : R a b) :
    F.Lockstep (Within n) 0 (extend step n a) (extend step' n' b) R := by
  induction n generalizing n' a b with
  | zero => exact .fails fun _ _ _ hc => absurd hc (Nat.not_lt_zero _)
  | succ n ih =>
    obtain _ | n' := n'
    · cases hn
    · refine h a b hab (.pure hab) fun a' b' hab' => ?_
      exact (ih (Nat.le_of_succ_le_succ hn) hab').on fun _ => within_of_past

variable {item item' : Parse α} {close : TokenKind}
  (h : ∀ {K}, F.Lockstep K l item item' (Same f))

include h

theorem lockstep_separated : F.Lockstep (Within n) l (separated item n) (separated item' n')
    (Same (List.map f)) := by
  refine lockstep_fuel (fun n n' hn ih => h.bind fun a b hab => ?_) n n' hn
  refine lockstep_accept rfl (Nat.zero_le 1) ?_ (.pure (congrArg (fun y => [y]) hab))
  refine (ih.on fun _ => within_of_past_past).andThen fun as bs has => .pure ?_
  exact congrArg₂ List.cons hab has

theorem lockstep_commaList : F.Lockstep (Within n) 0 (commaList close item n)
    (commaList close item' n') (Same (List.map f)) := by
  refine lockstep_fuel (fun n n' hn ih => ?_) n n' hn
  refine lockstep_isNext (.pure rfl) ?_
  refine h.andThen fun a b hab => ?_
  refine lockstep_accept rfl (Nat.zero_le 1) ?_ (.pure (congrArg (fun y => [y]) hab))
  refine (ih.on fun _ => within_of_past_past).andThen fun as bs has => .pure ?_
  exact congrArg₂ List.cons hab has

theorem lockstep_holeyList : F.Lockstep (Within n) 0 (holeyList close item n)
    (holeyList close item' n') (Same (List.map (Option.map f))) := by
  refine lockstep_fuel (fun n n' hn ih => ?_) n n' hn
  refine lockstep_isNext (.pure rfl) ?_
  refine lockstep_accept rfl (Nat.zero_le 1) ?_ ?_
  · refine (ih.on fun _ => within_of_past).andThen fun as bs has => .pure ?_
    exact congrArg (List.cons none) has
  · refine h.andThen fun a b hab => ?_
    refine lockstep_accept rfl (Nat.zero_le 1) ?_ (.pure (congrArg (fun y => [some y]) hab))
    refine (ih.on fun _ => within_of_past_past).andThen fun as bs has => .pure ?_
    exact congrArg₂ List.cons (congrArg some hab) has

end Loops

theorem lockstep_commaParens {f : α → σ} {item item' : Parse α}
    (h : ∀ {K}, F.Lockstep K l item item' (Same f)) : F.Lockstep K 1
      (do
        expect (.punct .lparen)
        let as ← commaList (.punct .rparen) item (← budget)
        expect (.punct .rparen)
        return as)
      (do
        expect (.punct .lparen)
        let as ← commaList (.punct .rparen) item' (← budget)
        expect (.punct .rparen)
        return as) (Same (List.map f)) := by
  simp only [← bind_assoc budget]
  refine lockstep_parens (l := 0) (lockstep_budget fun n n' hn => ?_) fun _ _ has => .pure has
  exact lockstep_commaList hn h

end Fork

/-! ### The grammar -/

namespace Expr

/-- What may stand before `=` besides a property. -/
def isTarget : Expr → Bool
  | ident _ | array _ _ | object _ _ => true
  | _ => false

theorem isTarget_bare (e : Expr) : e.bare.isTarget = e.isTarget := by
  cases e <;> rfl

theorem exists_of_bare_member {e : Expr} {n : Node} {o : Expr} {key : Key}
    (h : e.bare = (member n o key).bare) : ∃ n' o' key', e = member n' o' key' := by
  cases e with
  | member n' o' key' => exact ⟨n', o', key', rfl⟩
  | _ => cases h

end Expr

namespace Grammar

/-- The assignment to what has been read, behind `=`. -/
def assignTo (g : Grammar) (left : Expr) : Parse Expr :=
  match left with
  | .member _ _ _ => do
    let value ← g.assignment
    return .assignMember (← newNode left.pos) left value
  | .ident _ | .array _ _ | .object _ _ => do
    let target ← left.toPattern
    let value ← g.assignment
    return .assign (← newNode left.pos) target value
  | _ => failAt left.pos .badAssignmentTarget

/-- What stands in the parentheses of a `for` statement. -/
def forHead (g : Grammar) : Parse (ForInit × Option Expr × Option Expr) := do
  let init ← g.forInit
  expect (.punct .semi)
  let test ← g.optionalBefore (.punct .semi)
  expect (.punct .semi)
  let update ← g.optionalBefore (.punct .rparen)
  return (init, test, update)

theorem forStatement_eq (g : Grammar) : g.forStatement = do
    let pos ← position
    advance
    expect (.punct .lparen)
    let head ← g.forHead
    expect (.punct .rparen)
    return .for_ pos head.1 head.2.1 head.2.2 (← g.statement) := by
  simp only [forStatement, forHead, bind_assoc, pure_bind]

theorem assignTo_of_isTarget {g : Grammar} {e : Expr} (h : e.isTarget = true) :
    g.assignTo e = do
      let target ← e.toPattern
      let value ← g.assignment
      return .assign (← newNode e.pos) target value := by
  cases e <;> first | rfl | cases h

open Fork

/-- The parts that nest are read in lockstep. -/
structure Twin (F : Fork) (g g' : Grammar) : Prop where
  statement {K : List Token → Prop} : F.Lockstep K 1 g.statement g'.statement (Same Stmt.bare)
  target {K : List Token → Prop} : F.Lockstep K 1 g.target g'.target (Same Pattern.bare)
  assignment {K : List Token → Prop} : F.Lockstep K 1 g.assignment g'.assignment (Same Expr.bare)
  operand {K : List Token → Prop} : F.Lockstep K 1 g.operand g'.operand (Same Expr.bare)

namespace Twin

variable {F : Fork} {K : List Token → Prop} {g g' : Grammar} {kind : TokenKind}
  {pos pos' : Position}

theorem identPattern :
    F.Lockstep K 1 Parse.identPattern Parse.identPattern (Same Pattern.bare) :=
  lockstep_ident.bind fun _ _ hi => .pure (congrArg Pattern.ident hi)

variable (hg : g.Twin F g')

include hg

theorem expression : F.Lockstep K 1 g.expression g'.expression (Same Expr.bare) := by
  refine hg.assignment.bind fun e e' he => ?_
  refine lockstep_accept rfl (Nat.zero_le 1) (lockstep_budget fun n n' hn => ?_) (.pure he)
  refine (lockstep_separated hn hg.assignment).andThen fun es es' hes => ?_
  exact lockstep_newNode fun _ _ => .pure (by simp_all [Same, Expr.bare])

theorem parenthesized : F.Lockstep K 1 g.parenthesized g'.parenthesized (Same Expr.bare) :=
  lockstep_parens hg.expression fun _ _ he => .pure he

theorem withDefault {p p' : Pattern} (hp : Same Pattern.bare p p') :
    F.Lockstep K 0 (g.withDefault p) (g'.withDefault p') (Same Pattern.bare) := by
  refine lockstep_accept rfl (Nat.zero_le 1) (lockstep_newNode fun n n' => ?_) (.pure hp)
  exact hg.assignment.andThen fun e e' he => .pure (by simp_all [Same, Pattern.bare])

theorem bindingElement : F.Lockstep K 1 g.bindingElement g'.bindingElement (Same Pattern.bare) :=
  hg.target.bind fun _ _ hp => hg.withDefault hp

theorem restPattern : F.Lockstep K 1 g.restPattern g'.restPattern (Same Pattern.bare) := by
  refine lockstep_position fun _ _ => (lockstep_expect rfl).bind fun _ _ _ => ?_
  refine lockstep_newNode fun _ _ => hg.target.andThen fun p p' hp => ?_
  exact .pure (by simp_all [Same, Pattern.bare])

theorem bindingItem : F.Lockstep K 1 g.bindingItem g'.bindingItem (Same Pattern.bare) :=
  lockstep_isNext hg.restPattern hg.bindingElement

theorem patternProp : F.Lockstep K 1 g.patternProp g'.patternProp (Same PatternProp.bare) := by
  refine lockstep_isNext ?_ (lockstep_position fun _ _ => ?_)
  · exact hg.restPattern.bind fun _ _ hp => .pure (congrArg PatternProp.rest hp)
  · refine lockstep_propertyName.bind fun key _ hkey => ?_
    subst hkey
    refine lockstep_accept rfl (Nat.zero_le 1) ?_ (lockstep_newNode fun _ _ => ?_)
    · exact hg.bindingElement.andThen fun p p' hp => .pure (by simp_all [Same, PatternProp.bare])
    · refine (hg.withDefault (by rfl)).bind fun p p' hp => .pure ?_
      simp_all [Same, PatternProp.bare]

theorem bindingTarget : F.Lockstep K 1 g.bindingTarget g'.bindingTarget (Same Pattern.bare) := by
  refine lockstep_position fun _ _ => lockstep_peek fun kind => ?_
  split
  · refine (lockstep_advance rfl).bind fun _ _ _ => lockstep_newNode fun _ _ => ?_
    refine lockstep_budget fun n n' hn => ?_
    refine (lockstep_holeyList hn hg.bindingItem).bind fun ps ps' hps => ?_
    exact (lockstep_expect rfl).andThen fun _ _ _ => .pure (by simp_all [Same, Pattern.bare])
  · refine (lockstep_advance rfl).bind fun _ _ _ => lockstep_newNode fun _ _ => ?_
    refine lockstep_budget fun n n' hn => ?_
    refine (lockstep_commaList hn hg.patternProp).bind fun ps ps' hps => ?_
    exact (lockstep_expect rfl).andThen fun _ _ _ => .pure (by simp_all [Same, Pattern.bare])
  · exact identPattern

theorem params : F.Lockstep K 1 g.params g'.params (Same (List.map Pattern.bare)) :=
  lockstep_commaParens hg.bindingItem

theorem block : F.Lockstep K 1 g.block g'.block (Same Block.bare) := by
  refine lockstep_position fun _ _ => (lockstep_expect rfl).bind fun _ _ _ => ?_
  extract_lets item item'
  have hitem : F.Offers item item' (Same Stmt.bare) := by
    intro γ δ K k k' Q hnone hsome
    rw [bind_assoc, bind_assoc]
    refine lockstep_peek fun kind => ?_
    split
    · exact hnone.on fun _ => And.left
    · exact hnone.on fun _ => And.left
    · rw [bind_assoc, bind_assoc]
      exact hg.statement.andThen fun s s' hs => (hsome s s' hs).on fun _ => past_of_opening
  refine lockstep_budget fun n n' hn => (lockstep_collect hn hitem).bind fun ss ss' hss => ?_
  exact (lockstep_expect rfl).andThen fun _ _ _ => .pure (by simp_all [Same, Block.bare])

theorem function (form : FuncForm) :
    F.Lockstep K 1 (g.function pos form) (g'.function pos' form) (Same Func.bare) := by
  refine lockstep_newNode fun _ _ => lockstep_newFunc fun _ _ => ?_
  refine lockstep_test (fun kind => by split <;> exact ⟨_, rfl⟩) fun b => ?_
  extract_lets finish finish'
  have hfinish {K} {name name' : Option Ident} (h : Same (Option.map Ident.bare) name name') :
      F.Lockstep K 1 (finish name) (finish' name') (Same Func.bare) := by
    refine hg.params.bind fun ps ps' hps => hg.block.andThen fun b b' hb => .pure ?_
    simp_all [Same, Func.bare, Body.bare]
  split
  · rw [bind_map_left, bind_map_left]
    exact lockstep_ident.before fun i i' hi => hfinish (congrArg some hi)
  · split
    · exact (lockstep_fail (l := 0)).before fun _ _ => hfinish
    · exact hfinish rfl

theorem arrowFunction : F.Lockstep K 1 g.arrowFunction g'.arrowFunction (Same Expr.bare) := by
  refine lockstep_position fun _ _ => lockstep_newNode fun _ _ => lockstep_newFunc fun _ _ => ?_
  refine lockstep_isNext ?_ ?_
  all_goals
    extract_lets finish finish'
    have hfinish {K} {ps ps' : List Pattern} (hps : Same (List.map Pattern.bare) ps ps') :
        F.Lockstep K 1 (finish ps) (finish' ps') (Same Expr.bare) := by
      refine (lockstep_expect rfl).bind fun _ _ _ => ?_
      refine lockstep_isNext ?_ ?_
      · dsimp only
        rw [if_pos rfl, if_pos rfl, bind_map_left, bind_map_left]
        refine hg.block.andThen fun b b' hb => .pure ?_
        simp_all [Same, Expr.bare, Func.bare, Body.bare]
      · dsimp only
        rw [if_neg nofun, if_neg nofun, bind_map_left, bind_map_left]
        refine hg.assignment.andThen fun e e' he => .pure ?_
        simp_all [Same, Expr.bare, Func.bare, Body.bare]
  · exact hg.params.before fun _ _ => hfinish
  · refine identPattern.before fun p p' hp => hfinish ?_
    exact congrArg (fun y => [y]) hp

theorem spread {α : Type} {build : Node → Expr → α} {f : α → α}
    (hbuild : ∀ n n' e e', Same Expr.bare e e' → Same f (build n e) (build n' e')) :
    F.Lockstep K 1 (g.spread build) (g'.spread build) (Same f) := by
  refine lockstep_position fun _ _ => (lockstep_expect rfl).bind fun _ _ _ => ?_
  refine lockstep_newNode fun n n' => hg.assignment.andThen fun e e' he => .pure ?_
  exact hbuild n n' e e' he

theorem element : F.Lockstep K 1 g.element g'.element (Same Element.bare) := by
  refine lockstep_isNext (hg.spread fun n n' e e' he => ?_) (hg.assignment.map fun e e' he => ?_)
  · simp_all [Same, Element.bare]
  · simp_all [Same, Element.bare]

theorem arguments : F.Lockstep K 1 g.arguments g'.arguments (Same (List.map Element.bare)) :=
  lockstep_commaParens hg.element

theorem propertyKey : F.Lockstep K 1 g.propertyKey g'.propertyKey (Same Key.bare) := by
  refine lockstep_accept rfl le_rfl (hg.assignment.andThen fun e e' he => ?_) ?_
  · exact (lockstep_expect rfl).andThen fun _ _ _ => .pure (congrArg Key.computed he)
  · exact lockstep_propertyName.bind fun _ _ hkey => .pure (by rw [hkey]; rfl)

theorem property : F.Lockstep K 1 g.property g'.property (Same Property.bare) := by
  refine lockstep_isNext (hg.spread fun n n' e e' he => ?_) (lockstep_position fun _ _ => ?_)
  · simp_all [Same, Property.bare]
  refine hg.propertyKey.bind fun key key' hkey => ?_
  refine lockstep_accept rfl (Nat.zero_le 1) ?_ (lockstep_isNext ?_ ?_)
  · refine hg.assignment.andThen fun e e' he => .pure ?_
    simp_all [Same, Property.bare]
  · refine lockstep_newNode fun _ _ => lockstep_newFunc fun _ _ => ?_
    refine hg.params.andThen fun ps ps' hps => hg.block.andThen fun b b' hb => .pure ?_
    simp_all [Same, Property.bare, Func.bare, Body.bare]
  · cases key with
    | name s =>
      cases key' with
      | name s' => 
        refine lockstep_newNode fun _ _ => .pure ?_
        simp_all [Same, Property.bare, Key.bare, Expr.bare, Ident.bare]
      | computed e => cases hkey
    | computed e => exact lockstep_fail

theorem substitutions {n n' : Nat} (hn : n ≤ n') : F.Lockstep (Within n) 1 (g.substitutions n)
    (g'.substitutions n') (Same (List.map (Prod.map Expr.bare Quasi.bare))) := by
  refine lockstep_fuel (fun n n' hn ih => ?_) n n' hn
  refine hg.expression.bind fun e e' he => lockstep_position fun _ _ => lockstep_peek fun kind => ?_
  split
  · refine (lockstep_advance rfl).andThen fun _ _ _ => ?_
    refine (ih.on fun _ hts => within_of_past_past (past_of_opening hts)).andThen
      fun subs subs' hsubs => .pure ?_
    simp_all [Same, Quasi.bare]
  · refine (lockstep_advance rfl).andThen fun _ _ _ => .pure ?_
    simp_all [Same, Quasi.bare]
  · exact lockstep_fail

theorem template : F.Lockstep K 1 g.template g'.template (Same Template.bare) := by
  refine lockstep_position fun _ _ => lockstep_peek fun kind => ?_
  split
  · exact (lockstep_advance rfl).bind fun _ _ _ => .pure rfl
  · refine (lockstep_advance rfl).bind fun _ _ _ => lockstep_budget fun n n' hn => ?_
    refine (hg.substitutions hn).andThen fun subs subs' hsubs => .pure ?_
    have hquasis := congrArg (List.map Prod.snd) hsubs
    have hparts := congrArg (List.map Prod.fst) hsubs
    simp only [List.map_map, Function.comp_def, Prod.map_fst, Prod.map_snd] at hquasis hparts
    simp [Same, Template.bare, Function.comp_def, hquasis, hparts]
    rfl
  · exact lockstep_fail

theorem arrayLiteral : F.Lockstep K 1 g.arrayLiteral g'.arrayLiteral (Same Expr.bare) := by
  refine lockstep_position fun _ _ => (lockstep_expect rfl).bind fun _ _ _ => ?_
  refine lockstep_newNode fun _ _ => lockstep_budget fun n n' hn => ?_
  refine (lockstep_holeyList hn hg.element).bind fun os os' hos => ?_
  refine (lockstep_expect rfl).andThen fun _ _ _ => .pure ?_
  have hget (o : Option Element) : (o.getD .hole).bare = (o.map Element.bare).getD .hole := by
    cases o <;> rfl
  have hmap := congrArg (List.map (Option.getD · Element.hole)) hos
  simp only [List.map_map, Function.comp_def, ← hget] at hmap
  simp [Same, Expr.bare, Function.comp_def, hmap]

theorem objectLiteral : F.Lockstep K 1 g.objectLiteral g'.objectLiteral (Same Expr.bare) := by
  refine lockstep_position fun _ _ => (lockstep_expect rfl).bind fun _ _ _ => ?_
  refine lockstep_newNode fun _ _ => lockstep_budget fun n n' hn => ?_
  refine (lockstep_commaList hn hg.property).bind fun ps ps' hps => ?_
  exact (lockstep_expect rfl).andThen fun _ _ _ => .pure (by simp_all [Same, Expr.bare])

omit hg in
theorem bare_literal? {build : Node → Expr} (h : literal? kind = some build) (n n' : Node) :
    Same Expr.bare (build n) (build n') := by
  unfold literal? at h
  split at h <;> cases h <;> rfl

theorem primary : F.Lockstep K 1 g.primary g'.primary (Same Expr.bare) := by
  refine lockstep_position fun _ _ => lockstep_peek fun kind => ?_
  split
  · next build hbuild =>
    have hkind := TokenKind.isFlat_of_eq_some hbuild rfl rfl rfl
    refine (lockstep_advance hkind).bind fun _ _ _ => lockstep_newNode fun n n' => .pure ?_
    exact bare_literal? hbuild n n'
  · split
    case h_3 => exact lockstep_ident.bind fun _ _ hi => .pure (congrArg Expr.ident hi)
    case h_4 =>
      refine (lockstep_advance rfl).bind fun _ _ _ => ?_
      exact (hg.function _).andThen fun _ _ hf => .pure (congrArg Expr.function hf)
    case h_5 => exact hg.parenthesized
    case h_6 => exact hg.arrayLiteral
    case h_7 => exact hg.objectLiteral
    case h_8 => exact lockstep_fail
    all_goals
      refine hg.template.bind fun t t' ht => lockstep_newNode fun _ _ => .pure ?_
      exact congrArg (Expr.template .bare) ht

theorem member {e e' : Expr} (he : Same Expr.bare e e') :
    F.Lockstep K 1 (g.member e) (g'.member e') (Same Expr.bare) := by
  refine lockstep_accept rfl le_rfl ?_ ?_
  · dsimp only
    rw [if_pos rfl, if_pos rfl, bind_map_left, bind_map_left]
    refine lockstep_propertyName.andThen fun _ _ hkey => lockstep_newNode fun _ _ => .pure ?_
    simp_all [Same, Expr.bare]
  · refine (lockstep_expect rfl).bind fun _ _ _ => hg.expression.andThen fun x x' hx => ?_
    refine (lockstep_expect rfl).andThen fun _ _ _ => ?_
    rw [pure_bind, pure_bind]
    exact lockstep_newNode fun _ _ => .pure (by simp_all [Same, Expr.bare, Key.bare])

theorem memberNext {e e' : Expr} (he : Same Expr.bare e e') :
    F.Offers (g.memberNext e) (g'.memberNext e') (Same Expr.bare) := by
  intro γ δ K k k' Q hnone hsome
  rw [Grammar.memberNext, bind_assoc, Grammar.memberNext, bind_assoc]
  refine lockstep_test (fun kind => by split <;> exact ⟨_, rfl⟩) fun b => ?_
  split
  · rw [bind_map_left, bind_map_left]
    exact (hg.member he).andThen hsome
  · exact hnone

theorem members {e e' : Expr} (he : Same Expr.bare e e') :
    F.Lockstep K 0 (g.members e) (g'.members e') (Same Expr.bare) :=
  lockstep_budget fun _ _ hn => lockstep_extend hn (fun _ _ => hg.memberNext) he

theorem construction {news : List Position} : ∀ {news' : List Position} {K},
    news'.length = news.length →
      F.Lockstep K 1 (g.construction news) (g'.construction news') (Same Expr.bare) := by
  induction news with
  | nil =>
    intro news' K h
    cases List.length_eq_zero_iff.1 h
    exact hg.primary
  | cons pos news ih =>
    intro news' K h
    obtain ⟨pos', news', rfl⟩ := List.exists_cons_of_length_eq_add_one h
    refine (ih (Nat.succ.inj h)).bind fun e e' he => (hg.members he).andThen fun x x' hx => ?_
    refine lockstep_isNext ?_ ?_
    · refine hg.arguments.andThen fun es es' hes => lockstep_newNode fun _ _ => .pure ?_
      simp_all [Same, Expr.bare]
    · dsimp only
      rw [if_neg nofun, if_neg nofun, pure_bind, pure_bind]
      exact lockstep_newNode fun _ _ => .pure (by simp_all [Same, Expr.bare])

omit hg in
theorem newKeyword : F.Offers newKeyword newKeyword (Same fun _ => ()) := by
  intro γ δ K k k' Q hnone hsome
  rw [Grammar.newKeyword, bind_assoc, bind_assoc]
  refine lockstep_position fun pos pos' => ?_
  rw [bind_assoc, bind_assoc]
  exact lockstep_accept rfl (Nat.zero_le 1) (hsome pos pos' rfl) hnone

theorem chainNext {e e' : Expr} (he : Same Expr.bare e e') :
    F.Offers (g.chainNext e) (g'.chainNext e') (Same Expr.bare) := by
  intro γ δ K k k' Q hnone hsome
  rw [Grammar.chainNext, bind_assoc, Grammar.chainNext, bind_assoc]
  refine lockstep_isNext ?_ ?_
  · simp only [if_true, bind_assoc, pure_bind]
    refine hg.arguments.andThen fun es es' hes => lockstep_newNode fun n n' => ?_
    refine (hsome _ _ ?_).on fun _ => past_of_opening
    simp_all [Same, Expr.bare]
  · simp only [Bool.false_eq_true, if_false, bind_assoc]
    refine lockstep_test (fun kind => by split <;> exact ⟨_, rfl⟩) fun b => ?_
    split
    · rw [bind_map_left, bind_map_left]
      exact (hg.member he).andThen hsome
    · simp only [bind_assoc]
      refine lockstep_test (fun kind => by split <;> exact ⟨_, rfl⟩) fun b => ?_
      split
      · simp only [bind_assoc, pure_bind]
        refine hg.template.andThen fun t t' ht => lockstep_newNode fun n n' => hsome _ _ ?_
        simp_all [Same, Expr.bare]
      · exact hnone

theorem callChain : F.Lockstep K 1 g.callChain g'.callChain (Same Expr.bare) := by
  refine lockstep_budget fun n n' hn => (lockstep_collect hn newKeyword).before fun ps ps' hps => ?_
  have hlength : ps'.length = ps.length := by simpa using congrArg List.length hps
  refine (hg.construction hlength).bind fun e e' he => ?_
  exact lockstep_budget fun n n' hn => lockstep_extend hn (fun _ _ => hg.chainNext) he

theorem trailingUpdate : F.Lockstep K 1 g.trailingUpdate g'.trailingUpdate (Same Expr.bare) := by
  refine hg.callChain.bind fun e e' he => lockstep_onNewLine fun b => ?_
  split
  · exact .pure he
  · refine lockstep_peek fun kind => ?_
    split
    · exact .pure he
    · next op hop =>
      have hkind := TokenKind.isFlat_of_eq_some hop rfl rfl rfl
      refine (lockstep_advance hkind).andThen fun _ _ _ => lockstep_newNode fun _ _ => .pure ?_
      exact congrArg (Expr.update .bare op false) he

theorem unary : F.Lockstep K 1 g.unary g'.unary (Same Expr.bare) := by
  refine lockstep_position fun _ _ => lockstep_peek fun kind => ?_
  split
  · next op hop =>
    have hkind := TokenKind.isFlat_of_eq_some hop rfl rfl rfl
    refine (lockstep_advance hkind).bind fun _ _ _ => hg.operand.andThen fun e e' he => ?_
    exact lockstep_newNode fun _ _ => .pure (congrArg (Expr.unary .bare op) he)
  · split
    · next op hop =>
      have hkind := TokenKind.isFlat_of_eq_some hop rfl rfl rfl
      refine (lockstep_advance hkind).bind fun _ _ _ => hg.operand.andThen fun e e' he => ?_
      exact lockstep_newNode fun _ _ => .pure (congrArg (Expr.update .bare op true) he)
    · exact hg.trailingUpdate.on fun _ => And.left

omit hg in
theorem joinNext {least : Nat} {e e' : Expr} (he : Same Expr.bare e e')
    (hbinary : ∀ c : Connective, least ≤ c.precedence → ∀ {K}, F.Lockstep K 1
      (g.binary (c.precedence + 1)) (g'.binary (c.precedence + 1)) (Same Expr.bare)) :
    F.Offers (g.joinNext least e) (g'.joinNext least e') (Same Expr.bare) := by
  intro γ δ K k k' Q hnone hsome
  rw [Grammar.joinNext, bind_assoc, Grammar.joinNext, bind_assoc]
  refine lockstep_peek fun kind => ?_
  split
  · exact hnone.on fun _ => And.left
  · next c hc =>
    have hkind := TokenKind.isFlat_of_eq_some hc rfl rfl rfl
    split
    · exact hnone.on fun _ => And.left
    · next hle =>
      simp only [bind_assoc, pure_bind]
      refine (lockstep_advance hkind).andThen fun _ _ _ => ?_
      refine (hbinary c (Nat.le_of_not_lt hle)).andThen fun x x' hx => lockstep_newNode fun n n' => ?_
      refine (hsome _ _ ?_).on fun _ hts => past_of_opening (past_of_past hts)
      cases c <;> simp_all [Same, Connective.apply, Expr.bare]

theorem binary (least : Nat) {K : List Token → Prop} :
    F.Lockstep K 1 (g.binary least) (g'.binary least) (Same Expr.bare) := by
  rw [Grammar.binary, Grammar.binary]
  refine hg.operand.bind fun e e' he => lockstep_budget fun n n' hn => ?_
  refine lockstep_extend hn (fun x x' hx => joinNext hx fun c hc => ?_) he
  have hle := c.precedence_le
  intro K
  exact binary (c.precedence + 1)
termination_by 11 - least

theorem conditional : F.Lockstep K 1 g.conditional g'.conditional (Same Expr.bare) := by
  refine (hg.binary 1).bind fun test test' htest => ?_
  refine lockstep_accept rfl (Nat.zero_le 1) ?_ (.pure htest)
  refine hg.assignment.andThen fun x x' hx => (lockstep_expect rfl).andThen fun _ _ _ => ?_
  refine hg.assignment.andThen fun y y' hy => lockstep_newNode fun _ _ => .pure ?_
  simp_all [Same, Expr.bare]

theorem assignTo {e e' : Expr} (he : Same Expr.bare e e') :
    F.Lockstep K 0 (g.assignTo e) (g'.assignTo e') (Same Expr.bare) := by
  by_cases htarget : e.isTarget = true
  · have htarget' : e'.isTarget = true := by rw [← e'.isTarget_bare, he, e.isTarget_bare, htarget]
    rw [assignTo_of_isTarget htarget, assignTo_of_isTarget htarget']
    refine (lockstep_lift fun p hp => Expr.exists_toPattern hp he).bind fun p p' hp => ?_
    refine hg.assignment.andThen fun x x' hx => lockstep_newNode fun _ _ => .pure ?_
    simp_all [Same, Expr.bare]
  · cases e with
    | member n o key =>
      obtain ⟨n', o', key', rfl⟩ := Expr.exists_of_bare_member he
      refine hg.assignment.andThen fun x x' hx => lockstep_newNode fun _ _ => .pure ?_
      simp_all [Same, Expr.bare]
    | ident | array | object => exact absurd rfl htarget
    | _ => exact .fails nofun

theorem assignmentOrArrow :
    F.Lockstep K 1 g.assignmentOrArrow g'.assignmentOrArrow (Same Expr.bare) := by
  refine lockstep_isArrowNext fun b => ?_
  split
  · exact hg.arrowFunction
  refine hg.conditional.bind fun left left' hleft => ?_
  exact lockstep_accept rfl (Nat.zero_le 1) (hg.assignTo hleft) (.pure hleft)

theorem declarator : F.Lockstep K 1 g.declarator g'.declarator (Same Declarator.bare) := by
  refine lockstep_position fun _ _ => hg.target.bind fun p p' hp => ?_
  refine lockstep_accept rfl (Nat.zero_le 1) ?_ ?_
  · dsimp only
    rw [if_pos rfl, if_pos rfl, bind_map_left, bind_map_left]
    exact hg.assignment.andThen fun e e' he => .pure (by simp_all [Same, Declarator.bare])
  · exact .pure (by simp_all [Same, Declarator.bare])

theorem declarators (hkind : kind.isFlat = true) : F.Lockstep (Opening kind K) 1 g.declarators
    g'.declarators (Same (List.map Declarator.bare)) := by
  refine (lockstep_advance hkind).bind fun _ _ _ => lockstep_budget fun n n' hn => ?_
  exact (lockstep_separated hn hg.declarator).least (Nat.zero_le 1)

theorem returnStatement (hkind : kind.isFlat = true) : F.Lockstep (Opening kind K) 1 g.returnStatement
    g'.returnStatement (Same Stmt.bare) := by
  refine lockstep_position fun _ _ => (lockstep_advance hkind).bind fun _ _ _ => ?_
  have hsplit {K} (b : Bool) {pos pos' : Position} : F.Lockstep K 0 (do
      let argument ← if b then pure none else some <$> g.expression
      endStatement
      return Stmt.return_ pos argument) (do
      let argument ← if b then pure none else some <$> g'.expression
      endStatement
      return Stmt.return_ pos' argument) (Same Stmt.bare) := by
    cases b with
    | true =>
      dsimp only
      rw [if_pos rfl, if_pos rfl, pure_bind, pure_bind]
      exact lockstep_endStatement.bind fun _ _ _ => .pure rfl
    | false =>
      dsimp only
      rw [if_neg nofun, if_neg nofun, bind_map_left, bind_map_left]
      refine hg.expression.andThen fun e e' he => lockstep_endStatement.bind fun _ _ _ => .pure ?_
      simp_all [Same, Stmt.bare]
  exact lockstep_isNext (lockstep_endsHere fun b => hsplit _) (lockstep_endsHere fun b => hsplit _)

theorem ifStatement (hkind : kind.isFlat = true) : F.Lockstep (Opening kind K) 1 g.ifStatement
    g'.ifStatement (Same Stmt.bare) := by
  refine lockstep_position fun _ _ => (lockstep_advance hkind).bind fun _ _ _ => ?_
  refine hg.parenthesized.andThen fun test test' htest => hg.statement.andThen fun s s' hs => ?_
  refine lockstep_accept rfl (Nat.zero_le 1) ?_ ?_
  · dsimp only
    rw [if_pos rfl, if_pos rfl, bind_map_left, bind_map_left]
    exact hg.statement.andThen fun t t' ht => .pure (by simp_all [Same, Stmt.bare])
  · exact .pure (by simp_all [Same, Stmt.bare])

theorem whileStatement (hkind : kind.isFlat = true) : F.Lockstep (Opening kind K) 1 g.whileStatement
    g'.whileStatement (Same Stmt.bare) := by
  refine lockstep_position fun _ _ => (lockstep_advance hkind).bind fun _ _ _ => ?_
  refine hg.parenthesized.andThen fun test test' htest => hg.statement.andThen fun s s' hs => ?_
  exact .pure (by simp_all [Same, Stmt.bare])

theorem doWhileStatement (hkind : kind.isFlat = true) : F.Lockstep (Opening kind K) 1
    g.doWhileStatement g'.doWhileStatement (Same Stmt.bare) := by
  refine lockstep_position fun _ _ => (lockstep_advance hkind).bind fun _ _ _ => ?_
  refine hg.statement.andThen fun s s' hs => (lockstep_expect rfl).andThen fun _ _ _ => ?_
  refine hg.parenthesized.andThen fun test test' htest => ?_
  refine lockstep_accept rfl (Nat.zero_le 1) (.pure ?_) (.pure ?_) <;>
    simp_all [Same, Stmt.bare]

theorem forInit : F.Lockstep K 0 g.forInit g'.forInit (Same ForInit.bare) := by
  refine lockstep_peek fun kind => ?_
  split
  · next d hd =>
    have hkind := TokenKind.isFlat_of_eq_some hd rfl rfl rfl
    exact (hg.declarators hkind).andThen fun ds ds' hds => .pure (by simp_all [Same, ForInit.bare])
  · split
    · exact .pure rfl
    · exact hg.expression.andThen fun e e' he => .pure (by simp_all [Same, ForInit.bare])

theorem optionalBefore (close : TokenKind) : F.Lockstep K 0 (g.optionalBefore close)
    (g'.optionalBefore close) (Same (Option.map Expr.bare)) := by
  refine lockstep_isNext (.pure rfl) ?_
  refine (hg.expression.map fun e e' he => ?_).least (Nat.zero_le 1)
  exact congrArg some he

theorem forHead : F.Lockstep K 1 g.forHead g'.forHead
    (Same (Prod.map ForInit.bare (Prod.map (Option.map Expr.bare) (Option.map Expr.bare)))) := by
  refine hg.forInit.before fun i i' hi => (lockstep_expect rfl).bind fun _ _ _ => ?_
  refine (hg.optionalBefore _).bind fun t t' ht => (lockstep_expect rfl).andThen fun _ _ _ => ?_
  exact (hg.optionalBefore _).bind fun u u' hu => .pure (by simp_all [Same])

theorem forStatement (hkind : kind.isFlat = true) : F.Lockstep (Opening kind K) 1 g.forStatement
    g'.forStatement (Same Stmt.bare) := by
  rw [g.forStatement_eq, g'.forStatement_eq]
  refine lockstep_position fun _ _ => (lockstep_advance hkind).bind fun _ _ _ => ?_
  refine (lockstep_parens hg.forHead fun h h' hh => ?_).least (Nat.zero_le 1)
  exact hg.statement.andThen fun s s' hs => .pure (by simp_all [Same, Stmt.bare, Prod.ext_iff])

theorem declaration (hkind : kind.isFlat = true) (d : DeclKind) : F.Lockstep (Opening kind K) 1
    (anyStatement.declaration g pos d) (anyStatement.declaration g' pos' d) (Same Stmt.bare) := by
  refine (hg.declarators hkind).bind fun ds ds' hds => lockstep_endStatement.bind fun _ _ _ => ?_
  exact .pure (by simp_all [Same, Stmt.bare])

theorem anyStatement : F.Lockstep K 1 g.anyStatement g'.anyStatement (Same Stmt.bare) := by
  refine lockstep_position fun _ _ => lockstep_peek fun kind => ?_
  split
  · exact hg.declaration rfl _
  · exact hg.declaration rfl _
  · exact hg.declaration rfl _
  · refine (lockstep_advance rfl).bind fun _ _ _ => ?_
    exact (hg.function _).andThen fun _ _ hf => .pure (congrArg Stmt.function hf)
  · exact hg.returnStatement rfl
  · exact hg.ifStatement rfl
  · exact hg.whileStatement rfl
  · exact hg.doWhileStatement rfl
  · exact hg.forStatement rfl
  · exact hg.block.bind fun _ _ hb => .pure (congrArg Stmt.block hb)
  · exact (lockstep_advance rfl).bind fun _ _ _ => .pure rfl
  · refine (lockstep_advance rfl).bind fun _ _ _ => ?_
    exact lockstep_endStatement.bind fun _ _ _ => .pure rfl
  · refine (lockstep_advance rfl).bind fun _ _ _ => ?_
    exact lockstep_endStatement.bind fun _ _ _ => .pure rfl
  · refine hg.expression.bind fun _ _ he => lockstep_endStatement.bind fun _ _ _ => ?_
    exact .pure (congrArg Stmt.expr he)

end Twin

theorem ends_tooDeep {α : Type} (c : Cursor) (P : α → Cursor → Prop) :
    (grammar.tooDeep : Parse α).Ends c SourceError.TooDeep P := by
  refine .of_error (e := ⟨.tooDeep maxNesting, c.position⟩) ?_ rfl
  rw [grammar.tooDeep, fail, run_bind_of_ok (run_position c)]
  rfl

theorem twin (F : Fork) (n : Nat) : ∀ n', (grammar n).Twin F (grammar n') := by
  induction n with
  | zero => exact fun _ => ⟨lockstep_fail, lockstep_fail, lockstep_fail, lockstep_fail⟩
  | succ n ih =>
    rintro (_ | n')
    · have hself := ih n
      exact ⟨⟨hself.anyStatement.passes, fun _ _ _ _ => ends_tooDeep ..⟩,
        ⟨hself.bindingTarget.passes, fun _ _ _ _ => ends_tooDeep ..⟩,
        ⟨hself.assignmentOrArrow.passes, fun _ _ _ _ => ends_tooDeep ..⟩,
        ⟨hself.unary.passes, fun _ _ _ _ => ends_tooDeep ..⟩⟩
    · exact ⟨(ih n').anyStatement, (ih n').bindingTarget, (ih n').assignmentOrArrow, (ih n').unary⟩

end Grammar

end TagCheck
