import TagCheck.Proofs.Program.Lockstep
import TagCheck.Proofs.Program.Parts

/-! Patterns that are declared and patterns that are assigned to. The former are read as patterns,
the latter as expressions that are made patterns afterwards. Main statement: both readings agree, but
for defaults behind the name of a property, which only the former knows. -/
namespace TagCheck

open Parse

/-! ### Operands that end here -/

namespace TokenKind

/-- Behind an operand, nothing goes on with such a token but an assignment. -/
def endsTarget : TokenKind → Bool
  | punct .comma | punct .rbracket | punct .rbrace | punct .rparen | punct .semi | punct .eq => true
  | _ => false

/-- Behind an element of a pattern. -/
def endsElement : TokenKind → Bool
  | punct .comma | punct .rbracket | punct .rbrace => true
  | _ => false

variable {kind kind' : TokenKind}

theorem endsTarget_of_endsElement (h : kind.endsElement = true) : kind.endsTarget = true := by
  cases kind with
  | punct p => cases p <;> first | rfl | cases h
  | _ => cases h

theorem of_endsTarget (h : kind.endsTarget = true) :
    kind.endsOperand = true ∧ Connective.ofToken? kind = none := by
  cases kind with
  | punct p => cases p <;> first | exact ⟨rfl, rfl⟩ | cases h
  | _ => cases h

theorem ne_of_eq_true {f : TokenKind → Bool} (h : f kind = true) (h' : f kind' = false) :
    kind ≠ kind' := by
  rintro rfl
  cases h.symm.trans h'

end TokenKind

namespace Grammar

variable {c : Cursor} {E : SourceError → Prop} {P Q : Expr → Cursor → Prop}
  (hE : ∀ e : SourceError, e.TooDeep → E e)

include hE

/-- What `primary` reads is all that is read of a condition. -/
theorem ends_conditional (hopens : c.kind.opensOperand = true)
    (hP : ∀ e c₁, P e c₁ → c₁.kind.endsTarget = true) (h : ∀ n, (grammar n).primary.Ends c E P)
    (n : Nat) : (grammar n).conditional.Ends c E P := by
  have hoperand : (grammar n).operand.Ends c E P := by
    cases n with
    | zero => exact (ends_tooDeep c P).imp hE fun _ _ => id
    | succ n =>
      exact ends_unary hopens (fun e c₁ he => (TokenKind.of_endsTarget (hP e c₁ he)).1) (h n)
  have hbinary : ((grammar n).binary 1).Ends c E P := by
    rw [binary]
    refine hoperand.bind fun e c₁ he => .after (run_budget c₁) ?_
    refine .of_ok (run_extend_of_none _ ?_) he
    rw [joinNext, run_bind_of_ok (run_peek c₁), (TokenKind.of_endsTarget (hP e c₁ he)).2]
    rfl
  refine hbinary.bind fun e c₁ he => .after (run_accept_of_ne ?_) he
  exact TokenKind.ne_of_eq_true (hP e c₁ he) rfl

/-- A condition and the assignment to it, if there is one. -/
theorem ends_assignment (harrow : startsArrow c.rest = false)
    (h : ∀ n, (grammar n).conditional.Ends c E P)
    (hk : ∀ e c₁, P e c₁ → ∀ n, Ends (do
      if ← accept (.punct .eq) then (grammar n).assignTo e else return e) c₁ E Q) (n : Nat) :
    (grammar n).assignment.Ends c E Q := by
  cases n with
  | zero => exact (ends_tooDeep c Q).imp hE fun _ _ => id
  | succ n =>
    refine .after (run_isArrowNext c) ?_
    rw [harrow]
    exact (h n).bind fun e c₁ he => hk e c₁ he n

end Grammar

/-! ### Expressions that stand for patterns -/

/-- The expression is made this pattern, but for numbers and places. -/
def Expr.Denotes (p : Pattern) (e : Expr) : Prop :=
  ∃ p', e.toPattern = .ok p' ∧ p'.bare = p.bare

inductive Element.Denotes : Pattern → Element → Prop where
  | item {e : Expr} {p : Pattern} : e.Denotes p → Denotes p (.item e)
  | spread {e : Expr} {p : Pattern} {n n' : Node} : e.Denotes p → Denotes (.rest n p) (.spread n' e)

inductive Property.Denotes : PatternProp → Property → Prop where
  | prop {key : String} {e : Expr} {p : Pattern} {shorthand : Bool} : e.Denotes p →
    Denotes (.prop key p) (.keyValue (.name key) e shorthand)
  | spread {e : Expr} {p : Pattern} {n n' : Node} : e.Denotes p →
    Denotes (.rest (.rest n p)) (.spread n' e)

theorem Element.exists_toPatterns {os : List (Option Pattern)} {es : List (Option Element)}
    (h : List.Forall₂ (Option.Rel Element.Denotes) os es) :
    ∃ ps, Element.toPatterns (es.map (·.getD .hole)) = .ok ps ∧
      ps.map (Option.map Pattern.bare) = os.map (Option.map Pattern.bare) := by
  induction h with
  | nil => exact ⟨[], rfl, rfl⟩
  | cons h _ ih =>
    obtain ⟨ps, hps, hbare⟩ := ih
    cases h with
    | none => exact ⟨none :: ps, by simp [Element.toPatterns, hps], by simp [hbare]⟩
    | some h =>
      obtain @⟨_, _, p', hp', hp⟩ | @⟨_, _, _, n', p', hp', hp⟩ := h
      · refine ⟨some p' :: ps, ?_, by simp [hbare, hp]⟩
        rw [List.map_cons, Option.getD_some, Element.toPatterns, hp', hps]
        rfl
      · refine ⟨some (.rest n' p') :: ps, ?_, by simp [hbare, Pattern.bare, hp]⟩
        rw [List.map_cons, Option.getD_some, Element.toPatterns, hp', hps]
        rfl

theorem Property.exists_toPatterns {qs : List PatternProp} {ps : List Property}
    (h : List.Forall₂ Property.Denotes qs ps) (pos : Position) :
    ∃ qs', Property.toPatterns pos ps = .ok qs' ∧
      qs'.map PatternProp.bare = qs.map PatternProp.bare := by
  induction h with
  | nil => exact ⟨[], rfl, rfl⟩
  | cons h _ ih =>
    obtain ⟨qs', hqs, hbare⟩ := ih
    obtain @⟨key, _, _, _, p', hp', hp⟩ | @⟨_, _, _, n', p', hp', hp⟩ := h
    · refine ⟨.prop key p' :: qs', ?_, by simp [hbare, PatternProp.bare, hp]⟩
      rw [Property.toPatterns, hp', hqs]
      rfl
    · refine ⟨.rest (.rest n' p') :: qs', ?_, by simp [hbare, PatternProp.bare, Pattern.bare, hp]⟩
      rw [Property.toPatterns, hp', hqs]
      rfl

/-! ### Defaults behind names -/

namespace TokenKind

/-- The name of a property that is written like this. -/
def key? : TokenKind → Option String
  | ident name | str name => some name
  | number value => some value.text
  | keyword k => some k.text
  | _ => none

/-- What stands before a property of an object. -/
def opensProperty : TokenKind → Bool
  | punct .lbrace | punct .comma => true
  | _ => false

end TokenKind

/-- At this place `=` stands right behind a property that is nothing but this name. -/
def DefaultBehind (key : String) (ts : List Token) (pos : Position) : Prop :=
  ∃ before opening name eq after, ts = before ++ opening :: name :: eq :: after ∧
    opening.kind.opensProperty = true ∧ name.kind.key? = some key ∧ eq.kind = .punct .eq ∧
    eq.pos = pos

theorem DefaultBehind.of_suffix {key : String} {ts us : List Token} {pos : Position}
    (h : DefaultBehind key ts pos) (hs : ts <:+ us) : DefaultBehind key us pos := by
  obtain ⟨before, opening, name, eq, after, rfl, h⟩ := h
  obtain ⟨ws, rfl⟩ := hs
  exact ⟨ws ++ before, opening, name, eq, after, (List.append_assoc ..).symm, h⟩

/-- The property gives a value with a default to the variable of its own name. -/
def PatternProp.Defaults (q : PatternProp) (key : String) : Prop :=
  ∃ n i v, q = .prop key (.withDefault n (.ident ⟨i, key⟩) v)

/-- Such a property stands somewhere in the pattern. -/
inductive Pattern.Defaults : Pattern → String → Prop where
  | here {n : Node} {qs : List PatternProp} {q : PatternProp} {key : String} : q ∈ qs →
    q.Defaults key → Defaults (.object n qs) key
  | property {n : Node} {qs : List PatternProp} {q : PatternProp} {key : String} : q ∈ qs →
    Defaults q.pattern key → Defaults (.object n qs) key
  | element {n : Node} {os : List (Option Pattern)} {p : Pattern} {key : String} : some p ∈ os →
    Defaults p key → Defaults (.array n os) key
  | withDefault {n : Node} {p : Pattern} {v : Expr} {key : String} : Defaults p key →
    Defaults (.withDefault n p v) key
  | rest {n : Node} {p : Pattern} {key : String} : Defaults p key → Defaults (.rest n p) key

/-- Why an expression is refused that is spelled like a pattern: for want of depth, or at a default
behind the name of a property. -/
def Refused (D : String → Prop) (ts : List Token) (e : SourceError) : Prop :=
  e.TooDeep ∨ ∃ key, D key ∧ e.cause = .expected (.punct .rbrace) ∧ DefaultBehind key ts e.pos

/-- The reader of a property has stopped before a default behind its name. -/
def Stuck (D : String → Prop) (ts : List Token) (c : Cursor) : Prop :=
  c.kind = .punct .eq ∧ ∃ key, D key ∧
    ∀ t : Token, t.kind.opensProperty = true → DefaultBehind key (t :: ts) c.position

section

variable {D D' : String → Prop} {ts us : List Token} {c : Cursor}

theorem Parse.Ends.refused {α : Type} {m : Parse α} {P : α → Cursor → Prop}
    (h : m.Ends c (Refused D ts) P) (hD : ∀ key, D key → D' key) (hs : ts <:+ us) :
    m.Ends c (Refused D' us) P := by
  refine h.imp (fun e => .imp_right ?_) fun _ _ => id
  rintro ⟨key, hkey, hcause, hbehind⟩
  exact ⟨key, hD key hkey, hcause, hbehind.of_suffix hs⟩

theorem Stuck.imp (h : Stuck D ts c) (hD : ∀ key, D key → D' key) : Stuck D' ts c :=
  ⟨h.1, h.2.imp fun key => .imp_left (hD key)⟩

theorem Stuck.of_suffix {t : Token} (h : Stuck D ts c) (ht : t.kind.opensProperty = true)
    (hs : t :: ts <:+ us) : Stuck D us c := by
  obtain ⟨hkind, key, hkey, hbehind⟩ := h
  exact ⟨hkind, key, hkey, fun _ _ => (hbehind t ht).of_suffix (hs.trans (List.suffix_cons ..))⟩

end

/-! ### Patterns and expressions that are spelled alike -/

namespace Fork

variable {F : Fork} {α β γ δ : Type}

/-- Where the first reader reads a pattern and stops before a token in `A`, the second one reads what
denotes it, or refuses it. -/
def Reads (F : Fork) (A : TokenKind → Bool) (m : Parse Pattern) (m' : Parse β)
    (R : Pattern → β → Prop) : Prop :=
  ∀ {c c' c₁ : Cursor} {p : Pattern}, F.Alike c.rest c'.rest → m.run c = .ok (p, c₁) →
    F.left <:+ c₁.rest → A c₁.kind = true →
      m'.Ends c' (Refused p.Defaults c'.rest) fun b c₁' => F.Alike c₁.rest c₁'.rest ∧ R p b

theorem Lockstep.behind {m : Parse α} {m' : Parse β} {l : Nat} {R : α → β → Prop} {c c₁ : Cursor}
    {a : α} (h : F.Lockstep (fun _ => True) l m m' R) (hrun : m.run c = .ok (a, c₁)) :
    Behind l c.rest c₁.rest :=
  (h.passes trivial hrun).1

variable {c c' c₁ : Cursor} {kind : TokenKind} {E : SourceError → Prop} {P : β → Cursor → Prop}

/-- Both readers look for a token. -/
theorem ends_isNext (halike : F.Alike c.rest c'.rest) {k : Bool → Parse α} {k' : Bool → Parse β}
    {a : α} (hrun : StateT.run (isNext kind >>= k) c = .ok (a, c₁))
    (hfound : (k true).run c = .ok (a, c₁) → (k' true).Ends c' E P)
    (hother : (k false).run c = .ok (a, c₁) → (k' false).Ends c' E P) :
    (isNext kind >>= k').Ends c' E P := by
  rw [run_bind_of_ok (run_isNext c kind)] at hrun
  refine .after (run_isNext c' kind) ?_
  rw [show c'.kind = c.kind from halike.kind_eq]
  cases hfind : decide (c.kind = kind) with
  | true => exact hfound (hfind ▸ hrun)
  | false => exact hother (hfind ▸ hrun)

/-- Both readers step over a token. -/
theorem ends_accept (halike : F.Alike c.rest c'.rest)
    (hrun : (accept kind).run c = .ok (true, c₁)) (hleft : F.left <:+ c₁.rest) (hkind : kind ≠ .eof)
    {k : Bool → Parse β} (h : ∀ t c₁', c'.rest = t :: c₁'.rest → t.kind = kind →
      F.Alike c₁.rest c₁'.rest → (k true).Ends c₁' E P) : (accept kind >>= k).Ends c' E P := by
  obtain ⟨t, hrest, ht⟩ := exists_of_run_accept hrun hkind
  obtain ⟨rest, i, j⟩ := c'
  rw [hrest] at halike
  obtain ⟨t', us', rfl, ht', halike⟩ := halike.tail hleft
  have hkind' : t'.kind = kind := (congrArg Prod.fst ht').trans ht
  exact .after (run_accept hkind' hkind) (h t' ⟨us', i, j⟩ rfl hkind' halike)

theorem ends_expect (halike : F.Alike c.rest c'.rest) {a : Unit}
    (hrun : (expect kind).run c = .ok (a, c₁)) (hleft : F.left <:+ c₁.rest) (hkind : kind ≠ .eof)
    {k : Unit → Parse β} (h : ∀ t c₁', c'.rest = t :: c₁'.rest → t.kind = kind →
      F.Alike c₁.rest c₁'.rest → (k ()).Ends c₁' E P) : (expect kind >>= k).Ends c' E P := by
  obtain ⟨found, c₂, haccept, hrun⟩ := exists_of_run_bind_eq_ok hrun
  cases found with
  | false => exact absurd hrun run_fail_ne
  | true =>
    cases hrun
    rw [expect, bind_assoc]
    exact ends_accept halike haccept hleft hkind h

/-- Both readers step over a token at which a node begins. -/
theorem ends_opened (halike : F.Alike c.rest c'.rest) {t : Token} {ts : List Token}
    (hrest : c.rest = t :: ts) (ht : t.kind = kind) (hleft : F.left <:+ ts) (hkind : kind ≠ .eof)
    {k : Node → Parse β} (h : ∀ i t' c₁', c'.rest = t' :: c₁'.rest → t'.kind = kind →
      F.Alike ts c₁'.rest → (k i).Ends c₁' E P) :
    Ends (do let pos ← position; expect kind; let i ← newNode pos; k i) c' E P := by
  obtain ⟨rest, i, j⟩ := c'
  rw [hrest] at halike
  obtain ⟨t', us', rfl, ht', halike⟩ := halike.tail hleft
  have hkind' : t'.kind = kind := (congrArg Prod.fst ht').trans ht
  refine .after (run_position _) (.after (run_expect hkind' hkind) ?_)
  exact h ⟨i, t'.pos⟩ t' ⟨us', i + 1, j⟩ rfl hkind' halike

/-- Neither reader steps over a token. -/
theorem ends_accept_none (halike : F.Alike c.rest c'.rest)
    (hrun : (accept kind).run c = .ok (false, c₁)) {k : Bool → Parse β}
    (h : (k false).Ends c' E P) : (accept kind >>= k).Ends c' E P := by
  refine .after (run_accept_of_ne fun hkind => ?_) h
  rw [accept, run_bind_of_ok (run_isNext c kind), ← show c'.kind = c.kind from halike.kind_eq,
    decide_eq_true hkind] at hrun
  obtain ⟨_, c₂, -, hrun⟩ := exists_of_run_bind_eq_ok hrun
  cases hrun

/-! Lists with commas between their items. -/

variable {D S : γ → String → Prop} {R : γ → δ → Prop} {as : List γ} {m' : Parse (List δ)}

/-- Where the first reader reads the list `as`, the second one reads a list that is related to it,
refuses it, or stops before a default behind the name of a property. -/
def Lists (F : Fork) (D S : γ → String → Prop) (R : γ → δ → Prop) (as : List γ) (c₁ : Cursor)
    (m' : Parse (List δ)) (c' : Cursor) (ts : List Token) : Prop :=
  m'.Ends c' (Refused (fun key => ∃ a ∈ as, D a key) ts) fun bs c₁' =>
    F.Alike c₁.rest c₁'.rest ∧ List.Forall₂ R as bs ∨ Stuck (fun key => ∃ a ∈ as, S a key) ts c₁'

theorem Lists.cons {ts : List Token} {t : Token} {a : γ} {b : δ}
    (h : F.Lists D S R as c₁ m' c' c'.rest) (ht : t.kind = .punct .comma)
    (hs : t :: c'.rest <:+ ts) (hab : R a b) :
    F.Lists D S R (a :: as) c₁ (do return b :: (← m')) c' ts := by
  have hmem {Q : γ → String → Prop} (key : String) : (∃ x ∈ as, Q x key) → ∃ x ∈ a :: as, Q x key :=
    fun ⟨x, hx, hkey⟩ => ⟨x, List.mem_cons_of_mem _ hx, hkey⟩
  refine .bind (h.refused hmem ((List.suffix_cons ..).trans hs)) fun bs c₁' hbs => ?_
  rcases hbs with ⟨halike, hbs⟩ | hstuck
  · exact .inl ⟨halike, .cons hab hbs⟩
  · exact .inr ((hstuck.of_suffix (by rw [ht]; rfl) hs).imp hmem)

/-- An item and the others behind it. -/
theorem lists_items {item : Parse α} {item' : Parse β} {others : Parse (List γ)} {f : α → γ}
    {f' : β → δ} {l l' : Nat} {Q : α → α → Prop} {Q' : β → β → Prop}
    (hself : F.Lockstep (fun _ => True) l item item Q)
    (hself' : F.Lockstep (fun _ => True) l' item' item' Q') (hrun : StateT.run (do
      let a ← item
      if ← accept (.punct .comma) then return f a :: (← others) else return [f a]) c = .ok (as, c₁))
    (hleft : F.left <:+ c₁.rest) (hends : c₁.kind.endsElement = true)
    (hitem : ∀ {a c₂}, item.run c = .ok (a, c₂) → F.left <:+ c₂.rest → c₂.kind.endsElement = true →
      item'.Ends c' (Refused (D (f a)) c'.rest) fun b c₂' =>
        F.Alike c₂.rest c₂'.rest ∧ R (f a) (f' b) ∨ Stuck (S (f a)) c'.rest c₂')
    (hothers : ∀ {as c₂}, c₂.rest.length < c.rest.length → others.run c₂ = .ok (as, c₁) →
      F.left <:+ c₂.rest ∧
        ∀ c₂', F.Alike c₂.rest c₂'.rest → F.Lists D S R as c₁ m' c₂' c₂'.rest) :
    F.Lists D S R as c₁ (do
      let b ← item'
      if ← accept (.punct .comma) then return f' b :: (← m') else return [f' b]) c' c'.rest := by
  obtain ⟨a, c₂, hrun₁, hrun⟩ := exists_of_run_bind_eq_ok hrun
  have hreads (as : List γ) (hleft₂ : F.left <:+ c₂.rest) (hends₂ : c₂.kind.endsElement = true) :
      item'.Ends c' (Refused (fun key => ∃ x ∈ f a :: as, D x key) c'.rest) fun b c₂' =>
        (F.Alike c₂.rest c₂'.rest ∧ R (f a) (f' b)) ∧ c₂'.rest <:+ c'.rest ∨
          Stuck (fun key => ∃ x ∈ f a :: as, S x key) c'.rest c₂' := by
    have hmem {Q : γ → String → Prop} (key : String) : Q (f a) key → ∃ x ∈ f a :: as, Q x key :=
      fun hkey => ⟨f a, List.mem_cons_self, hkey⟩
    refine ((hitem hrun₁ hleft₂ hends₂).refused hmem List.suffix_rfl).and_run.imp (fun _ => id) ?_
    rintro b c₂' ⟨hb | hstuck, hrun'⟩
    · exact .inl ⟨hb, (hself'.behind hrun').suffix⟩
    · exact .inr (hstuck.imp hmem)
  obtain ⟨found, c₃, hcomma, hrun⟩ := exists_of_run_bind_eq_ok hrun
  cases found with
  | false =>
    cases hrun
    cases eq_of_run_accept hcomma
    refine (hreads [] hleft hends).bind fun b c₂' hb => ?_
    rcases hb with ⟨⟨halike, hab⟩, -⟩ | hstuck
    · exact ends_accept_none halike hcomma (.inl ⟨halike, .cons hab .nil⟩)
    · exact .after (run_accept_of_ne (by rw [hstuck.1]; nofun)) (.inr hstuck)
  | true =>
    obtain ⟨as, c₄, hrun₃, hrun⟩ := exists_of_run_bind_eq_ok hrun
    cases hrun
    obtain ⟨t, hrest, -⟩ := exists_of_run_accept hcomma nofun
    have hle := (hself.behind hrun₁).length_le
    rw [hrest, List.length_cons] at hle
    obtain ⟨hleft₃, hlists⟩ := hothers (by omega) hrun₃
    refine (hreads as (hrest ▸ hleft₃.trans (List.suffix_cons ..)) ?_).bind fun b c₂' hb => ?_
    · rw [kind_of_run_accept hcomma]
      rfl
    rcases hb with ⟨⟨halike, hab⟩, hsuffix⟩ | hstuck
    · refine ends_accept halike hcomma hleft₃ nofun fun t c₃' hrest' ht halike => ?_
      exact (hlists c₃' halike).cons ht (hrest' ▸ hsuffix) hab
    · exact .after (run_accept_of_ne (by rw [hstuck.1]; nofun)) (.inr hstuck)

end Fork

namespace Grammar

open Fork

variable {F : Fork} {n n' : Nat} {c c' c₁ : Cursor} {p q : Pattern}

/-- How a binding target begins. -/
theorem kind_of_run_target (h : (grammar n).target.run c = .ok (p, c₁)) :
    (∃ s, c.kind = .ident s) ∨ c.kind = .punct .lbracket ∨ c.kind = .punct .lbrace := by
  cases n with
  | zero => exact absurd h run_fail_ne
  | succ n =>
    rw [grammar, bindingTarget, run_bind_of_ok (run_position c), run_bind_of_ok (run_peek c)] at h
    split at h
    · next hkind => exact .inr (.inl hkind)
    · next hkind => exact .inr (.inr hkind)
    · obtain ⟨i, c₂, hident, h⟩ := exists_of_run_bind_eq_ok h
      rw [ident, run_bind_of_ok (run_peek c)] at hident
      split at hident
      · next s hkind => exact .inl ⟨s, hkind⟩
      · exact absurd hident run_fail_ne

theorem opensOperand_of_run_target (h : (grammar n).target.run c = .ok (p, c₁)) :
    c.kind.opensOperand = true := by
  rcases kind_of_run_target h with ⟨s, hkind⟩ | hkind | hkind <;> rw [hkind] <;> rfl

/-- No arrow stands behind a target that ends here. -/
theorem startsArrow_of_run_target (h : (grammar n).target.run c = .ok (p, c₁))
    (hends : c₁.kind.endsTarget = true) : startsArrow c.rest = false := by
  have hkind := kind_of_run_target h
  obtain ⟨_ | ⟨⟨kind, pos, newline⟩, ts⟩, i, j⟩ := c
  · rfl
  rcases hkind with ⟨s, hkind⟩ | hkind | hkind <;> cases hkind
  · cases n with
    | zero => exact absurd h run_fail_ne
    | succ n =>
      cases h
      cases ts with
      | nil => rfl
      | cons u us =>
        have harrow : u.kind ≠ .punct .arrow := TokenKind.ne_of_eq_true hends rfl
        simpa [startsArrow] using harrow
  · rfl
  · rfl

/-- The expression denotes the pattern and may be assigned to. -/
def IsTargetOf (p : Pattern) (e : Expr) : Prop := e.isTarget = true ∧ e.Denotes p

/-- What goes on behind a target. -/
theorem lockstep_withDefault {e : Expr} (he : IsTargetOf p e) :
    F.Lockstep (fun _ => True) 0 ((grammar n).withDefault p)
      (do if ← accept (.punct .eq) then (grammar n').assignTo e else return e) Expr.Denotes := by
  obtain ⟨htarget, p', hp', hp⟩ := he
  refine lockstep_accept rfl (Nat.zero_le 1) ?_ (.pure ⟨p', hp', hp⟩)
  simp only [if_true]
  have hlift (k : Pattern → Parse Expr) :
      ((liftM (Except.ok p' : Except SourceError Pattern) : Parse Pattern) >>= k) = k p' := rfl
  rw [assignTo_of_isTarget htarget, hp', hlift]
  refine lockstep_newNode_left fun i => (twin F n n').assignment.andThen fun v v' hv => ?_
  refine lockstep_newNode_right fun i' => .pure ⟨.withDefault i' p' v', rfl, ?_⟩
  simp_all [Same, Pattern.bare]

/-- What a default adds to a pattern. -/
theorem of_run_withDefault {g : Grammar} (h : (g.withDefault p).run c = .ok (q, c₁)) :
    c₁ = c ∧ q = p ∨ c.kind = .punct .eq ∧ ∃ i v, q = .withDefault i p v := by
  obtain ⟨found, c₂, haccept, h⟩ := exists_of_run_bind_eq_ok h
  cases found with
  | false =>
    cases h
    exact .inl ⟨eq_of_run_accept haccept, rfl⟩
  | true =>
    obtain ⟨i, c₃, -, h⟩ := exists_of_run_bind_eq_ok h
    obtain ⟨v, c₄, -, h⟩ := exists_of_run_bind_eq_ok h
    cases h
    exact .inr ⟨kind_of_run_accept haccept, i, v, rfl⟩

theorem of_run_propertyName {key : String} (hrun : propertyName.run c = .ok (key, c₁)) :
    ∃ t, c.rest = t :: c₁.rest ∧ t.kind.key? = some key := by
  obtain ⟨_ | ⟨⟨kind, pos, newline⟩, ts⟩, i, j⟩ := c
  · cases hrun
  · cases kind with
    | ident | str | number | keyword =>
      cases hrun
      exact ⟨_, rfl, rfl⟩
    | _ => cases hrun

theorem run_propertyKey {g : Grammar} {t : Token} {ts : List Token} {i : NodeId} {j : FuncId}
    {key : String} (ht : t.kind.key? = some key) :
    g.propertyKey.run ⟨t :: ts, i, j⟩ = .ok (.name key, ⟨ts, i, j⟩) := by
  obtain ⟨kind, pos, newline⟩ := t
  cases kind with
  | ident | str | number | keyword =>
    cases ht
    rfl
  | _ => cases ht

section Elements

variable (h : ∀ n', F.Reads TokenKind.endsTarget (grammar n).target (grammar n').primary IsTargetOf)
  (n' : Nat)

include h

theorem reads_conditional :
    F.Reads TokenKind.endsTarget (grammar n).target (grammar n').conditional IsTargetOf := by
  intro c c' c₁ p halike hrun hleft hends
  refine ends_conditional (fun _ => .inl) ?_ (fun e c₁' he => ?_)
    (fun n' => h n' halike hrun hleft hends) n'
  · rw [Cursor.kind, halike.kind_eq]
    exact opensOperand_of_run_target hrun
  · rw [Cursor.kind, he.1.kind_eq]
    exact hends

theorem reads_bindingElement : F.Reads TokenKind.endsElement (grammar n).bindingElement
    (grammar n').assignment Expr.Denotes := by
  intro c c' c₂ q halike hrun hleft hends
  obtain ⟨p, c₁, htarget, hdefault⟩ := exists_of_run_bind_eq_ok hrun
  have hleft₁ := hleft.trans (((twin F n n).withDefault (p := p) rfl).behind hdefault).suffix
  have hq : c₁.kind.endsTarget = true ∧ ∀ key, p.Defaults key → q.Defaults key := by
    rcases of_run_withDefault hdefault with ⟨rfl, rfl⟩ | ⟨hkind, i, v, rfl⟩
    · exact ⟨TokenKind.endsTarget_of_endsElement hends, fun _ => id⟩
    · exact ⟨by rw [hkind]; rfl, fun _ => .withDefault⟩
  have harrow := halike.startsArrow_eq.trans (startsArrow_of_run_target htarget hq.1)
  refine ends_assignment (fun _ => .inl) harrow (fun n' => (reads_conditional h n' halike htarget
    hleft₁ hq.1).refused hq.2 List.suffix_rfl) ?_ n'
  rintro e c₁' ⟨halike, he⟩ n'
  exact ((lockstep_withDefault he).follows halike trivial hdefault hleft).imp (fun _ => .inl)
    fun _ _ => id

/-- A target without a default. -/
theorem reads_target : F.Reads TokenKind.endsElement (grammar n).target (grammar n').assignment
    Expr.Denotes := by
  intro c c' c₁ p halike hrun hleft hends
  refine reads_bindingElement h n' halike ?_ hleft hends
  have hkind : c₁.kind ≠ .punct .eq := TokenKind.ne_of_eq_true hends rfl
  rw [bindingElement, run_bind_of_ok hrun, withDefault, run_bind_of_ok (run_accept_of_ne hkind)]
  rfl

theorem reads_restPattern {β : Type} (build : Node → Expr → β) {R : Pattern → β → Prop}
    (hR : ∀ i i' p e, e.Denotes p → R (.rest i p) (build i' e)) :
    F.Reads TokenKind.endsElement (grammar n).restPattern ((grammar n').spread build) R := by
  intro c c' c₁ q halike hrun hleft hends
  rw [restPattern, run_bind_of_ok (run_position c)] at hrun
  obtain ⟨_, c₂, hexpect, hrun⟩ := exists_of_run_bind_eq_ok hrun
  obtain ⟨i, c₃, hnode, hrun⟩ := exists_of_run_bind_eq_ok hrun
  obtain ⟨p, c₄, htarget, hrun⟩ := exists_of_run_bind_eq_ok hrun
  cases hrun
  obtain ⟨t, hrest, ht⟩ := exists_of_run_expect hexpect nofun
  have hrest₃ : c.rest = t :: c₃.rest := by
    cases hnode
    exact hrest
  have hself := (twin F n n).target.behind htarget
  refine ends_opened halike hrest₃ ht (hleft.trans hself.suffix) nofun
    fun i' t' c₂' hrest' _ halike => ?_
  refine .bind (.refused (reads_target h n' halike htarget hleft hends) (fun _ => .rest) ?_) ?_
  · exact hrest' ▸ List.suffix_cons ..
  · exact fun e c₄' he => ⟨he.1, hR _ _ _ _ he.2⟩

theorem reads_bindingItem : F.Reads TokenKind.endsElement (grammar n).bindingItem
    (grammar n').element Element.Denotes := by
  intro c c' c₁ p halike hrun hleft hends
  refine ends_isNext halike hrun (fun hrun => ?_) fun hrun => ?_
  · exact reads_restPattern h n' _ (fun _ _ _ _ => .spread) halike hrun hleft hends
  · rw [if_neg nofun, map_eq_pure_bind]
    exact (reads_bindingElement h n' halike hrun hleft hends).bind fun e c₁' he => ⟨he.1, .item he.2⟩

/-- The elements of an array. -/
theorem lists_holeyList {k k' : Nat} (hk : k ≤ k') {c c' c₁ : Cursor} {os : List (Option Pattern)}
    (halike : F.Alike c.rest c'.rest) (hc : Within k c.rest)
    (hrun : (holeyList (.punct .rbracket) (grammar n).bindingItem k).run c = .ok (os, c₁))
    (hleft : F.left <:+ c₁.rest) (hends : c₁.kind = .punct .rbracket) :
    F.Lists (fun o key => ∃ p ∈ o, p.Defaults key) (fun _ _ => False)
      (Option.Rel Element.Denotes) os c₁
      (holeyList (.punct .rbracket) (grammar n').element k') c' c'.rest := by
  have hlist {k : Nat} {c : Cursor} {os : List (Option Pattern)} (hc : Within k c.rest)
      (hrun : (holeyList (.punct .rbracket) (grammar n).bindingItem k).run c = .ok (os, c₁)) :
      F.left <:+ c.rest :=
    hleft.trans ((lockstep_holeyList le_rfl (twin F n n).bindingItem).passes hc hrun).1.suffix
  induction k generalizing k' c c' os with
  | zero => exact absurd hc (Nat.not_lt_zero _)
  | succ k ih =>
    obtain _ | k' := k'
    · cases hk
    replace hk := Nat.le_of_succ_le_succ hk
    refine ends_isNext halike hrun (fun hrun => ?_) fun hrun => ?_
    · cases hrun
      exact .inl ⟨halike, .nil⟩
    obtain ⟨found, c₂, haccept, hrun⟩ := exists_of_run_bind_eq_ok hrun
    cases found with
    | true =>
      obtain ⟨os, c₃, hothers, hrun⟩ := exists_of_run_bind_eq_ok hrun
      cases hrun
      have hc₂ : Within k c₂.rest := by
        obtain ⟨t, hrest, -⟩ := exists_of_run_accept haccept nofun
        rw [Within, hrest] at hc
        exact Nat.lt_of_succ_lt_succ hc
      refine ends_accept halike haccept (hlist hc₂ hothers) nofun fun t c₂' hrest ht halike => ?_
      exact (ih hk halike hc₂ hothers).cons ht (hrest ▸ List.suffix_rfl) .none
    | false =>
      cases eq_of_run_accept haccept
      refine ends_accept_none halike haccept ?_
      refine lists_items (f := some) (twin F n n).bindingItem (twin F n' n').element hrun hleft
        (by rw [hends]; rfl) (fun hitem hleft hends => ?_) fun hlt hothers => ?_
      · refine ((reads_bindingItem h n' halike hitem hleft hends).refused (fun key hkey => ?_)
          List.suffix_rfl).imp (fun _ => id) fun _ _ hel => .inl ⟨hel.1, .some hel.2⟩
        exact ⟨_, rfl, hkey⟩
      · have hc₂ := Nat.lt_of_lt_of_le hlt (Nat.le_of_lt_succ hc)
        exact ⟨hlist hc₂ hothers, fun _ halike => ih hk halike hc₂ hothers⟩

/-- A property of an object. -/
theorem ends_property {c c' c₁ : Cursor} {q : PatternProp} (halike : F.Alike c.rest c'.rest)
    (hrun : (grammar n).patternProp.run c = .ok (q, c₁)) (hleft : F.left <:+ c₁.rest)
    (hends : c₁.kind.endsElement = true) :
    (grammar n').property.Ends c' (Refused q.pattern.Defaults c'.rest)
      fun prop c₁' => F.Alike c₁.rest c₁'.rest ∧ Property.Denotes q prop ∨
        Stuck q.Defaults c'.rest c₁' := by
  refine ends_isNext halike hrun (fun hrun => ?_) fun hrun => ?_
  · obtain ⟨p, c₂, hrest, hrun⟩ := exists_of_run_bind_eq_ok hrun
    cases hrun
    have hreads := reads_restPattern h n' Property.spread
      (R := fun p => Property.Denotes (.rest p)) (fun _ _ _ _ => .spread) halike hrest hleft hends
    exact hreads.imp (fun _ => id) fun _ _ => .inl
  rw [if_neg nofun, run_bind_of_ok (run_position c)] at hrun
  refine .after (run_position c') ?_
  obtain ⟨key, c₂, hname, hrun⟩ := exists_of_run_bind_eq_ok hrun
  obtain ⟨t, hrest, ht⟩ := of_run_propertyName hname
  have hstep (hleft₂ : F.left <:+ c₂.rest) : ∃ t' c₂', c'.rest = t' :: c₂'.rest ∧
      t'.kind.key? = some key ∧ (grammar n').propertyKey.run c' = .ok (.name key, c₂') ∧
      F.Alike c₂.rest c₂'.rest := by
    obtain ⟨rest, i, j⟩ := c'
    rw [hrest] at halike
    obtain ⟨t', us', rfl, ht', halike⟩ := halike.tail hleft₂
    have hkey : t'.kind.key? = some key := by rw [← ht]; exact congrArg (·.1.key?) ht'
    exact ⟨t', ⟨us', i, j⟩, rfl, hkey, run_propertyKey hkey, halike⟩
  obtain ⟨found, c₃, haccept, hrun⟩ := exists_of_run_bind_eq_ok hrun
  cases found with
  | true =>
    obtain ⟨p, c₄, hvalue, hrun⟩ := exists_of_run_bind_eq_ok hrun
    cases hrun
    have hleft₃ := hleft.trans ((twin F n n).bindingElement.behind hvalue).suffix
    obtain ⟨u, hcolon, -⟩ := exists_of_run_accept haccept nofun
    obtain ⟨t', c₂', hrest', hkey, hrun', halike⟩ :=
      hstep (hcolon ▸ hleft₃.trans (List.suffix_cons ..))
    refine .after hrun' (ends_accept halike haccept hleft₃ nofun fun u c₃' hcolon' _ halike => ?_)
    refine .bind (.refused (reads_bindingElement h n' halike hvalue hleft hends) (fun _ => id) ?_) ?_
    · rw [hrest', hcolon']
      exact (List.suffix_cons ..).trans (List.suffix_cons ..)
    · exact fun e c₄' he => .inl ⟨he.1, .prop he.2⟩
  | false =>
    cases eq_of_run_accept haccept
    obtain ⟨i, c₄, hnode, hrun⟩ := exists_of_run_bind_eq_ok hrun
    obtain ⟨p, c₅, hdefault, hrun⟩ := exists_of_run_bind_eq_ok hrun
    cases hrun
    cases hnode
    have hself := ((twin F n n).withDefault (by rfl)).behind hdefault
    obtain ⟨t', c₂', hrest', hkey, hrun', halike⟩ := hstep (hleft.trans hself.suffix)
    have hkind₂ : c₂'.kind = c₂.kind := halike.kind_eq
    refine .after hrun' (ends_accept_none halike haccept (.after (run_isNext c₂' _) ?_))
    rcases of_run_withDefault hdefault with ⟨rfl, rfl⟩ | ⟨heq, i', v, rfl⟩
    · have hparen : c₂.kind ≠ .punct .lparen := TokenKind.ne_of_eq_true hends rfl
      rw [hkind₂, decide_eq_false hparen]
      exact .inl ⟨halike, .prop ⟨_, rfl, rfl⟩⟩
    · have hnext : c₂'.kind = .punct .eq := hkind₂.trans heq
      rw [hnext]
      refine .inr ⟨hnext, key, ⟨i', _, v, rfl⟩, fun u hu => ?_⟩
      obtain ⟨_ | ⟨w, ws⟩, i₂, j₂⟩ := c₂'
      · cases hnext
      · exact ⟨[], u, t', w, ws, by rw [hrest']; rfl, hu, hkey, hnext, rfl⟩

/-- The properties of an object. -/
theorem lists_commaList {k k' : Nat} (hk : k ≤ k') {c c' c₁ : Cursor} {qs : List PatternProp}
    (halike : F.Alike c.rest c'.rest) (hc : Within k c.rest)
    (hrun : (commaList (.punct .rbrace) (grammar n).patternProp k).run c = .ok (qs, c₁))
    (hleft : F.left <:+ c₁.rest) (hends : c₁.kind = .punct .rbrace) :
    F.Lists (fun q => q.pattern.Defaults) PatternProp.Defaults Property.Denotes qs c₁
      (commaList (.punct .rbrace) (grammar n').property k') c' c'.rest := by
  induction k generalizing k' c c' qs with
  | zero => exact absurd hc (Nat.not_lt_zero _)
  | succ k ih =>
    obtain _ | k' := k'
    · cases hk
    refine ends_isNext halike hrun (fun hrun => ?_) fun hrun => ?_
    · cases hrun
      exact .inl ⟨halike, .nil⟩
    refine lists_items (f := id) (twin F n n).patternProp (twin F n' n').property hrun hleft
      (by rw [hends]; rfl) (ends_property h n' halike) fun hlt hothers => ?_
    have hc₂ := Nat.lt_of_lt_of_le hlt (Nat.le_of_lt_succ hc)
    have hself := (lockstep_commaList le_rfl (twin F n n).patternProp).passes hc₂ hothers
    exact ⟨hleft.trans hself.1.suffix,
      fun _ halike => ih (Nat.le_of_succ_le_succ hk) halike hc₂ hothers⟩

omit h in
/-- A list in brackets. -/
theorem ends_bracketed {γ δ : Type} {D S : γ → String → Prop} {R : γ → δ → Prop}
    {list : Nat → Parse (List γ)} {list' : Nat → Parse (List δ)} {kind close : TokenKind}
    {build : Node → List γ → Pattern} {build' : Node → List δ → Expr} {pos : Position}
    (hself : ∀ k, ∃ Q : List γ → List γ → Prop, F.Lockstep (Within k) 0 (list k) (list k) Q)
    (hlists : ∀ {k k'}, k ≤ k' → ∀ {c c' c₁ as}, F.Alike c.rest c'.rest → Within k c.rest →
      (list k).run c = .ok (as, c₁) → F.left <:+ c₁.rest → c₁.kind = close →
        F.Lists D S R as c₁ (list' k') c' c'.rest)
    (hD : ∀ i as key, (∃ a ∈ as, D a key) → (build i as).Defaults key)
    (hS : ∀ i as key, (∃ a ∈ as, S a key) →
      (build i as).Defaults key ∧ kind.opensProperty = true ∧ close = .punct .rbrace)
    (hR : ∀ i i' as bs, List.Forall₂ R as bs → IsTargetOf (build i as) (build' i' bs))
    (hkind : kind ≠ .eof) (hclose : close ≠ .eof) {c c' c₁ : Cursor} {p : Pattern}
    (halike : F.Alike c.rest c'.rest) (hc : c.kind = kind) (hrun : StateT.run (do
      advance
      let i ← newNode pos
      let as ← list (← budget)
      expect close
      return build i as) c = .ok (p, c₁)) (hleft : F.left <:+ c₁.rest) :
    Ends (do
      let pos ← position
      expect kind
      let i ← newNode pos
      let bs ← list' (← budget)
      expect close
      return build' i bs) c' (Refused p.Defaults c'.rest)
      fun e c₁' => F.Alike c₁.rest c₁'.rest ∧ IsTargetOf p e := by
  obtain ⟨_ | ⟨t, ts⟩, i, j⟩ := c
  · exact absurd hc.symm hkind
  have ht : t.kind = kind := hc
  rw [run_bind_of_ok (run_advance (ht ▸ hkind))] at hrun
  obtain ⟨i', c₂, hnode, hrun⟩ := exists_of_run_bind_eq_ok hrun
  obtain rfl : c₂ = ⟨ts, i + 1, j⟩ := (congrArg Prod.snd (Except.ok.inj hnode)).symm
  rw [run_bind_of_ok (run_budget _)] at hrun
  obtain ⟨as, c₃, hlist, hrun⟩ := exists_of_run_bind_eq_ok hrun
  obtain ⟨_, c₄, hexpect, hrun⟩ := exists_of_run_bind_eq_ok hrun
  cases hrun
  obtain ⟨u, hu, hukind⟩ := exists_of_run_expect hexpect hclose
  have hleft₃ : F.left <:+ c₃.rest := hu ▸ hleft.trans (List.suffix_cons ..)
  have hclose₃ : c₃.kind = close := by
    rw [Cursor.kind, hu]
    exact hukind
  have hsuffix : c₃.rest <:+ ts := by
    obtain ⟨Q, hself⟩ := hself (ts.length + 1)
    exact (hself.passes (Nat.lt_succ_self _) hlist).1.suffix
  refine ends_opened halike rfl ht (hleft₃.trans hsuffix) hkind fun n' t' c₂' hrest ht' halike => ?_
  refine .after (run_budget _) (.bind (.refused (hlists (Nat.succ_le_succ halike.length_le)
    halike (Nat.lt_succ_self _) hlist hleft₃ hclose₃) (hD i' as) ?_) fun bs c₃' hbs => ?_)
  · exact hrest ▸ List.suffix_cons ..
  rcases hbs with ⟨halike, hbs⟩ | ⟨heq, key, hkey, hbehind⟩
  · exact ends_expect halike hexpect hleft hclose fun _ _ _ _ halike => ⟨halike, hR _ _ _ _ hbs⟩
  · obtain ⟨hdefaults, hopens, rfl⟩ := hS i' as key hkey
    refine .bind (P := fun _ _ => False) ?_ fun _ _ => False.elim
    refine .after (run_accept_of_ne (by rw [heq]; rintro ⟨⟩)) (.after (run_position c₃') ?_)
    exact .inr ⟨key, hdefaults, rfl, hrest ▸ hbehind t' (ht' ▸ hopens)⟩

end Elements

/-- A target is read as an operand that denotes it. -/
theorem reads_primary (F : Fork) (n : Nat) : ∀ n', F.Reads TokenKind.endsTarget (grammar n).target
    (grammar n').primary IsTargetOf := by
  induction n with
  | zero =>
    intro n' c c' c₁ p _ hrun
    exact absurd hrun run_fail_ne
  | succ n ih =>
    intro n' c c' c₁ p halike hrun hleft _
    have hkind := kind_of_run_target hrun
    refine .after (run_position c') (.after (run_peek c') ?_)
    rw [show c'.kind = c.kind from halike.kind_eq]
    rw [grammar, bindingTarget, run_bind_of_ok (run_position c), run_bind_of_ok (run_peek c)] at hrun
    rcases hkind with ⟨s, hkind⟩ | hkind | hkind
    · obtain ⟨_ | ⟨⟨_, pos, newline⟩, ts⟩, i, j⟩ := c
      · cases hkind
      cases hkind
      cases hrun
      obtain ⟨rest, i', j'⟩ := c'
      obtain ⟨⟨_, pos', _⟩, us', rfl, ht', htail⟩ := halike.tail hleft
      cases ht'
      exact ⟨htail, rfl, .ident ⟨⟨i', pos'⟩, s⟩, rfl, rfl⟩
    · rw [hkind] at hrun ⊢
      dsimp only at hrun
      change Ends (grammar n').arrayLiteral ..
      refine ends_bracketed (fun k => ⟨_, lockstep_holeyList le_rfl (twin F n n).bindingItem⟩)
        (lists_holeyList ih n') ?_ ?_ ?_ (by nofun) (by nofun) halike hkind hrun hleft
      · rintro i os key ⟨o, ho, p, hp, hkey⟩
        exact .element (hp ▸ ho) hkey
      · rintro i os key ⟨o, ho, ⟨⟩⟩
      · intro i i' os es hes
        obtain ⟨ps, hps, hbare⟩ := Element.exists_toPatterns hes
        exact ⟨rfl, .array i' ps, by rw [Expr.toPattern, hps]; rfl, by simp [Pattern.bare, hbare]⟩
    · rw [hkind] at hrun ⊢
      dsimp only at hrun
      change Ends (grammar n').objectLiteral ..
      refine ends_bracketed (fun k => ⟨_, lockstep_commaList le_rfl (twin F n n).patternProp⟩)
        (lists_commaList ih n') ?_ ?_ ?_ (by nofun) (by nofun) halike hkind hrun hleft
      · rintro i qs key ⟨q, hq, hkey⟩
        exact .property hq hkey
      · rintro i qs key ⟨q, hq, hkey⟩
        exact ⟨.here hq hkey, rfl, rfl⟩
      · intro i i' qs ps hps
        obtain ⟨qs', hqs', hbare⟩ := Property.exists_toPatterns hps i'.pos
        exact ⟨rfl, .object i' qs', by rw [Expr.toPattern, hqs']; rfl, by simp [Pattern.bare, hbare]⟩

/-! ### Names that are read as expressions -/

section Names

variable {α β : Type} {g : Grammar} {Q : Cursor → α → Cursor → Prop} {e : Expr}

/-- What the reader returns is as `Q` says. -/
def Gives (m : Parse α) (Q : Cursor → α → Cursor → Prop) : Prop :=
  ∀ c c₁ a, m.run c = .ok (a, c₁) → Q c a c₁

/-- No name is returned. -/
abbrev Nameless (m : Parse Expr) : Prop := Gives m fun _ e _ => e.asIdent? = none

/-- Nothing is read, or no name is returned. -/
abbrev Kept (e : Expr) (c : Cursor) (e' : Expr) (c₁ : Cursor) : Prop :=
  e' = e ∧ c₁ = c ∨ e'.asIdent? = none

/-- Nothing is read, or something is added that is no name. -/
abbrev Added (c : Cursor) (o : Option Expr) (c₁ : Cursor) : Prop :=
  o = none ∧ c₁ = c ∨ ∃ e, o = some e ∧ e.asIdent? = none

/-- One name is read, or what is read ends with a parenthesis. -/
def Lone (c c₁ : Cursor) : Prop :=
  ∃ t, t :: c₁.rest <:+ c.rest ∧
    (t.kind = .punct .rparen ∨ (∃ s, t.kind = .ident s) ∧ c.rest = t :: c₁.rest)

abbrev Plain (c : Cursor) (e : Expr) (c₁ : Cursor) : Prop := Lone c c₁ ∨ e.asIdent? = none

namespace Gives

theorem pure {a : α} (h : ∀ c, Q c a c) : Gives (pure a) Q := by
  intro c c₁ b hrun
  cases hrun
  exact h c

theorem look {p : Parse β} {k : β → Parse α} (hp : ∀ c, ∃ b, p.run c = .ok (b, c))
    (hk : ∀ b, Gives (k b) Q) : Gives (p >>= k) Q := by
  intro c c₁ a hrun
  obtain ⟨b, hb⟩ := hp c
  rw [run_bind_of_ok hb] at hrun
  exact hk b c c₁ a hrun

theorem after {m : Parse β} {k : β → Parse α} {P : α → Prop}
    (hk : ∀ b, Gives (k b) fun _ a _ => P a) : Gives (m >>= k) fun _ a _ => P a := by
  intro c c₂ a hrun
  obtain ⟨b, c₁, -, hrun⟩ := exists_of_run_bind_eq_ok hrun
  exact hk b c₁ c₂ a hrun

theorem nameless {m : Parse Expr} {Q : Cursor → Expr → Cursor → Prop} (h : Nameless m) :
    Gives m fun c e c₁ => Q c e c₁ ∨ e.asIdent? = none :=
  fun c c₁ e hrun => .inr (h c c₁ e hrun)

theorem then_ {O : Cursor → Cursor → Prop} {m : Parse Expr} {k : Expr → Parse Expr}
    (h : Gives m fun c e c₁ => O c c₁ ∨ e.asIdent? = none) (hk : ∀ e, Gives (k e) (Kept e)) :
    Gives (m >>= k) fun c e c₁ => O c c₁ ∨ e.asIdent? = none := by
  intro c c₂ e hrun
  obtain ⟨e', c₁, hrun₁, hrun⟩ := exists_of_run_bind_eq_ok hrun
  rcases hk e' c₁ c₂ e hrun with ⟨rfl, rfl⟩ | he
  · exact h c c₂ e hrun₁
  · exact .inr he

theorem optional {kind : TokenKind} {m : Parse Expr} (h : Nameless m) :
    Gives (do if ← accept kind then m else return e) (Kept e) := by
  intro c c₂ e' hrun
  obtain ⟨found, c₁, haccept, hrun⟩ := exists_of_run_bind_eq_ok hrun
  cases found with
  | true => exact .inr (h c₁ c₂ e' hrun)
  | false =>
    cases hrun
    exact .inl ⟨rfl, eq_of_run_accept haccept⟩

theorem extend {step : Expr → Parse (Option Expr)} (hstep : ∀ e, Gives (step e) Added) (n : Nat)
    (e : Expr) : Gives (extend step n e) (Kept e) := by
  induction n generalizing e with
  | zero => exact .pure fun _ => .inl ⟨rfl, rfl⟩
  | succ n ih =>
    intro c c₁ e' hrun
    obtain ⟨o, c₂, ho, hothers⟩ := exists_of_run_bind_eq_ok hrun
    rcases hstep e c c₂ o ho with ⟨rfl, rfl⟩ | ⟨e₂, rfl, he₂⟩
    · cases hothers
      exact .inl ⟨rfl, rfl⟩
    · rcases ih e₂ c₂ c₁ e' hothers with ⟨rfl, -⟩ | he'
      · exact .inr he₂
      · exact .inr he'

end Gives

theorem nameless_member (e : Expr) : Nameless (g.member e) := by
  refine .after fun b => ?_
  split
  · exact .after fun _ => .after fun _ => .pure fun _ => rfl
  · exact .after fun _ => .after fun _ => .after fun _ => .after fun _ => .after fun _ =>
      .pure fun _ => rfl

theorem gives_chainNext (e : Expr) : Gives (g.chainNext e) Added := by
  have hadded {m : Parse (Option Expr)}
      (h : Gives m fun _ o _ => ∃ e, o = some e ∧ e.asIdent? = none) : Gives m Added :=
    fun c c₁ o hrun => .inr (h c c₁ o hrun)
  refine .look (fun c => ⟨_, run_isNext c _⟩) fun b => ?_
  split
  · exact hadded (.after fun _ => .after fun _ => .pure fun _ => ⟨_, rfl, rfl⟩)
  refine .look (fun c => ?_) fun b => ?_
  · rw [isMemberNext, run_bind_of_ok (run_peek c)]
    split <;> exact ⟨_, rfl⟩
  split
  · rw [map_eq_pure_bind]
    intro c c₂ o hrun
    obtain ⟨e', c₁, he', hrun⟩ := exists_of_run_bind_eq_ok hrun
    cases hrun
    exact .inr ⟨e', rfl, nameless_member e c c₂ e' he'⟩
  refine .look (fun c => ?_) fun b => ?_
  · rw [isTemplateNext, run_bind_of_ok (run_peek c)]
    split <;> exact ⟨_, rfl⟩
  split
  · exact hadded (.after fun _ => .after fun _ => .pure fun _ => ⟨_, rfl, rfl⟩)
  · exact .pure fun _ => .inl ⟨rfl, rfl⟩

theorem gives_joinNext (least : Nat) (e : Expr) : Gives (g.joinNext least e) Added := by
  rw [joinNext]
  refine .look (fun c => ⟨_, run_peek c⟩) fun kind => ?_
  split
  · exact .pure fun _ => .inl ⟨rfl, rfl⟩
  · next d _ =>
    split
    · exact .pure fun _ => .inl ⟨rfl, rfl⟩
    · intro c c₄ o hrun
      obtain ⟨_, c₁, -, hrun⟩ := exists_of_run_bind_eq_ok hrun
      obtain ⟨r, c₂, -, hrun⟩ := exists_of_run_bind_eq_ok hrun
      obtain ⟨i, c₃, -, hrun⟩ := exists_of_run_bind_eq_ok hrun
      cases hrun
      exact .inr ⟨_, rfl, by cases d <;> rfl⟩

theorem eq_of_run_newKeywords {n : Nat} {c c₁ : Cursor}
    (h : (collect newKeyword n).run c = .ok ([], c₁)) : c₁ = c := by
  obtain _ | n := n
  · cases h
    rfl
  obtain ⟨_ | pos, c₂, ho, h⟩ := exists_of_run_bind_eq_ok h
  · cases h
    rw [newKeyword, run_bind_of_ok (run_position c)] at ho
    obtain ⟨_ | _, c₃, haccept, ho⟩ := exists_of_run_bind_eq_ok ho <;> cases ho
    exact eq_of_run_accept haccept
  · obtain ⟨others, c₃, -, h⟩ := exists_of_run_bind_eq_ok h
    cases h

theorem gives_callChain (h : Gives g.primary Plain) : Gives g.callChain Plain := by
  have hextend (e : Expr) : Gives (do extend g.chainNext (← budget) e) (Kept e) :=
    .look (fun c => ⟨_, run_budget c⟩) fun n => .extend gives_chainNext n e
  refine .look (fun c => ⟨_, run_budget c⟩) fun n c c₂ e hrun => ?_
  obtain ⟨news, c₁, hnews, hrun⟩ := exists_of_run_bind_eq_ok hrun
  cases news with
  | nil =>
    cases eq_of_run_newKeywords hnews
    exact Gives.then_ h hextend c c₂ e hrun
  | cons pos inner =>
    have hnew : Nameless (g.construction (pos :: inner)) := by
      refine .after fun _ => .after fun _ => .after fun b => ?_
      split <;> exact .after fun _ => .after fun _ => .pure fun _ => rfl
    have hfirst := Gives.then_ (O := fun _ _ => False) (.nameless hnew) hextend
    exact .inr ((hfirst c₁ c₂ e hrun).resolve_left id)

theorem gives_unary (h : Gives g.primary Plain) : Gives g.unary Plain := by
  refine .look (fun c => ⟨_, run_position c⟩) fun pos => ?_
  refine .look (fun c => ⟨_, run_peek c⟩) fun kind => ?_
  split
  · exact .nameless (.after fun _ => .after fun _ => .after fun _ => .pure fun _ => rfl)
  split
  · exact .nameless (.after fun _ => .after fun _ => .after fun _ => .pure fun _ => rfl)
  refine (gives_callChain h).then_ fun e => .look (fun c => ⟨_, run_onNewLine c⟩) fun b => ?_
  split
  · exact .pure fun _ => .inl ⟨rfl, rfl⟩
  refine .look (fun c => ⟨_, run_peek c⟩) fun kind => ?_
  split
  · exact .pure fun _ => .inl ⟨rfl, rfl⟩
  · exact .nameless (.after fun _ => .after fun _ => .pure fun _ => rfl)

theorem nameless_assignTo (e : Expr) : Nameless (g.assignTo e) := by
  unfold assignTo
  split
  · exact .after fun _ => .after fun _ => .pure fun _ => rfl
  · exact .after fun _ => .after fun _ => .after fun _ => .pure fun _ => rfl
  · exact .after fun _ => .after fun _ => .after fun _ => .pure fun _ => rfl
  · exact .after fun _ => .after fun _ => .after fun _ => .pure fun _ => rfl
  · exact nofun

theorem nameless_arrowFunction : Nameless g.arrowFunction := by
  refine .after fun _ => .after fun _ => .after fun _ => .after fun b => ?_
  split
  · refine .after fun _ => .after fun _ => .after fun b => ?_
    split <;> exact .after fun _ => .pure fun _ => rfl
  · refine .after fun _ => .after fun _ => .after fun _ => .after fun b => ?_
    split <;> exact .after fun _ => .pure fun _ => rfl

theorem gives_assignmentOrArrow (h : Gives g.operand Plain) : Gives g.assignmentOrArrow Plain := by
  refine .look (fun c => ⟨_, run_isArrowNext c⟩) fun b => ?_
  split
  · exact .nameless nameless_arrowFunction
  have hbinary : Gives (g.binary 1) Plain := by
    rw [binary]
    exact h.then_ fun e => .look (fun c => ⟨_, run_budget c⟩) fun n => .extend (gives_joinNext 1) n e
  refine .then_ (hbinary.then_ fun _ => .optional ?_) fun e => .optional (nameless_assignTo e)
  exact .after fun _ => .after fun _ => .after fun _ => .after fun _ => .pure fun _ => rfl

theorem gives_primary (F : Fork) (n : Nat) : Gives (grammar n).primary Plain := by
  intro c c₁ e hrun
  rw [primary, run_bind_of_ok (run_position c), run_bind_of_ok (run_peek c)] at hrun
  have hnot {m : Parse Expr} (hrun : m.run c = .ok (e, c₁)) (hm : Nameless m) : Plain c e c₁ :=
    .inr (hm c c₁ e hrun)
  split at hrun
  · next build hbuild =>
    refine hnot hrun (.after fun _ => .after fun _ => .pure fun _ => ?_)
    unfold literal? at hbuild
    split at hbuild <;> cases hbuild <;> rfl
  split at hrun
  · exact hnot hrun (.after fun _ => .after fun _ => .pure fun _ => rfl)
  · exact hnot hrun (.after fun _ => .after fun _ => .pure fun _ => rfl)
  · next s hkind =>
    obtain ⟨_ | ⟨⟨kind, pos, newline⟩, ts⟩, i, j⟩ := c
    · cases hkind
    cases hkind
    cases hrun
    exact .inl ⟨_, List.suffix_rfl, .inr ⟨⟨s, rfl⟩, rfl⟩⟩
  · exact hnot hrun (.after fun _ => .after fun _ => .pure fun _ => rfl)
  · obtain ⟨_, c₂, hopen, hrun⟩ := exists_of_run_bind_eq_ok hrun
    obtain ⟨e, c₃, hinner, hrun⟩ := exists_of_run_bind_eq_ok hrun
    obtain ⟨_, c₄, hclose, hrun⟩ := exists_of_run_bind_eq_ok hrun
    cases hrun
    obtain ⟨t, hrest, -⟩ := exists_of_run_expect hopen nofun
    obtain ⟨u, hrest', hu⟩ := exists_of_run_expect hclose nofun
    refine .inl ⟨u, ?_, .inl hu⟩
    rw [← hrest', hrest]
    exact ((twin F n n).expression.behind hinner).suffix.trans (List.suffix_cons ..)
  · exact hnot hrun (.after fun _ => .after fun _ => .after fun _ => .after fun _ =>
      .after fun _ => .after fun _ => .pure fun _ => rfl)
  · exact hnot hrun (.after fun _ => .after fun _ => .after fun _ => .after fun _ =>
      .after fun _ => .after fun _ => .pure fun _ => rfl)
  · exact absurd hrun run_fail_ne

theorem gives_assignment (F : Fork) (n : Nat) : Gives (grammar n).assignment Plain := by
  obtain _ | _ | n := n
  · exact fun _ _ _ hrun => absurd hrun run_fail_ne
  · exact gives_assignmentOrArrow fun _ _ _ hrun => absurd hrun run_fail_ne
  · exact gives_assignmentOrArrow (gives_unary (gives_primary F n))

end Names

/-! ### Declarations and assignments -/

theorem of_run_declarators {g : Grammar} {t t' : Token} {ts : List Token} {i : NodeId} {j : FuncId}
    {c₁ : Cursor} {pos : Position} {p : Pattern} {v : Expr} (ht : t.kind ≠ .eof)
    (h : g.declarators.run ⟨t :: t' :: ts, i, j⟩ = .ok ([⟨pos, p, some v⟩], c₁)) :
    ∃ c₂ u c₃, g.target.run ⟨t' :: ts, i, j⟩ = .ok (p, c₂) ∧ c₂.rest = u :: c₃.rest ∧
      g.assignment.run c₃ = .ok (v, c₁) := by
  rw [declarators, run_bind_of_ok (run_advance ht), run_bind_of_ok (run_budget _)] at h
  obtain ⟨d, c₂, hd, h⟩ := exists_of_run_bind_eq_ok h
  obtain ⟨_ | _, c₃, hcomma, h⟩ := exists_of_run_bind_eq_ok h
  · cases h
    cases eq_of_run_accept hcomma
    rw [declarator, run_bind_of_ok (run_position _)] at hd
    obtain ⟨p', c₂, htarget, hd⟩ := exists_of_run_bind_eq_ok hd
    obtain ⟨_ | _, c₃, haccept, hd⟩ := exists_of_run_bind_eq_ok hd
    · cases hd
    obtain ⟨o, c₄, hvalue, hd⟩ := exists_of_run_bind_eq_ok hd
    rw [map_eq_pure_bind] at hvalue
    obtain ⟨v', c₅, hvalue, hpure⟩ := exists_of_run_bind_eq_ok hvalue
    cases hd
    cases hpure
    obtain ⟨u, hrest, -⟩ := exists_of_run_accept haccept nofun
    exact ⟨c₂, u, c₃, htarget, hrest, hvalue⟩
  · -- Behind a comma there is another variable.
    obtain ⟨ds, c₄, hds, h⟩ := exists_of_run_bind_eq_ok h
    cases h
    obtain ⟨d', c₅, -, hds⟩ := exists_of_run_bind_eq_ok hds
    obtain ⟨_ | _, c₆, -, hds⟩ := exists_of_run_bind_eq_ok hds
    · cases hds
    · obtain ⟨ds, c₇, -, hds⟩ := exists_of_run_bind_eq_ok hds
      cases hds

theorem length_le_of_run_endStatement {c c₁ : Cursor} (h : endStatement.run c = .ok ((), c₁)) :
    c.rest.length ≤ c₁.rest.length + 1 := by
  have hlook : Gives endsHere fun c _ c₁ => c₁ = c := by
    refine .look (fun c => ⟨_, run_peek c⟩) fun kind => ?_
    split
    · exact .pure fun _ => rfl
    · exact .pure fun _ => rfl
    · intro c c₁ b hrun
      cases (run_onNewLine c).symm.trans hrun
      rfl
  obtain ⟨_ | _, c₂, haccept, h⟩ := exists_of_run_bind_eq_ok h
  · cases eq_of_run_accept haccept
    obtain ⟨_ | _, c₃, hends, h⟩ := exists_of_run_bind_eq_ok h
    · exact absurd h run_fail_ne
    · cases h
      rw [hlook c c₁ true hends]
      exact Nat.le_succ _
  · cases h
    obtain ⟨t, hrest, -⟩ := exists_of_run_accept haccept nofun
    rw [hrest, List.length_cons]

/-- The one statement of a program is read up to the end. -/
theorem of_run_statements {g : Grammar} {t : Token} {ts : List Token} {i : NodeId} {j : FuncId}
    {c₁ : Cursor} {s : Stmt} (ht : t.kind ≠ .eof)
    (h : g.statements.run ⟨t :: ts, i, j⟩ = .ok ([s], c₁)) :
    ∃ c₂, g.statement.run ⟨t :: ts, i, j⟩ = .ok (s, c₂) ∧ c₂.kind = .eof := by
  have hsome {c c₁ : Cursor} {o : Option Stmt} (hc : c.kind ≠ .eof) (h : StateT.run (do
      if ← isAtEnd then return none else some <$> g.statement) c = .ok (o, c₁)) :
      ∃ s, o = some s ∧ g.statement.run c = .ok (s, c₁) := by
    rw [isAtEnd, run_bind_of_ok (run_isNext c _), decide_eq_false hc, if_neg nofun,
      map_eq_pure_bind] at h
    obtain ⟨s, c₂, hs, h⟩ := exists_of_run_bind_eq_ok h
    cases h
    exact ⟨s, rfl, hs⟩
  rw [statements, run_bind_of_ok (run_budget _)] at h
  obtain ⟨o, c₂, hitem, h⟩ := exists_of_run_bind_eq_ok h
  obtain ⟨s', rfl, hs⟩ := hsome (c := ⟨t :: ts, i, j⟩) ht hitem
  obtain ⟨others, c₃, hothers, h⟩ := exists_of_run_bind_eq_ok h
  cases h
  refine ⟨c₂, hs, ?_⟩
  by_contra hend
  obtain ⟨o, c₄, hitem, hothers⟩ := exists_of_run_bind_eq_ok hothers
  obtain ⟨s', rfl, -⟩ := hsome hend hitem
  obtain ⟨others, c₅, -, hothers⟩ := exists_of_run_bind_eq_ok hothers
  cases hothers

/-- What is read by `primary` and followed by no `=`. -/
theorem ends_assignment_of_primary {c : Cursor} {E : SourceError → Prop} {P : Expr → Cursor → Prop}
    (hE : ∀ e : SourceError, e.TooDeep → E e) (hopens : c.kind.opensOperand = true)
    (harrow : startsArrow c.rest = false) (hP : ∀ e c₁, P e c₁ → c₁.kind.endsTarget = true)
    (heq : ∀ e c₁, P e c₁ → c₁.kind ≠ .punct .eq) (h : ∀ n, (grammar n).primary.Ends c E P) (n : Nat) :
    (grammar n).assignment.Ends c E P :=
  ends_assignment hE harrow (ends_conditional hE hopens hP h)
    (fun e c₁ he _ => .after (run_accept_of_ne (heq e c₁ he)) he) n

theorem ends_expression {g : Grammar} {c : Cursor} {E : SourceError → Prop}
    {P : Expr → Cursor → Prop} (h : g.assignment.Ends c E P)
    (hP : ∀ e c₁, P e c₁ → c₁.kind ≠ .punct .comma) : g.expression.Ends c E P :=
  h.bind fun e c₁ he => .after (run_accept_of_ne (hP e c₁ he)) he

end Grammar

theorem Fork.Alike.eq_right {F : Fork} {ts : List Token} (h : F.Alike F.left ts) : ts = F.right := by
  obtain ⟨us, us', hus, hleft, rfl⟩ := h
  cases List.self_eq_append_left.1 hleft
  cases List.map_eq_nil_iff.1 hus
  rfl

/-- Where a token stands, and whether it begins a line. -/
structure Spot where
  pos : Position
  newline : Bool

def Spot.token (s : Spot) (kind : TokenKind) : Token := ⟨kind, s.pos, s.newline⟩

/-- Where the tokens around a pattern stand in `var P = x;` and in `(P = x);`. -/
structure Framing where
  name : String
  (keyword eq x semi stop opening eq' x' close semi' stop' : Spot)
  newline : eq'.newline = eq.newline

namespace Framing

variable (W : Framing)

/-- The tokens behind the pattern where it is declared. -/
def declared : List Token :=
  [W.eq.token (.punct .eq), W.x.token (.ident W.name), W.semi.token (.punct .semi), W.stop.token .eof]

/-- The tokens behind the pattern where it is assigned to. -/
def assigned : List Token :=
  [W.eq'.token (.punct .eq), W.x'.token (.ident W.name), W.close.token (.punct .rparen),
    W.semi'.token (.punct .semi), W.stop'.token .eof]

def declaring (P : List Token) : List Token := W.keyword.token (.keyword .var) :: (P ++ W.declared)

def assigning (P : List Token) : List Token := W.opening.token (.punct .lparen) :: (P ++ W.assigned)

def fork : Fork where
  left := W.declared
  right := W.assigned
  head? := by simp [declared, assigned, Token.spelling, Spot.token, W.newline]
  length_le := by simp [declared, assigned]
  startsArrow_left := rfl
  startsArrow_right := rfl
  isArrowHead_left _ := rfl
  isArrowHead_right _ := by simp [assigned, Spot.token, isArrowHead]

/-- What is read of `P = x` in parentheses. -/
def Assigns (p : Pattern) (e : Expr) : Prop :=
  ∃ n p' i, e = .assign n p' (.ident ⟨i, W.name⟩) ∧ p'.bare = p.bare

open Grammar Fork

variable {W} {n : Nat} {c c' c₁ : Cursor} {p : Pattern} {P P' : List Token}

/-- The target of a declaration ends before the last `=`, if its value is a name. -/
theorem rest_of_run_target (hP : ∀ t ∈ P, t.kind ≠ .eof) {c₂ c₃ c₄ : Cursor} {u : Token} {i : Ident}
    (hc : c.rest = P ++ W.declared) (htarget : (grammar n).target.run c = .ok (p, c₁))
    (hu : c₁.rest = u :: c₂.rest) (hvalue : (grammar n).assignment.run c₂ = .ok (.ident i, c₃))
    (hend : endStatement.run c₃ = .ok ((), c₄)) (hstop : c₄.kind = .eof) : c₁.rest = W.declared := by
  have hs₁ : c₁.rest <:+ P ++ W.declared := hc ▸ ((twin W.fork n n).target.behind htarget).suffix
  obtain ⟨t, ht, hkind⟩ := (gives_assignment W.fork n c₂ c₃ _ hvalue).resolve_right nofun
  have hs₃ : t :: c₃.rest <:+ P ++ W.declared := (ht.trans (hu ▸ List.suffix_cons ..)).trans hs₁
  have hs₄ : c₄.rest <:+ P ++ W.declared :=
    (lockstep_endStatement.behind (F := W.fork) hend).suffix.trans ((List.suffix_cons ..).trans hs₃)
  have hlength : c₄.rest.length ≤ 1 := by
    rw [show P ++ W.declared = P ++ W.declared.dropLast ++ [W.stop.token .eof] by simp [declared],
      List.suffix_concat_iff] at hs₄
    obtain h | ⟨_ | ⟨w, us⟩, h, hus⟩ := hs₄
    · simp [h]
    · simp [h]
    · have hw : w.kind = .eof := by rwa [Cursor.kind, h] at hstop
      rcases List.mem_append.1 (hus.mem List.mem_cons_self) with hmem | hmem
      · exact absurd hw (hP w hmem)
      · simp only [declared, List.dropLast_cons_cons, List.dropLast_singleton, List.mem_cons,
          List.not_mem_nil, or_false] at hmem
        rcases hmem with rfl | rfl | rfl <;> cases hw
  have hle := length_le_of_run_endStatement hend
  -- So little is left behind the value that only the name can stand before it.
  obtain ⟨ws, hws⟩ : t :: c₃.rest <:+ W.declared := by
    refine List.suffix_of_suffix_length_le hs₃ (List.suffix_append P W.declared) ?_
    exact Nat.succ_le_succ (hle.trans (Nat.succ_le_succ (hlength.trans (Nat.le_succ 1))))
  obtain ⟨rest, i₃, j₃⟩ := c₃
  obtain _ | ⟨_, _ | ⟨_, _ | ⟨_, _ | ⟨_, ws⟩⟩⟩⟩ := ws
  · cases hws
    exact absurd (hle.trans (Nat.succ_le_succ hlength)) (show ¬ 3 ≤ 2 by decide)
  · rcases hkind with hkind | ⟨-, hrest⟩
    · cases hws
      cases hkind
    · rw [hu, hrest] at hs₁ ⊢
      have hlength : (u :: t :: rest).length = W.declared.length := by rw [← hws]; rfl
      have hsuffix := List.suffix_of_suffix_length_le hs₁ (List.suffix_append ..) hlength.le
      exact hsuffix.eq_of_length hlength
  · cases hws
    rcases hkind with hkind | ⟨⟨s, hkind⟩, -⟩ <;> cases hkind
  · cases hws
    rcases hkind with hkind | ⟨⟨s, hkind⟩, -⟩ <;> cases hkind
  · cases ws <;> cases hws

/-- The assignment inside the parentheses. -/
theorem ends_inner (halike : W.fork.Alike c.rest c'.rest)
    (htarget : (grammar n).target.run c = .ok (p, c₁)) (hc₁ : c₁.rest = W.declared) (n' : Nat) :
    (grammar n').assignment.Ends c' (Refused p.Defaults c'.rest)
      fun e c₁' => W.Assigns p e ∧ c₁'.rest = W.assigned.drop 2 := by
  have hends : c₁.kind.endsTarget = true := by
    rw [Cursor.kind, hc₁]
    rfl
  refine ends_assignment (fun _ => .inl)
    (halike.startsArrow_eq.trans (startsArrow_of_run_target htarget hends)) (fun n' =>
      reads_conditional (reads_primary _ n) n' halike htarget (hc₁ ▸ List.suffix_rfl) hends) ?_ n'
  rintro e ⟨rest, i, j⟩ ⟨halike, he, p', hp', hp⟩ n'
  rw [hc₁] at halike
  obtain rfl : rest = W.assigned := halike.eq_right
  refine .after (run_accept rfl (by rintro ⟨⟩)) ?_
  change Ends ((grammar n').assignTo e) _ _ _
  rw [assignTo_of_isTarget he, hp']
  refine .after (a := p') rfl (.bind (P := fun e c₁' =>
    (∃ i, e = .ident ⟨i, W.name⟩) ∧ c₁'.rest = W.assigned.drop 2) ?_ ?_)
  · refine ends_assignment_of_primary (fun _ => .inl) rfl rfl (fun e c₁' he => ?_) (fun e c₁' he => ?_)
      (fun n => .of_ok (a := .ident ⟨⟨i, W.x'.pos⟩, W.name⟩) rfl ⟨⟨_, rfl⟩, rfl⟩) n'
    · rw [Cursor.kind, he.2]
      rfl
    · rw [Cursor.kind, he.2]
      rintro ⟨⟩
  · rintro _ c₂' ⟨⟨i, rfl⟩, hrest⟩
    exact ⟨⟨_, p', i, rfl, hp⟩, hrest⟩

/-- The assignment in its parentheses. -/
theorem ends_parenthesized (hspelled : P'.map Token.spelling = P.map Token.spelling)
    (hc : c.rest = P ++ W.declared) (htarget : (grammar n).target.run c = .ok (p, c₁))
    (hc₁ : c₁.rest = W.declared) (n' : Nat) :
    (grammar n').expression.Ends (.ofTokens (W.assigning P')) (Refused p.Defaults (W.assigning P'))
      fun e c₁' => W.Assigns p e ∧ c₁'.rest = W.assigned.drop 3 := by
  have halike : W.fork.Alike c.rest (P' ++ W.assigned) := ⟨P, P', hspelled, hc, rfl⟩
  have hkind {c' : Cursor} {k : Nat} (h : c'.rest = W.assigned.drop k) :
      c'.kind = Cursor.kind ⟨W.assigned.drop k, 0, 0⟩ := by
    rw [Cursor.kind, h]
    rfl
  have harrow : startsArrow (W.assigning P') = false := by
    obtain ⟨us, hus, -, hskipped⟩ := (twin W.fork n n).target.behind htarget
    refine (halike.isArrowHead_eq 1).trans ?_
    rw [hus, hskipped, hc₁]
    rfl
  refine ends_expression (ends_assignment_of_primary (fun _ => .inl) rfl harrow (fun e c₁' he => ?_)
    (fun e c₁' he => ?_) (fun n' => ?_) n') fun e c₁' he => ?_
  · rw [hkind he.2]
    rfl
  · rw [hkind he.2]
    rintro ⟨⟩
  · refine .after (run_position _) (.after (run_peek _) ?_)
    change Ends (grammar n').parenthesized ..
    have hinner := ends_inner (show W.fork.Alike c.rest (Cursor.rest ⟨_, 0, 0⟩) from halike)
      htarget hc₁ n'
    refine .after (run_expect rfl (by rintro ⟨⟩)) (.bind (ends_expression
      (hinner.refused (fun _ => id) (List.suffix_cons ..)) fun e c₁' he => ?_) ?_)
    · rw [hkind he.2]
      rintro ⟨⟩
    · rintro e ⟨rest, i, j⟩ ⟨he, rfl⟩
      exact .after (run_expect rfl (by rintro ⟨⟩)) ⟨he, rfl⟩
  · rw [hkind he.2]
    rintro ⟨⟩

/-- The whole program that assigns to the pattern. -/
theorem ends_statements (hspelled : P'.map Token.spelling = P.map Token.spelling)
    (hc : c.rest = P ++ W.declared) (htarget : (grammar n).target.run c = .ok (p, c₁))
    (hc₁ : c₁.rest = W.declared) (n' : Nat) :
    (grammar (n' + 1)).statements.Ends (.ofTokens (W.assigning P'))
      (Refused p.Defaults (W.assigning P')) fun body _ => ∃ e, body = [.expr e] ∧ W.Assigns p e := by
  have hitem : Ends (do
      if ← isAtEnd then return none else some <$> (grammar (n' + 1)).statement)
      (.ofTokens (W.assigning P')) (Refused p.Defaults (W.assigning P'))
      fun o c₁' => ∃ e, o = some (.expr e) ∧ W.Assigns p e ∧ c₁'.rest = W.assigned.drop 4 := by
    rw [map_eq_pure_bind]
    refine .after (run_isNext _ _) (.bind (P := fun s c₁' => ∃ e, s = .expr e ∧ W.Assigns p e ∧
      c₁'.rest = W.assigned.drop 4) (.after (run_position _) (.after (run_peek _) ?_)) ?_)
    · refine .bind (ends_parenthesized hspelled hc htarget hc₁ n') ?_
      rintro e ⟨rest, i, j⟩ ⟨he, rfl⟩
      exact .after (a := ()) rfl ⟨e, rfl, he, rfl⟩
    · rintro _ c₁' ⟨e, rfl, he⟩
      exact ⟨e, rfl, he⟩
  refine .after (run_budget _) (.bind hitem ?_)
  rintro _ ⟨rest, i, j⟩ ⟨e, rfl, he, rfl⟩
  exact .after (a := []) rfl ⟨e, rfl, he⟩

end Framing

/-- A pattern that is declared with a name for its value is read alike when the name is assigned to
it. Only for want of depth, or at a default behind a property's name, is that refused. -/
theorem declared_and_assigned_agree (W : Framing) {P P' : List Token}
    (hspelled : P'.map Token.spelling = P.map Token.spelling) (hend : ∀ t ∈ P, t.kind ≠ .eof)
    {pos pos' : Position} {p : Pattern} {i : Ident} {nodes funcs : Nat}
    (hdeclared : Program.ofTokens (W.declaring P) =
      .ok ⟨[.declare pos .var [⟨pos', p, some (.ident i)⟩]], nodes, funcs⟩) :
    (∃ n p' i' nodes' funcs', Program.ofTokens (W.assigning P') =
        .ok ⟨[.expr (.assign n p' (.ident i'))], nodes', funcs'⟩ ∧
      p'.bare = p.bare ∧ i'.name = W.name) ∨
    ∃ e, Program.ofTokens (W.assigning P') = .error e ∧
      (e.cause = .tooDeep maxNesting ∨
        ∃ key, p.Defaults key ∧ e.cause = .expected (.punct .rbrace) ∧
          DefaultBehind key (W.assigning P') e.pos) := by
  obtain ⟨⟨body, c₁⟩, hrun, hpure⟩ := exists_of_bind_eq_ok hdeclared
  cases hpure
  obtain ⟨c₂, hstatement, hstop⟩ := Grammar.of_run_statements (by nofun) hrun
  rw [show maxNesting = 99 + 1 from rfl, grammar, Grammar.anyStatement,
    run_bind_of_ok (run_position _), run_bind_of_ok (run_peek _)] at hstatement
  obtain ⟨ds, c₃, hds, hstatement⟩ := exists_of_run_bind_eq_ok hstatement
  obtain ⟨_, c₄, hsemi, hstatement⟩ := exists_of_run_bind_eq_ok hstatement
  cases hstatement
  obtain ⟨t, ts, hts⟩ : ∃ t ts, P ++ W.declared = t :: ts := by cases P <;> exact ⟨_, _, rfl⟩
  rw [hts] at hds
  obtain ⟨c₅, u, c₆, htarget, hu, hvalue⟩ := Grammar.of_run_declarators (by nofun) hds
  have hc₅ := Framing.rest_of_run_target hend hts.symm htarget hu hvalue hsemi hstop
  have hends := Framing.ends_statements hspelled hts.symm htarget hc₅ 99
  rw [Ends] at hends
  rw [Program.ofTokens, show maxNesting = 99 + 1 from rfl]
  split at hends
  · next body c₁' hrun' =>
    obtain ⟨e, rfl, n, p', i', rfl, hp⟩ := hends
    exact .inl ⟨n, p', ⟨i', W.name⟩, _, _, by rw [hrun']; rfl, hp, rfl⟩
  · next e hrun' => exact .inr ⟨e, by rw [hrun']; rfl, hends⟩

/-- One pattern is declared, with a name for its value. -/
def namesPattern : Except SourceError Program → Bool
  | .ok ⟨[.declare _ .var [⟨_, _, some (.ident _)⟩]], _, _⟩ => true
  | _ => false

/-- Elements, properties and the rest, with a text, a negative number, a list, a call, a function and
a template for defaults. -/
theorem declared_and_assigned_agree_nested :
    let s : Spot := ⟨⟨1, 1⟩, false⟩
    let W : Framing := ⟨"x", s, s, s, s, s, s, s, s, s, s, s, rfl⟩
    let P := [.punct .lbracket, .ident "a", .punct .eq, .str "", .punct .comma, .punct .comma,
      .punct .lbrace, .ident "b", .punct .colon, .ident "c", .punct .eq, .punct .minus,
      .number (.ofInt 1), .punct .comma, .ident "d", .punct .comma, .punct .ellipsis, .ident "e",
      .punct .rbrace, .punct .eq, .punct .lbracket, .ident "f", .punct .lparen, .punct .rparen,
      .punct .rbracket, .punct .comma, .ident "g", .punct .eq, .keyword .function, .punct .lparen,
      .punct .rparen, .punct .lbrace, .punct .semi, .punct .rbrace, .punct .comma, .ident "h",
      .punct .eq, .template .whole "" "", .punct .rbracket].map s.token
    ∃ pos pos' p i nodes funcs n p' i' nodes' funcs', Program.ofTokens (W.declaring P) =
        .ok ⟨[.declare pos .var [⟨pos', p, some (.ident i)⟩]], nodes, funcs⟩ ∧
      Program.ofTokens (W.assigning P) = .ok ⟨[.expr (.assign n p' (.ident i'))], nodes', funcs'⟩ ∧
      p'.bare = p.bare ∧ i'.name = W.name := by
  intro s W P
  have hdeclared : namesPattern (Program.ofTokens (W.declaring P)) = true := by decide +kernel
  have hassigned : (Program.ofTokens (W.assigning P)).toBool = true := by decide +kernel
  unfold namesPattern at hdeclared
  split at hdeclared
  · next pos pos' p i nodes funcs hrun =>
    obtain ⟨n, p', i', nodes', funcs', hagree⟩ | ⟨e, he, -⟩ := declared_and_assigned_agree W
      (rfl : P.map Token.spelling = P.map Token.spelling) (by decide) hrun
    · exact ⟨pos, pos', p, i, nodes, funcs, n, p', i', nodes', funcs', hrun, hagree⟩
    · rw [he] at hassigned
      cases hassigned
  · cases hdeclared

/-- A default behind a bare property name is read in a declaration only. -/
theorem shorthand_default_not_assigned :
    (∃ p, Program.ofSource "var {a = 1} = x;" = .ok p) ∧
    Program.ofSource "({a = 1} = x);" = .error ⟨.expected (.punct .rbrace), ⟨1, 5⟩⟩ := by
  constructor
  · have hok : (Program.ofSource "var {a = 1} = x;").toBool = true := by decide +kernel
    cases hrun : Program.ofSource "var {a = 1} = x;" with
    | ok p => exact ⟨p, rfl⟩
    | error e =>
      rw [hrun] at hok
      cases hok
  · have herror : (match Program.ofSource "({a = 1} = x);" with
        | .error e => decide (e = ⟨.expected (.punct .rbrace), ⟨1, 5⟩⟩)
        | .ok _ => false) = true := by decide +kernel
    split at herror
    · next e hrun => rw [hrun, of_decide_eq_true herror]
    · cases herror

end TagCheck
