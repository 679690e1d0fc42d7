import TagCheck.Proofs.Program.Numbering

/-! How operands are joined by operators. Main statement: atoms with operators between them are read
as the only tree that spells them and in which every operator holds its operands as its precedence
demands, the left one at least as tightly as itself and the right one more tightly. -/
namespace TagCheck

open Parse

namespace Connective

def token : Connective → TokenKind
  | binary .add => .punct .plus
  | binary .sub => .punct .minus
  | binary .mul => .punct .star
  | binary .div => .punct .slash
  | binary .mod => .punct .percent
  | binary .bitAnd => .punct .amp
  | binary .bitOr => .punct .pipe
  | binary .bitXor => .punct .caret
  | binary .shl => .punct .shl
  | binary .shr => .punct .shr
  | binary .ushr => .punct .ushr
  | binary .lt => .punct .lt
  | binary .le => .punct .le
  | binary .gt => .punct .gt
  | binary .ge => .punct .ge
  | binary .eq => .punct .eqEq
  | binary .notEq => .punct .notEq
  | binary .strictEq => .punct .eqEqEq
  | binary .strictNotEq => .punct .notEqEq
  | binary .in_ => .keyword .in_
  | binary .instanceof => .keyword .instanceof
  | logical .and => .punct .andAnd
  | logical .or => .punct .orOr

theorem ofToken?_token (c : Connective) : ofToken? c.token = some c := by
  cases c with
  | binary op => cases op <;> rfl
  | logical op => cases op <;> rfl

theorem token_injective {c d : Connective} (h : c.token = d.token) : c = d := by
  have hsome : some c = some d := by rw [← ofToken?_token c, ← ofToken?_token d, h]
  exact Option.some.inj hsome

theorem one_le_precedence (c : Connective) : 1 ≤ c.precedence := by
  cases c with
  | binary op => cases op <;> decide
  | logical op => cases op <;> decide

end Connective

inductive Operation where
  | atom (kind : TokenKind)
  | node (c : Connective) (left right : Operation)

namespace Operation

def reading : Operation → List TokenKind
  | atom kind => [kind]
  | node c left right => left.reading ++ c.token :: right.reading

def top? : Operation → Option Connective
  | atom _ => none
  | node c _ _ => some c

/-- Every operator holds its left operand at least as tightly as itself and its right operand more
tightly. -/
def Ordered : Operation → Prop
  | atom _ => True
  | node c left right =>
    (∀ d ∈ left.top?, c.precedence ≤ d.precedence) ∧
      (∀ d ∈ right.top?, c.precedence < d.precedence) ∧ left.Ordered ∧ right.Ordered

def first : Operation → TokenKind
  | atom kind => kind
  | node _ left _ => left.first

def others : Operation → List (Connective × TokenKind)
  | atom _ => []
  | node c left right => left.others ++ (c, right.first) :: right.others

def spell (xs : List (Connective × TokenKind)) : List TokenKind :=
  xs.flatMap fun x => [x.1.token, x.2]

theorem reading_eq (t : Operation) : t.reading = t.first :: spell t.others := by
  induction t with
  | atom kind => rfl
  | node c left right ihl ihr => simp [reading, first, others, ihl, ihr, spell]

theorem spell_injective {xs ys : List (Connective × TokenKind)} (h : spell xs = spell ys) :
    xs = ys := by
  induction xs generalizing ys with
  | nil =>
    cases ys with
    | nil => rfl
    | cons y ys => simp [spell] at h
  | cons x xs ih =>
    cases ys with
    | nil => simp [spell] at h
    | cons y ys =>
      simp only [spell, List.flatMap_cons, List.cons_append, List.nil_append, List.cons.injEq] at h
      have hop : x.1 = y.1 := Connective.token_injective h.1
      have htail : xs = ys := ih h.2.2
      rw [htail, Prod.ext hop h.2.1]

/-- Below an operator nothing is held more loosely than what stands on top. -/
theorem Ordered.le_of_mem {t : Operation} (h : t.Ordered) {p : Nat}
    (htop : ∀ d ∈ t.top?, p ≤ d.precedence) : ∀ x ∈ t.others, p ≤ x.1.precedence := by
  induction t with
  | atom kind => simp [others]
  | node c left right ihl ihr =>
    obtain ⟨hleft, hright, hl, hr⟩ := h
    have hc : p ≤ c.precedence := htop c rfl
    have hbefore := ihl hl fun d hd => Nat.le_trans hc (hleft d hd)
    have hbehind := ihr hr fun d hd => Nat.le_trans hc (Nat.le_of_lt (hright d hd))
    simp only [others, List.forall_mem_append, List.forall_mem_cons]
    exact ⟨hbefore, hc, hbehind⟩

/-- The operator on top is the last one among those that hold their operands most loosely, so the
same tokens do not split in two ways. -/
theorem Ordered.eq_nil_of_split {c d : Connective} {left right left' right' : Operation}
    {mid : List (Connective × TokenKind)} (h : (node c left right).Ordered)
    (h' : (node d left' right').Ordered) (hleft : left'.others = left.others ++ mid)
    (hright : (c, right.first) :: right.others = mid ++ (d, right'.first) :: right'.others) :
    mid = [] := by
  cases mid with
  | nil => rfl
  | cons x mid =>
    obtain ⟨rfl, hothers⟩ : (c, right.first) = x ∧
        right.others = mid ++ (d, right'.first) :: right'.others := by simpa using hright
    have hd : c.precedence + 1 ≤ d.precedence :=
      h.2.2.2.le_of_mem h.2.1 (d, right'.first) (by simp [hothers])
    have hc : d.precedence ≤ c.precedence :=
      h'.2.2.1.le_of_mem h'.1 (c, right.first) (by simp [hleft])
    omega

/-- No two trees of this kind are written alike. -/
theorem Ordered.eq_of_reading {t u : Operation} (ht : t.Ordered) (hu : u.Ordered)
    (h : t.reading = u.reading) : t = u := by
  obtain ⟨hfirst, hothers⟩ : t.first = u.first ∧ t.others = u.others := by
    rw [reading_eq, reading_eq] at h
    exact ⟨(List.cons.inj h).1, spell_injective (List.cons.inj h).2⟩
  clear h
  induction t generalizing u with
  | atom kind =>
    cases u with
    | atom kind' => exact congrArg atom hfirst
    | node d left' right' => simp [others] at hothers
  | node c left right ihl ihr =>
    cases u with
    | atom kind' => simp [others] at hothers
    | node d left' right' =>
      have hsplit : ∃ mid, mid = [] ∧ left'.others = left.others ++ mid ∧
          (c, right.first) :: right.others = mid ++ (d, right'.first) :: right'.others := by
        rcases List.append_eq_append_iff.1 hothers with ⟨mid, hl, hr⟩ | ⟨mid, hl, hr⟩
        · exact ⟨mid, ht.eq_nil_of_split hu hl hr, hl, hr⟩
        · obtain rfl := hu.eq_nil_of_split ht hl hr
          exact ⟨[], rfl, by simpa using hl.symm, hr.symm⟩
      obtain ⟨mid, rfl, hl, hr⟩ := hsplit
      simp only [List.nil_append, List.cons.injEq, Prod.mk.injEq] at hr
      obtain ⟨⟨rfl, hfirst'⟩, hr⟩ := hr
      have hleft : left = left' := ihl ht.2.2.1 hu.2.2.1 hfirst (by simp [hl])
      have hright : right = right' := ihr ht.2.2.2 hu.2.2.2 hfirst' hr
      rw [hleft, hright]

end Operation

def Expr.operation? : Expr → Option Operation
  | .ident i => some (.atom (.ident i.name))
  | .number _ value => some (.atom (.number value))
  | .binary _ op left right => do
    return .node (.binary op) (← left.operation?) (← right.operation?)
  | .logical _ op left right => do
    return .node (.logical op) (← left.operation?) (← right.operation?)
  | _ => none

theorem Connective.operation?_apply (c : Connective) (n : Node) {left right : Expr}
    {l r : Operation} (hl : left.operation? = some l) (hr : right.operation? = some r) :
    (c.apply n left right).operation? = some (.node c l r) := by
  cases c <;> simp [Connective.apply, Expr.operation?, hl, hr]

namespace TokenKind

def isAtom : TokenKind → Bool
  | ident _ | number _ => true
  | _ => false

/-- An operand that begins with this token is read by `primary` alone. -/
def opensOperand : TokenKind → Bool
  | ident _ | number _ | punct .lbracket | punct .lbrace | punct .lparen => true
  | _ => false

/-- An operand that has been read cannot go on with this token. -/
def endsOperand : TokenKind → Bool
  | punct .lparen | punct .dot | punct .lbracket | punct .plusPlus | punct .minusMinus => false
  | template _ _ _ => false
  | _ => true

theorem endsOperand_token (c : Connective) : c.token.endsOperand = true := by
  cases c with
  | binary op => cases op <;> rfl
  | logical op => cases op <;> rfl

theorem opensOperand_of_isAtom {kind : TokenKind} (h : kind.isAtom = true) :
    kind.opensOperand = true := by
  cases kind <;> first | rfl | cases h

end TokenKind

namespace Parse

variable {α β : Type} {m : Parse α} {k : α → Parse β} {a : α} {c c' : Cursor}

theorem run_bind_of_ok (h : m.run c = .ok (a, c')) : (m >>= k).run c = (k a).run c' := by
  rw [StateT.run_bind, h]
  rfl

theorem run_budget (c : Cursor) : budget.run c = .ok (c.rest.length + 1, c) := rfl

theorem run_onNewLine (c : Cursor) :
    onNewLine.run c = .ok (c.rest.head?.any Token.newlineBefore, c) := by
  obtain ⟨_ | ⟨t, ts⟩, i, j⟩ := c <;> rfl

theorem run_advance {t : Token} {ts : List Token} {i : NodeId} {j : FuncId} (h : t.kind ≠ .eof) :
    advance.run ⟨t :: ts, i, j⟩ = .ok ((), ⟨ts, i, j⟩) := by
  change Except.ok ((), if t.kind = .eof then _ else _) = _
  rw [if_neg h]

theorem run_accept_of_ne {kind : TokenKind} (h : c.kind ≠ kind) :
    (accept kind).run c = .ok (false, c) := by
  rw [accept, run_bind_of_ok (run_isNext c kind), decide_eq_false h]
  rfl

/-- The reader ends with a result as `P` says, or it fails as `E` says. -/
def Ends (m : Parse α) (c : Cursor) (E : SourceError → Prop) (P : α → Cursor → Prop) : Prop :=
  match m.run c with
  | .ok (a, c₁) => P a c₁
  | .error e => E e

namespace Ends

variable {c₁ : Cursor} {E : SourceError → Prop} {P : α → Cursor → Prop} {Q : β → Cursor → Prop}

theorem of_ok (h : m.run c = .ok (a, c₁)) (ha : P a c₁) : m.Ends c E P := by
  rwa [Ends, h]

theorem of_error {e : SourceError} (h : m.run c = .error e) (he : E e) : m.Ends c E P := by
  rwa [Ends, h]

/-- A reader that does not fail. -/
theorem exists_run (h : m.Ends c (fun _ => False) P) : ∃ a c₁, m.run c = .ok (a, c₁) ∧ P a c₁ := by
  rw [Ends] at h
  split at h
  · next a c₁ hrun => exact ⟨a, c₁, hrun, h⟩
  · exact h.elim

theorem bind (h : m.Ends c E P) (hk : ∀ a c₁, P a c₁ → (k a).Ends c₁ E Q) :
    (m >>= k).Ends c E Q := by
  rw [Ends] at h
  split at h
  · next a c₁ hrun =>
    rw [Ends, run_bind_of_ok hrun]
    exact hk a c₁ h
  · next e hrun => exact of_error (by rw [StateT.run_bind, hrun]; rfl) h

theorem after (hrun : m.run c = .ok (a, c₁)) (h : (k a).Ends c₁ E Q) : (m >>= k).Ends c E Q := by
  rwa [Ends, run_bind_of_ok hrun]

theorem and_run (h : m.Ends c E P) :
    m.Ends c E fun a c₁ => P a c₁ ∧ m.run c = .ok (a, c₁) := by
  rw [Ends] at h ⊢
  split at h
  · next a c₁ hrun => exact ⟨h, hrun⟩
  · exact h

theorem imp {E' : SourceError → Prop} {P' : α → Cursor → Prop} (h : m.Ends c E P)
    (hE : ∀ e, E e → E' e) (hP : ∀ a c₁, P a c₁ → P' a c₁) : m.Ends c E' P' := by
  rw [Ends] at h ⊢
  split at h
  · exact hP _ _ h
  · exact hE _ h

end Ends

theorem run_extend_of_none {step : α → Parse (Option α)} (n : Nat)
    (h : (step a).run c = .ok (none, c)) : (extend step (n + 1) a).run c = .ok (a, c) := by
  rw [extend, run_bind_of_ok h]
  rfl

end Parse

namespace Grammar

variable {g : Grammar} {c : Cursor} {E : SourceError → Prop} {P : Expr → Cursor → Prop}

theorem run_chainNext_of_endsOperand (h : c.kind.endsOperand = true) (e : Expr) :
    (g.chainNext e).run c = .ok (none, c) := by
  obtain ⟨_ | ⟨⟨kind, pos, newline⟩, ts⟩, i, j⟩ := c
  · rfl
  · cases kind with
    | punct p => cases p <;> first | rfl | cases h
    | template => cases h
    | _ => rfl

section Operand

variable (hopens : c.kind.opensOperand = true) (hP : ∀ e c₁, P e c₁ → c₁.kind.endsOperand = true)

include hopens hP

theorem ends_callChain (h : g.primary.Ends c E P) : g.callChain.Ends c E P := by
  have hkind : c.kind ≠ .keyword .new := fun hkind => by
    rw [hkind] at hopens
    cases hopens
  have hnew : newKeyword.run c = .ok (none, c) := by
    rw [newKeyword, run_bind_of_ok (run_position c), run_bind_of_ok (run_accept_of_ne hkind)]
    rfl
  have hnews : (collect newKeyword (c.rest.length + 1)).run c = .ok ([], c) := by
    rw [collect, run_bind_of_ok hnew]
    rfl
  refine .after (run_budget c) (.after hnews (h.bind fun e c₁ he => .after (run_budget c₁) ?_))
  exact .of_ok (run_extend_of_none _ (run_chainNext_of_endsOperand (hP e c₁ he) e)) he

/-- What `primary` reads is all that is read of an operand. -/
theorem ends_unary (h : g.primary.Ends c E P) : g.unary.Ends c E P := by
  have hops : UnaryOp.ofToken? c.kind = none ∧ UpdateOp.ofToken? c.kind = none := by
    generalize c.kind = kind at hopens
    cases kind with
    | punct p => cases p <;> first | exact ⟨rfl, rfl⟩ | cases hopens
    | ident | number => exact ⟨rfl, rfl⟩
    | _ => cases hopens
  refine .after (run_position c) (.after (run_peek c) ?_)
  rw [hops.1, hops.2]
  refine (ends_callChain hopens hP h).bind fun e c₁ he => .after (run_onNewLine c₁) ?_
  have hupdate : UpdateOp.ofToken? c₁.kind = none := by
    have hends := hP e c₁ he
    generalize c₁.kind = kind at hends
    cases kind with
    | punct p => cases p <;> first | rfl | cases hends
    | _ => rfl
  split
  · exact he
  · refine .after (run_peek c₁) ?_
    rw [hupdate]
    exact he

end Operand

variable (g) (ts : List Token) (i : NodeId) (j : FuncId) {t u : Token}

theorem run_primary_of_isAtom (ht : t.kind.isAtom = true) :
    ∃ e, g.primary.run ⟨t :: ts, i, j⟩ = .ok (e, ⟨ts, i + 1, j⟩) ∧
      e.operation? = some (.atom t.kind) := by
  obtain ⟨kind, pos, newlineBefore⟩ := t
  cases kind with
  | ident name => exact ⟨.ident ⟨⟨i, pos⟩, name⟩, rfl, rfl⟩
  | number value => exact ⟨.number ⟨i, pos⟩ value, rfl, rfl⟩
  | _ => simp [TokenKind.isAtom] at ht

theorem run_unary_of_isAtom (ht : t.kind.isAtom = true) (hu : u.kind.endsOperand = true) :
    ∃ e, g.unary.run ⟨t :: u :: ts, i, j⟩ = .ok (e, ⟨u :: ts, i + 1, j⟩) ∧
      e.operation? = some (.atom t.kind) := by
  obtain ⟨e, hrun, he⟩ := g.run_primary_of_isAtom (u :: ts) i j ht
  have hopens : Cursor.kind ⟨t :: u :: ts, i, j⟩ |>.opensOperand :=
    TokenKind.opensOperand_of_isAtom ht
  obtain ⟨_, _, hrun, rfl, rfl⟩ := Ends.exists_run (ends_unary hopens
    (P := fun e' c => e' = e ∧ c = ⟨u :: ts, i + 1, j⟩) (fun _ _ h => h.2 ▸ hu)
    (.of_ok hrun ⟨rfl, rfl⟩))
  exact ⟨_, hrun, he⟩

end Grammar

structure Link where
  connective : Connective
  op : Token
  atom : Token
  op_kind : op.kind = connective.token
  isAtom : atom.kind.isAtom = true

namespace Link

def tokens (xs : List Link) : List Token := xs.flatMap fun x => [x.op, x.atom]

def pair (x : Link) : Connective × TokenKind := (x.connective, x.atom.kind)

@[simp] theorem tokens_cons (x : Link) (xs : List Link) :
    tokens (x :: xs) = x.op :: x.atom :: tokens xs := rfl

@[simp] theorem tokens_append (xs ys : List Link) : tokens (xs ++ ys) = tokens xs ++ tokens ys :=
  List.flatMap_append

theorem op_ne_eof (x : Link) : x.op.kind ≠ .eof := by
  intro h
  have hsome := Connective.ofToken?_token x.connective
  rw [← x.op_kind, h] at hsome
  cases hsome

/-- Behind the links comes an operator of one of them, or the token that ends them. -/
theorem exists_next (xs : List Link) {stop : Token} (rest : List Token)
    (hstop : stop.kind.endsOperand = true) :
    ∃ u ts, tokens xs ++ stop :: rest = u :: ts ∧ u.kind.endsOperand = true := by
  cases xs with
  | nil => exact ⟨stop, rest, rfl, hstop⟩
  | cons x xs =>
    refine ⟨x.op, x.atom :: (tokens xs ++ stop :: rest), rfl, ?_⟩
    rw [x.op_kind]
    exact TokenKind.endsOperand_token x.connective

/-- The links up to the first operator that holds more loosely than `p`, and those from it on. -/
theorem exists_split (p : Nat) (xs : List Link) :
    ∃ near far, near ++ far = xs ∧ (∀ x ∈ near, p ≤ x.connective.precedence) ∧
      ∀ x ∈ far.head?, x.connective.precedence < p := by
  induction xs with
  | nil => exact ⟨[], [], rfl, by simp, by simp⟩
  | cons x xs ih =>
    by_cases hx : p ≤ x.connective.precedence
    · obtain ⟨near, far, happ, hnear, hfar⟩ := ih
      refine ⟨x :: near, far, congrArg (x :: ·) happ, ?_, hfar⟩
      exact List.forall_mem_cons.2 ⟨hx, hnear⟩
    · refine ⟨[], x :: xs, rfl, by simp, fun y hy => ?_⟩
      cases hy
      omega

theorem forall_head?_append {P : Link → Prop} {xs ys : List Link} (hxs : ∀ x ∈ xs.head?, P x)
    (hys : ∀ x ∈ ys.head?, P x) : ∀ x ∈ (xs ++ ys).head?, P x := by
  cases xs with
  | nil => exact hys
  | cons x xs => exact hxs

theorem length_tokens (xs : List Link) : (tokens xs).length = 2 * xs.length := by
  induction xs with
  | nil => rfl
  | cons x xs ih =>
    simp only [tokens_cons, List.length_cons, ih]
    omega

theorem spell_map_pair (xs : List Link) :
    Operation.spell (xs.map pair) = (tokens xs).map Token.kind := by
  induction xs with
  | nil => rfl
  | cons x xs ih =>
    rw [List.map_cons, tokens_cons, List.map_cons, List.map_cons, ← ih, x.op_kind]
    rfl

end Link

structure Token.Ends (stop : Token) : Prop where
  operand : stop.kind.endsOperand = true
  noConnective : Connective.ofToken? stop.kind = none

/-- What a reader of operands and operators returns for a first atom and the links behind it. -/
structure Operation.Reads (t : Operation) (first : TokenKind) (xs : List Link) : Prop where
  first : t.first = first
  others : t.others = xs.map Link.pair
  ordered : t.Ordered

namespace Operation.Reads

variable {t u : Operation} {kind : TokenKind} {xs ys : List Link}

theorem le_of_mem_top? {p : Nat} (h : t.Reads kind xs)
    (hxs : ∀ x ∈ xs, p ≤ x.connective.precedence) : ∀ d ∈ t.top?, p ≤ d.precedence := by
  intro d hd
  cases t with
  | atom kind => cases hd
  | node c left right =>
    have hmem : (c, right.first) ∈ xs.map Link.pair := by
      rw [← h.others]
      simp [Operation.others]
    obtain ⟨x, hx, hpair⟩ := List.mem_map.1 hmem
    have hxc : x.connective = c := (Prod.mk.inj hpair).1
    have hcd : c = d := Option.some.inj hd
    have hle := hxs x hx
    rwa [hxc, hcd] at hle

/-- A tree is joined to one whose operators all hold more tightly. -/
theorem node {x : Link} (ht : t.Reads kind xs) (hu : u.Reads x.atom.kind ys)
    (htop : ∀ d ∈ t.top?, x.connective.precedence ≤ d.precedence)
    (hys : ∀ y ∈ ys, x.connective.precedence < y.connective.precedence) :
    (Operation.node x.connective t u).Reads kind (xs ++ x :: ys) where
  first := ht.first
  others := by simp [Operation.others, ht.others, hu.others, hu.first, Link.pair]
  ordered := ⟨htop, hu.le_of_mem_top? hys, ht.ordered, hu.ordered⟩

end Operation.Reads

namespace Grammar

/-- `binary p` reads an atom and the operators of precedence at least `p` behind it, and leaves off at
the first one that holds more loosely. -/
def ReadsFrom (g : Grammar) (p : Nat) : Prop :=
  ∀ (first stop : Token) (tight loose : List Link) (rest : List Token) (i j : Nat),
    first.kind.isAtom = true → stop.Ends → (∀ x ∈ tight, p ≤ x.connective.precedence) →
    (∀ x ∈ loose.head?, x.connective.precedence < p) →
    ∃ e t, (g.binary p).run ⟨first :: (Link.tokens (tight ++ loose) ++ stop :: rest), i, j⟩ =
        .ok (e, ⟨Link.tokens loose ++ stop :: rest, i + (2 * tight.length + 1), j⟩) ∧
      e.operation? = some t ∧ t.Reads first.kind tight

variable {g : Grammar} {p : Nat}

/-- Before an operator that holds more loosely, or the end, there is nothing to join. -/
theorem run_joinNext_of_loose {loose : List Link}
    (hloose : ∀ x ∈ loose.head?, x.connective.precedence < p) {stop : Token} (hstop : stop.Ends)
    (rest : List Token) (i j : Nat) (left : Expr) :
    (g.joinNext p left).run ⟨Link.tokens loose ++ stop :: rest, i, j⟩ =
      .ok (none, ⟨Link.tokens loose ++ stop :: rest, i, j⟩) := by
  rw [joinNext, run_bind_of_ok (run_peek _)]
  cases loose with
  | nil =>
    have hkind : Cursor.kind ⟨Link.tokens [] ++ stop :: rest, i, j⟩ = stop.kind := rfl
    rw [hkind, hstop.noConnective]
    rfl
  | cons x loose =>
    have hkind : Cursor.kind ⟨Link.tokens (x :: loose) ++ stop :: rest, i, j⟩ = x.op.kind := rfl
    rw [hkind, x.op_kind, Connective.ofToken?_token]
    dsimp only
    rw [dif_pos (hloose x rfl)]
    rfl

/-- An operator that holds tightly enough is joined to all behind it that holds more tightly. -/
theorem ReadsFrom.run_joinNext {x : Link} (hg : g.ReadsFrom (x.connective.precedence + 1))
    (hx : p ≤ x.connective.precedence) {near far : List Link}
    (hnear : ∀ y ∈ near, x.connective.precedence < y.connective.precedence)
    (hfar : ∀ y ∈ far.head?, y.connective.precedence < x.connective.precedence + 1) {stop : Token}
    (hstop : stop.Ends) (rest : List Token) (i j : Nat) {left : Expr} {t : Operation}
    (hleft : left.operation? = some t) :
    ∃ e u, (g.joinNext p left).run
        ⟨Link.tokens (x :: (near ++ far)) ++ stop :: rest, i, j⟩ =
          .ok (some e, ⟨Link.tokens far ++ stop :: rest, i + 2 * (near.length + 1), j⟩) ∧
      e.operation? = some (.node x.connective t u) ∧ u.Reads x.atom.kind near := by
  obtain ⟨right, u, hrun, hright, hreads⟩ :=
    hg x.atom stop near far rest i j x.isAtom hstop hnear hfar
  let n : Node := ⟨i + (2 * near.length + 1), left.pos⟩
  refine ⟨x.connective.apply n left right, u, ?_, ?_, hreads⟩
  · have hkind : Cursor.kind ⟨Link.tokens (x :: (near ++ far)) ++ stop :: rest, i, j⟩ = x.op.kind :=
      rfl
    rw [joinNext, run_bind_of_ok (run_peek _), hkind, x.op_kind, Connective.ofToken?_token]
    dsimp only
    rw [dif_neg (Nat.not_lt.2 hx), Link.tokens_cons, List.cons_append, List.cons_append,
      run_bind_of_ok (run_advance x.op_ne_eof), run_bind_of_ok hrun]
    rfl
  · exact x.connective.operation?_apply n hleft hright

/-- The loop joins operators from the left. What it has joined ends before an operator that holds no
more tightly than the one on top. -/
theorem ReadsFrom.run_extend (hg : ∀ q, p < q → q ≤ 11 → g.ReadsFrom q) {stop : Token}
    (hstop : stop.Ends) (rest : List Token) (j : Nat) {kind : TokenKind} {loose : List Link}
    (hloose : ∀ x ∈ loose.head?, x.connective.precedence < p) (fuel : Nat) :
    ∀ (seen tight : List Link) (left : Expr) (t : Operation) (i : Nat),
    (∀ x ∈ tight, p ≤ x.connective.precedence) →
    (∀ x ∈ tight.head?, ∀ d ∈ t.top?, x.connective.precedence ≤ d.precedence) →
    tight.length < fuel → left.operation? = some t → t.Reads kind seen →
    ∃ e u, (extend (g.joinNext p) fuel left).run
        ⟨Link.tokens (tight ++ loose) ++ stop :: rest, i, j⟩ =
          .ok (e, ⟨Link.tokens loose ++ stop :: rest, i + 2 * tight.length, j⟩) ∧
      e.operation? = some u ∧ u.Reads kind (seen ++ tight) := by
  induction fuel with
  | zero =>
    intro seen tight left t i htight htop hlen
    omega
  | succ fuel ih =>
    intro seen tight left t i htight htop hlen hleft hreads
    cases tight with
    | nil =>
      refine ⟨left, t, ?_, hleft, by simpa using hreads⟩
      rw [extend, List.nil_append,
        run_bind_of_ok (run_joinNext_of_loose hloose hstop rest i j left)]
      rfl
    | cons x tight =>
      rw [List.forall_mem_cons] at htight
      obtain ⟨hx, htight⟩ := htight
      -- The right operand ends before the next operator that holds no more tightly than this one.
      obtain ⟨near, far, hsplit, hnear, hfar⟩ := Link.exists_split (x.connective.precedence + 1) tight
      subst hsplit
      have hright := hg (x.connective.precedence + 1) (by omega)
        (Nat.succ_le_succ x.connective.precedence_le)
      have hnext : ∀ y ∈ (far ++ loose).head?,
          y.connective.precedence < x.connective.precedence + 1 := by
        refine Link.forall_head?_append hfar fun y hy => ?_
        have hlt := hloose y hy
        omega
      obtain ⟨e, u, hrun, he, hu⟩ := hright.run_joinNext hx hnear hnext hstop rest i j hleft
      have hjoined : (Operation.node x.connective t u).Reads kind (seen ++ x :: near) :=
        hreads.node hu (htop x rfl) hnear
      have hfar' : ∀ y ∈ far, p ≤ y.connective.precedence := fun y hy =>
        htight y (List.mem_append_right near hy)
      have htop' : ∀ y ∈ far.head?, ∀ d ∈ (Operation.node x.connective t u).top?,
          y.connective.precedence ≤ d.precedence := by
        intro y hy d hd
        cases hd
        exact Nat.le_of_lt_succ (hfar y hy)
      have hfuel : far.length < fuel := by
        rw [List.length_cons, List.length_append] at hlen
        omega
      obtain ⟨e', u', hrun', he', hu'⟩ := ih (seen ++ x :: near) far e _ (i + 2 * (near.length + 1))
        hfar' htop' hfuel he hjoined
      refine ⟨e', u', ?_, he', ?_⟩
      · rw [List.cons_append, List.append_assoc, extend, run_bind_of_ok hrun]
        dsimp only
        rw [hrun', show i + 2 * (near.length + 1) + 2 * far.length =
          i + 2 * (x :: (near ++ far)).length by
            simp only [List.length_cons, List.length_append]
            omega]
      · simpa using hu'

/-- Every threshold is read, by induction on how many precedences are above it. -/
theorem readsFrom (n p : Nat) : (grammar (n + 1)).ReadsFrom p := by
  intro first stop tight loose rest i j hfirst hstop htight hloose
  obtain ⟨u, ts, htokens, hu⟩ := Link.exists_next (tight ++ loose) rest hstop.operand
  obtain ⟨e, hrun, he⟩ := (grammar n).run_unary_of_isAtom ts i j hfirst hu
  have hfuel : tight.length < (Link.tokens (tight ++ loose) ++ stop :: rest).length + 1 := by
    simp only [Link.tokens_append, List.length_append, Link.length_tokens]
    omega
  have habove (q : Nat) (hq : p < q) (_ : q ≤ 11) : (grammar (n + 1)).ReadsFrom q := readsFrom n q
  obtain ⟨e', t', hrun', he', ht'⟩ := ReadsFrom.run_extend habove hstop rest j hloose _ [] tight e
    (.atom first.kind) (i + 1) htight (by simp [Operation.top?]) hfuel he ⟨rfl, rfl, trivial⟩
  refine ⟨e', t', ?_, he', ht'⟩
  have hoperand : (grammar (n + 1)).operand.run
      ⟨first :: (Link.tokens (tight ++ loose) ++ stop :: rest), i, j⟩ =
      .ok (e, ⟨Link.tokens (tight ++ loose) ++ stop :: rest, i + 1, j⟩) := by
    rw [htokens]
    exact hrun
  rw [binary, run_bind_of_ok hoperand, run_bind_of_ok (run_budget _), hrun',
    show i + 1 + 2 * tight.length = i + (2 * tight.length + 1) by omega]
termination_by 11 - p

end Grammar

/-- Atoms with operators between them, up to a `;` or the end, are read as their one tree in which
higher precedence is applied first and equal precedence from the left. -/
theorem binary_run_atoms (depth : Nat) (hdepth : depth < maxNesting) (first : Token)
    (hfirst : first.kind.isAtom = true) (links : List Link) (stop : Token)
    (hstop : stop.kind = .punct .semi ∨ stop.kind = .eof) (rest : List Token) (i j : Nat) :
    let g := grammar (maxNesting - depth)
    let written := first :: Link.tokens links
    ∃ e t, (g.binary 1).run ⟨written ++ stop :: rest, i, j⟩ =
        .ok (e, ⟨stop :: rest, i + written.length, j⟩) ∧
      e.operation? = some t ∧ t.reading = written.map Token.kind ∧ t.Ordered ∧
      ∀ u : Operation, u.reading = written.map Token.kind → u.Ordered → u = t := by
  intro g written
  obtain ⟨n, hn⟩ : ∃ n, maxNesting - depth = n + 1 := ⟨maxNesting - depth - 1, by omega⟩
  have hg : g.ReadsFrom 1 := by
    have hreads := Grammar.readsFrom n 1
    rwa [← hn] at hreads
  have hends : stop.Ends := by
    rcases hstop with hstop | hstop
    · exact ⟨by rw [hstop]; rfl, by rw [hstop]; rfl⟩
    · exact ⟨by rw [hstop]; rfl, by rw [hstop]; rfl⟩
  have hlinks : ∀ x ∈ links, 1 ≤ x.connective.precedence := fun x _ => x.connective.one_le_precedence
  obtain ⟨e, t, hrun, he, hreads⟩ := hg first stop links [] rest i j hfirst hends hlinks (by simp)
  have hreading : t.reading = written.map Token.kind := by
    rw [Operation.reading_eq, hreads.first, hreads.others, Link.spell_map_pair]
    rfl
  refine ⟨e, t, ?_, he, hreading, hreads.ordered, fun u hu hordered => ?_⟩
  · have hlength : written.length = 2 * links.length + 1 := by
      rw [List.length_cons, Link.length_tokens]
    rw [hlength]
    rwa [List.append_nil] at hrun
  · exact hordered.eq_of_reading hreads.ordered (hu.trans hreading.symm)

/-- At the deepest place that is read, `a - 2 * b - c;` takes the product first and the differences
from the left. -/
theorem binary_run_atoms_minus_times :
    let at_ (kind : TokenKind) : Token := ⟨kind, ⟨1, 1⟩, false⟩
    let link (c : Connective) (kind : TokenKind) (h : kind.isAtom = true) : Link :=
      ⟨c, at_ c.token, at_ kind, rfl, h⟩
    let links := [link (.binary .sub) (.number (.ofInt 2)) rfl, link (.binary .mul) (.ident "b") rfl,
      link (.binary .sub) (.ident "c") rfl]
    let minus := Operation.node (.binary .sub)
    ∃ e c, ((grammar (maxNesting - 99)).binary 1).run
        ⟨at_ (.ident "a") :: Link.tokens links ++ [at_ (.punct .semi), at_ .eof], 0, 0⟩ = .ok (e, c) ∧
      e.operation? = some (minus (minus (.atom (.ident "a"))
        (.node (.binary .mul) (.atom (.number (.ofInt 2))) (.atom (.ident "b")))) (.atom (.ident "c"))) := by
  intro at_ link links minus
  obtain ⟨e, t, hrun, he, -, -, hunique⟩ := binary_run_atoms 99 (by decide) (at_ (.ident "a")) rfl
    links (at_ (.punct .semi)) (.inl rfl) [at_ .eof] 0 0
  refine ⟨e, _, hrun, he.trans (congrArg some (Eq.symm (hunique _ rfl ?_)))⟩
  simp [minus, Operation.Ordered, Operation.top?, Connective.precedence]

end TagCheck
