import Mathlib.Algebra.BigOperators.Group.List.Basic
import Mathlib.Algebra.Group.Prod
import Mathlib.Algebra.Order.Group.Multiset
import Mathlib.Algebra.Order.Monoid.Prod
import Mathlib.Data.Multiset.OrderedMonoid
import Mathlib.Data.Multiset.Range
import Mathlib.Tactic.Abel
import TagCheck.Program.Cursor
import TagCheck.Proofs.Program.Nodes

/-! Accounting for the numbers that readers take from the cursor. What a reader returns holds all
the numbers that it takes, each of them once, along with those of the parts that it was given.
Functions begin at tokens and simple parameters are named by tokens, and no token serves two of
them: what a reader returns holds no more of either than it has stepped over. Besides, it is as a
property says that may name the places where tokens stand. Readers that are put together from such
readers are of this kind too. -/
namespace TagCheck

/-- The numbers of nodes, those of functions, and the functions that are not in their place. -/
abbrev Numbers := Multiset NodeId × Multiset FuncId × Multiset SyntaxNode

/-- Positions of tokens, and names of tokens that are identifiers. -/
abbrev Marks := Multiset Position × Multiset String

abbrev Tally := Numbers × Marks

namespace Tally

def func (f : FuncId) : Tally := ((0, {f}, 0), 0)

def origin (pos : Position) : Tally := (0, {pos}, 0)

def names (params : List Pattern) : Tally :=
  (0, 0, ((params.filterMap Pattern.simpleName?).map (·.name) : List String))

@[simp] theorem names_nil : names [] = 0 := rfl

theorem names_cons (p : Pattern) (ps : List Pattern) :
    names (p :: ps) = names [p] + names ps := by
  cases hp : p.simpleName? <;> simp [names, hp]

/-- The same numbers, and no more marks. -/
def Wastes (x y : Tally) : Prop := x.1 = y.1 ∧ y.2 ≤ x.2

theorem wastes_add_right {x y : Tally} (h : y.1 = 0) : (x + y).Wastes x :=
  ⟨by rw [Prod.fst_add, h, add_zero], by rw [Prod.snd_add]; exact le_self_add⟩

theorem wastes_add_left {x y : Tally} (h : x.1 = 0) : (x + y).Wastes y :=
  add_comm y x ▸ wastes_add_right h

theorem Wastes.refl (x : Tally) : x.Wastes x := ⟨rfl, le_rfl⟩

theorem Wastes.trans {x y z : Tally} (h : x.Wastes y) (h' : y.Wastes z) : x.Wastes z :=
  ⟨h.1.trans h'.1, h'.2.trans h.2⟩

/-- A default value does not change what a parameter is called. -/
theorem wastes_names_withDefault (x : Tally) (n : Node) (target : Pattern) (e : Expr) :
    (x + names [target]).Wastes (x + names [.withDefault n target e]) := by
  have hnames (h : target.asIdent? = none) : names [.withDefault n target e] = 0 := by
    simp [names, Pattern.simpleName?, h]
  cases target with
  | ident i => exact .refl _
  | _ => rw [hnames rfl, add_zero]; exact wastes_add_right rfl

end Tally

def Node.tally (n : Node) : Tally := (({n.id}, 0, 0), 0)

def SyntaxNode.tally (x : SyntaxNode) : Tally :=
  (({x.id}, 0, 0), 0) + x.func?.elim 0 fun f => ((0, {f.func}, if x.isInPlace then 0 else {x}), 0)
    + Tally.origin f.node.pos + Tally.names f.params

def tally (ns : List SyntaxNode) : Tally := (ns.map SyntaxNode.tally).sum

@[simp] theorem tally_nil : tally [] = 0 := rfl

@[simp] theorem tally_cons (x : SyntaxNode) (ns : List SyntaxNode) :
    tally (x :: ns) = x.tally + tally ns := List.sum_cons

@[simp] theorem tally_append (ns ns' : List SyntaxNode) :
    tally (ns ++ ns') = tally ns + tally ns' := by simp [tally]

namespace SyntaxNode

/-- Only functions hold more than a number. -/
@[simp] theorem tally_expr (e : Expr) : (expr e).tally = e.node.tally +
    e.asFunc?.elim 0 fun f => ((0, {f.func}, if (expr e).isInPlace then 0 else {expr e}), 0)
      + Tally.origin f.node.pos + Tally.names f.params := rfl

@[simp] theorem tally_pattern (p : Pattern) : (pattern p).tally = p.node.tally := rfl

@[simp] theorem tally_spread (n : Node) (e : Expr) : (spread n e).tally = n.tally := rfl

@[simp] theorem tally_name (i : Ident) : (name i).tally = i.node.tally := rfl

theorem tally_func {x : SyntaxNode} {f : Func} (hf : x.func? = some f) (hid : x.id = f.node.id)
    (hplace : x.isInPlace = true) : x.tally =
      f.node.tally + Tally.func f.func + Tally.origin f.node.pos + Tally.names f.params := by
  simp [tally, Node.tally, Tally.func, Tally.origin, Tally.names, hf, hid, hplace]

end SyntaxNode

def TokenKind.name? : TokenKind → Option String
  | .ident name => some name
  | _ => none

def Token.marks (t : Token) : Marks := ({t.pos}, Multiset.ofList t.kind.name?.toList)

namespace Cursor

/-- The numbers that have been given. -/
def allotted (c : Cursor) : Numbers := (Multiset.range c.nextNode, Multiset.range c.nextFunc, 0)

def unread (c : Cursor) : Marks := (c.rest.map Token.marks).sum

def kind (c : Cursor) : TokenKind := c.rest.head?.elim .eof Token.kind

def position (c : Cursor) : Position := c.rest.head?.elim .start Token.pos

def credit (c : Cursor) : Tally := (0, {c.position}, Multiset.ofList c.kind.name?.toList)

theorem credit_wastes (c : Cursor) : c.credit.Wastes (Tally.origin c.position) :=
  ⟨rfl, by simp [credit, Tally.origin]⟩

/-- The tokens that are left stand at certain places, but for the end. -/
def On (S : Position → Prop) (c : Cursor) : Prop := ∀ t ∈ c.rest, t.kind ≠ .eof → S t.pos

theorem On.position {S : Position → Prop} {c : Cursor} (h : c.On S) (hkind : c.kind ≠ .eof) :
    S c.position := by
  obtain ⟨rest, nextNode, nextFunc⟩ := c
  cases rest with
  | nil => exact absurd rfl hkind
  | cons t ts => exact h t (List.mem_cons_self ..) hkind

end Cursor

/-- On the way from one cursor to another, the parts `held` have become what holds `out`. -/
structure Balance (c c' : Cursor) (held out : Tally) : Prop where
  numbers : c'.allotted + held.1 = c.allotted + out.1
  marks : c'.unread + out.2 ≤ c.unread + held.2

namespace Balance

variable {c c₁ c' : Cursor} {held mid out out' : Tally}

theorem refl (c : Cursor) (x : Tally) : Balance c c x x := ⟨rfl, le_rfl⟩

theorem trans (h : Balance c c₁ held mid) (h' : Balance c₁ c' mid out) : Balance c c' held out where
  numbers := by
    have hsum : c'.allotted + held.1 + mid.1 = c.allotted + out.1 + mid.1 := by
      rw [add_right_comm, h'.numbers, add_right_comm, h.numbers]
      abel
    exact add_right_cancel hsum
  marks := h'.marks.trans h.marks

theorem frame (h : Balance c c' held out) (x : Tally) : Balance c c' (x + held) (x + out) where
  numbers := by
    rw [Prod.fst_add, Prod.fst_add, add_left_comm, h.numbers, add_left_comm]
  marks := by
    rw [Prod.snd_add, Prod.snd_add, add_left_comm, add_left_comm c.unread]
    exact add_le_add_right h.marks x.2

theorem waste (h : Balance c c' held out) (hout : out.Wastes out') : Balance c c' held out' :=
  ⟨hout.1 ▸ h.numbers, (add_le_add_right hout.2 _).trans h.marks⟩

end Balance

namespace Parse

variable {S : Position → Prop} {α β : Type} {held : Tally} {m : Parse α} {k : α → Parse β}
  {f : α → Tally} {g : β → Tally} {P : α → Prop} {Q : β → Prop}

/-- From this cursor on, the reader is given parts that hold `held`. What it returns is as `P` says
and holds this and what the reader takes. The tokens left stand where they are to stand. -/
def AllotsAt (S : Position → Prop) (c : Cursor) (held : Tally) (m : Parse α) (f : α → Tally)
    (P : α → Prop) : Prop :=
  c.On S → ∀ a c', m.run c = .ok (a, c') → Balance c c' held (f a) ∧ c'.On S ∧ P a

def Allots (S : Position → Prop) (held : Tally) (m : Parse α) (f : α → Tally) (P : α → Prop) :
    Prop := ∀ c, AllotsAt S c held m f P

abbrev Neutral (S : Position → Prop) (m : Parse α) : Prop :=
  Allots S 0 m (fun _ => 0) fun _ => True

theorem exists_of_bind_eq_ok {ε : Type} {x : Except ε α} {y : α → Except ε β} {b : β}
    (h : x >>= y = .ok b) : ∃ a, x = .ok a ∧ y a = .ok b := by
  cases x with
  | error e => cases h
  | ok a => exact ⟨a, rfl, h⟩

theorem exists_of_run_bind_eq_ok {c c' : Cursor} {b : β} (h : (m >>= k).run c = .ok (b, c')) :
    ∃ a c₁, m.run c = .ok (a, c₁) ∧ (k a).run c₁ = .ok (b, c') := by
  rw [StateT.run_bind] at h
  obtain ⟨⟨a, c₁⟩, hm, hk⟩ := exists_of_bind_eq_ok h
  exact ⟨a, c₁, hm, hk⟩

namespace AllotsAt

variable {c : Cursor}

/-- The first part is given all that the reader is given. -/
theorem bind (hm : AllotsAt S c held m f P)
    (hk : ∀ a c₁, m.run c = .ok (a, c₁) → P a → AllotsAt S c₁ (f a) (k a) g Q) :
    AllotsAt S c held (m >>= k) g Q := by
  intro hc b c' hrun
  obtain ⟨a, c₁, hrun₁, hrun₂⟩ := exists_of_run_bind_eq_ok hrun
  obtain ⟨hbalance, hc₁, ha⟩ := hm hc a c₁ hrun₁
  obtain ⟨hbalance', hb⟩ := hk a c₁ hrun₁ ha hc₁ b c' hrun₂
  exact ⟨hbalance.trans hbalance', hb⟩

/-- The rest of a reader is given what its first part returns. -/
theorem step (hm : AllotsAt S c 0 m f P)
    (hk : ∀ a c₁, m.run c = .ok (a, c₁) → P a → AllotsAt S c₁ (held + f a) (k a) g Q) :
    AllotsAt S c held (m >>= k) g Q := by
  have hframe : AllotsAt S c held m (fun a => held + f a) P := fun hc a c₁ hrun =>
    (hm hc a c₁ hrun).imp_left fun h => by simpa using h.frame held
  exact hframe.bind hk

/-- The first part only looks at the cursor. -/
theorem look {a : α} (hm : m.run c = .ok (a, c)) (hk : AllotsAt S c held (k a) g Q) :
    AllotsAt S c held (m >>= k) g Q := by
  intro hc b c' hrun
  obtain ⟨a', c₁, hrun₁, hrun₂⟩ := exists_of_run_bind_eq_ok hrun
  cases hm.symm.trans hrun₁
  exact hk hc b c' hrun₂

end AllotsAt

namespace Allots

theorem pure {a : α} (h : held = f a) (ha : P a) : Allots S held (pure a) f P := by
  intro c hc a' c' hrun
  cases hrun
  exact ⟨h ▸ .refl c held, hc, ha⟩

theorem throw (e : SourceError) : Allots S held (throw e : Parse α) f P := by
  intro c hc a c' hrun
  cases hrun

theorem step (hm : Allots S 0 m f P) (hk : ∀ a, P a → Allots S (held + f a) (k a) g Q) :
    Allots S held (m >>= k) g Q :=
  fun c => (hm c).step fun a c₁ _ ha => hk a ha c₁

theorem bind (hm : Allots S held m f P) (hk : ∀ a, P a → Allots S (f a) (k a) g Q) :
    Allots S held (m >>= k) g Q :=
  fun c => (hm c).bind fun a c₁ _ ha => hk a ha c₁

theorem skip (hm : Neutral S m) (hk : ∀ a, Allots S held (k a) g Q) :
    Allots S held (m >>= k) g Q :=
  hm.step fun a _ => by simpa using hk a

theorem map {F : α → β} (hm : Allots S 0 m f P) (h : ∀ a, f a = g (F a))
    (hQ : ∀ a, P a → Q (F a)) : Allots S 0 (F <$> m) g Q := by
  rw [map_eq_pure_bind]
  exact hm.step fun a ha => .pure (by rw [zero_add, h]) (hQ a ha)

theorem imp {P' : α → Prop} (hm : Allots S held m f P) (h : ∀ a, P a → P' a) :
    Allots S held m f P' :=
  fun c hc a c' hrun => (hm c hc a c' hrun).imp_right (.imp_right (h a))

/-- Marks may go to waste, after the reader or before it. -/
theorem waste {f' : α → Tally} (hm : Allots S held m f P) (h : ∀ a, (f a).Wastes (f' a)) :
    Allots S held m f' P :=
  fun c hc a c' hrun => (hm c hc a c' hrun).imp_left (·.waste (h a))

theorem spend {held' : Tally} (h : held.Wastes held') (hm : Allots S held' m f P) :
    Allots S held m f P :=
  fun c hc a c' hrun => (hm c hc a c' hrun).imp_left (((Balance.refl c held).waste h).trans ·)

theorem lift {x : Except SourceError α} (h : ∀ a, x = .ok a → held = f a ∧ P a) :
    Allots S held (liftM x : Parse α) f P := by
  intro c hc a c' hrun
  cases x with
  | error e => cases hrun
  | ok a' =>
    cases hrun
    exact ⟨(h a rfl).1 ▸ .refl c held, hc, (h a rfl).2⟩

end Allots

theorem neutral_get : Neutral S (get : Parse Cursor) := by
  intro c hc a c' hrun
  cases hrun
  exact ⟨.refl c 0, hc, trivial⟩

theorem allots_newNode {pos : Position} (hpos : S pos) :
    Allots S 0 (newNode pos) Node.tally (S ·.pos) := by
  intro c hc n c' hrun
  cases hrun
  refine ⟨⟨?_, le_rfl⟩, hc, hpos⟩
  simp [Cursor.allotted, Node.tally, Multiset.range_succ, ← Multiset.singleton_add, add_comm]

theorem allots_newFunc : Allots S 0 newFunc Tally.func fun _ => True := by
  intro c hc n c' hrun
  cases hrun
  refine ⟨⟨?_, le_rfl⟩, hc, trivial⟩
  simp [Cursor.allotted, Tally.func, Multiset.range_succ, ← Multiset.singleton_add, add_comm]

theorem run_peek (c : Cursor) : peek.run c = .ok (c.kind, c) := by
  obtain ⟨rest, nextNode, nextFunc⟩ := c
  cases rest <;> rfl

theorem run_position (c : Cursor) : position.run c = .ok (c.position, c) := by
  obtain ⟨rest, nextNode, nextFunc⟩ := c
  cases rest <;> rfl

theorem run_advance_of_eof {c : Cursor} (h : c.kind = .eof) : advance.run c = .ok ((), c) := by
  obtain ⟨rest, nextNode, nextFunc⟩ := c
  cases rest with
  | nil => rfl
  | cons t ts =>
    have hkind : t.kind = .eof := h
    change Except.ok ((), if t.kind = .eof then _ else _) = _
    rw [if_pos hkind]

/-- A token that is stepped over leaves its marks. -/
theorem allotsAt_advance {c : Cursor} (h : c.kind ≠ .eof) :
    AllotsAt S c 0 advance (fun _ => c.credit) fun _ => True := by
  intro hc a c' hrun
  obtain ⟨rest, nextNode, nextFunc⟩ := c
  cases rest with
  | nil => exact absurd rfl h
  | cons t ts =>
    have hkind : t.kind ≠ .eof := h
    have hadvance : advance.run ⟨t :: ts, nextNode, nextFunc⟩ =
        .ok ((), ⟨ts, nextNode, nextFunc⟩) := by
      change Except.ok ((), if t.kind = .eof then _ else _) = _
      rw [if_neg hkind]
    cases hadvance.symm.trans hrun
    refine ⟨⟨rfl, ?_⟩, fun u hu => hc u (List.mem_cons_of_mem t hu), trivial⟩
    simp [Cursor.unread, Cursor.credit, Cursor.position, Cursor.kind, Token.marks, add_comm]

theorem neutral_peek : Neutral S peek := by
  refine neutral_get.skip fun c => ?_
  split <;> exact .pure rfl trivial

theorem neutral_position : Neutral S position := by
  refine neutral_get.skip fun c => ?_
  split <;> exact .pure rfl trivial

theorem neutral_onNewLine : Neutral S onNewLine := by
  refine neutral_get.skip fun c => ?_
  split <;> exact .pure rfl trivial

theorem neutral_budget : Neutral S budget := neutral_get.skip fun _ => .pure rfl trivial

theorem neutral_advance : Neutral S advance := by
  intro c hc a c' hrun
  by_cases h : c.kind = .eof
  · cases (run_advance_of_eof h).symm.trans hrun
    exact ⟨.refl c 0, hc, trivial⟩
  · exact (allotsAt_advance h hc a c' hrun).imp_left (·.waste ⟨rfl, zero_le⟩)

theorem allots_fail (cause : Cause) : Allots S held (fail cause : Parse α) f P :=
  neutral_position.skip fun _ => .throw _

theorem neutral_isNext (kind : TokenKind) : Neutral S (isNext kind) :=
  neutral_peek.skip fun _ => .pure rfl trivial

theorem neutral_accept (kind : TokenKind) : Neutral S (accept kind) := by
  refine (neutral_isNext kind).skip fun b => ?_
  split
  · exact neutral_advance.skip fun _ => .pure rfl trivial
  · exact .pure rfl trivial

theorem neutral_expect (kind : TokenKind) : Neutral S (expect kind) := by
  refine (neutral_accept kind).skip fun b => ?_
  split
  · exact .pure rfl trivial
  · exact allots_fail _

/-- The numbers of a list are those of its items. -/
structure Sums (f : α → Tally) (total : List α → Tally) : Prop where
  nil : total [] = 0
  cons (a : α) (as : List α) : total (a :: as) = f a + total as

section Loops

variable {item : Parse α} {total : List α → Tally}

theorem allots_collect {item : Parse (Option α)} (hsum : Sums f total)
    (hitem : Allots S 0 item (fun o => o.elim 0 f) fun o => ∀ a ∈ o, P a) (fuel : Nat) :
    Allots S 0 (collect item fuel) total fun as => ∀ a ∈ as, P a := by
  induction fuel with
  | zero => exact .pure hsum.nil.symm (by simp)
  | succ fuel ih =>
    refine hitem.step fun o ho => ?_
    cases o with
    | none => exact .pure (by simp [hsum.nil]) (by simp)
    | some a =>
      refine ih.step fun as has => .pure (by simp [hsum.cons]) ?_
      exact List.forall_mem_cons.2 ⟨ho a rfl, has⟩

/-- An item and the others behind it. -/
theorem Allots.items {build : β → α} {item : Parse β} {others : Parse (List α)} (hsum : Sums f total)
    (hitem : Allots S 0 item (fun b => f (build b)) fun b => P (build b))
    (hothers : Allots S 0 others total fun as => ∀ a ∈ as, P a) :
    Allots S 0 (do
      let b ← item
      if ← accept (.punct .comma) then return build b :: (← others) else return [build b]) total
      fun as => ∀ a ∈ as, P a := by
  refine hitem.step fun b hb => (neutral_accept _).skip fun found => ?_
  split
  · refine hothers.step fun as has => .pure (by simp [hsum.cons]) ?_
    exact List.forall_mem_cons.2 ⟨hb, has⟩
  · exact .pure (by simp [hsum.cons, hsum.nil]) (by simpa using hb)

theorem allots_separated (hsum : Sums f total) (hitem : Allots S 0 item f P) (fuel : Nat) :
    Allots S 0 (separated item fuel) total fun as => ∀ a ∈ as, P a := by
  induction fuel with
  | zero => exact .pure hsum.nil.symm (by simp)
  | succ fuel ih => exact .items hsum hitem ih

theorem allots_commaList (close : TokenKind) (hsum : Sums f total) (hitem : Allots S 0 item f P)
    (fuel : Nat) : Allots S 0 (commaList close item fuel) total fun as => ∀ a ∈ as, P a := by
  induction fuel with
  | zero => exact .pure hsum.nil.symm (by simp)
  | succ fuel ih =>
    refine (neutral_isNext close).skip fun b => ?_
    split
    · exact .pure hsum.nil.symm (by simp)
    · exact .items hsum hitem ih

/-- A hole has no number. -/
theorem allots_holeyList {total : List (Option α) → Tally} (close : TokenKind)
    (hsum : Sums (fun o => o.elim 0 f) total) (hitem : Allots S 0 item f P) (fuel : Nat) :
    Allots S 0 (holeyList close item fuel) total fun os => ∀ o ∈ os, ∀ a ∈ o, P a := by
  induction fuel with
  | zero => exact .pure hsum.nil.symm (by simp)
  | succ fuel ih =>
    refine (neutral_isNext close).skip fun b => ?_
    split
    · exact .pure hsum.nil.symm (by simp)
    · refine (neutral_accept _).skip fun b => ?_
      split
      · refine ih.step fun os hos => .pure (by simp [hsum.cons]) ?_
        exact List.forall_mem_cons.2 ⟨by simp, hos⟩
      · exact .items hsum (by simpa using hitem) ih

theorem allots_extend {next : α → Parse (Option α)} (hnext : ∀ a, P a →
      Allots S (f a) (next a) (fun o => o.elim (f a) f) fun o => ∀ b ∈ o, P b)
    (fuel : Nat) {a : α} (ha : P a) : Allots S (f a) (extend next fuel a) f P := by
  induction fuel generalizing a with
  | zero => exact .pure rfl ha
  | succ fuel ih =>
    refine (hnext a ha).bind fun o ho => ?_
    cases o with
    | none => exact .pure rfl ha
    | some b => exact ih (ho b rfl)

end Loops

end Parse
end TagCheck
