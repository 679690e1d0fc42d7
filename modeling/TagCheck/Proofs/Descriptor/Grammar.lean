import TagCheck.Descriptor.Tree

/-! The grammar of descriptors, and what a tree says of the array shape it denotes. Main statement:
reading the tokens one by one on a stack of open brackets accepts exactly the sentences of the
grammar and yields their only tree. -/
namespace TagCheck
namespace Descriptor

mutual

/-- A primary with array brackets behind it, each around all that stands on its left. -/
inductive IsShape : List Token → Tree → Prop
  | brackets {ts : List Token} {t : Tree} (h : IsPrimary ts t) (bs : List Bool) :
    IsShape (ts ++ bs.map .arrayOf) (bs.foldl .arrayOf t)

/-- A name, a shape in parentheses, which leave no trace, or a tuple of shapes. -/
inductive IsPrimary : List Token → Tree → Prop
  | name (s : String) : IsPrimary [.name s] (.name s)
  | group {ts : List Token} {t : Tree} (h : IsShape ts t) :
    IsPrimary (.openGroup :: ts ++ [.closeGroup]) t
  | tuple {ts : List Token} {members : List Tree} (h : IsShapes ts members) :
    IsPrimary (.openTuple :: ts ++ [.closeTuple]) (.tuple members)

inductive IsShapes : List Token → List Tree → Prop
  | one {ts : List Token} {t : Tree} (h : IsShape ts t) : IsShapes ts [t]
  | more {ts us : List Token} {t : Tree} {members : List Tree} (h : IsShape ts t)
    (hs : IsShapes us members) : IsShapes (ts ++ .comma :: us) (t :: members)

end

theorem IsPrimary.isShape {ts : List Token} {t : Tree} (h : IsPrimary ts t) : IsShape ts t := by
  simpa using IsShape.brackets h []

theorem IsShape.arrayOf {ts : List Token} {t : Tree} (h : IsShape ts t) (nonEmpty : Bool) :
    IsShape (ts ++ [Token.arrayOf nonEmpty]) (.arrayOf t nonEmpty) := by
  obtain ⟨h, bs⟩ := h
  simpa using IsShape.brackets h (bs ++ [nonEmpty])

/-- The tokens that led to a context. In an open tuple they are such that any members that may
follow complete a list of members. -/
def Context.Reads : Context → List Token → Prop
  | .root, ts => ts = []
  | .group _ outer, ts => ∃ before, outer.Reads before ∧ ts = before ++ [.openGroup]
  | .tuple _ members outer, ts => ∃ before inside, outer.Reads before ∧
    ts = before ++ .openTuple :: inside ∧
    ∀ us rest, IsShapes us rest → IsShapes (inside ++ us) (members ++ rest)

/-- The tokens that led to the progress made: to its context, and on to the current shape. -/
def Progress.Reads : Progress → List Token → Prop
  | ⟨c, none⟩, ts => c.Reads ts
  | ⟨c, some t⟩, ts => ∃ before us, c.Reads before ∧ IsShape us t ∧ ts = before ++ us

theorem Progress.Reads.ofPrimary {c : Context} {before us : List Token} {t : Tree}
    (hc : c.Reads before) (h : IsPrimary us t) : Progress.Reads ⟨c, some t⟩ (before ++ us) :=
  ⟨before, us, hc, h.isShape, rfl⟩

theorem Progress.Reads.step {p p' : Progress} {ts : List Token} {token : Token} {offset : Nat}
    (h : p.Reads ts) (hstep : p.step (token, offset) = .ok p') : p'.Reads (ts ++ [token]) := by
  obtain ⟨c, current⟩ := p
  cases token with
  | name s =>
    cases current with
    | some t => simp [Progress.step] at hstep
    | none =>
      obtain rfl : _ = p' := Except.ok.inj hstep
      exact .ofPrimary h (.name s)
  | arrayOf nonEmpty =>
    cases current with
    | none => simp [Progress.step] at hstep
    | some t =>
      obtain rfl : _ = p' := Except.ok.inj hstep
      obtain ⟨before, us, hc, ht, rfl⟩ := h
      exact ⟨before, us ++ [Token.arrayOf nonEmpty], hc, ht.arrayOf nonEmpty, by simp⟩
  | openGroup =>
    cases current with
    | some t => simp [Progress.step] at hstep
    | none =>
      obtain rfl : _ = p' := Except.ok.inj hstep
      exact ⟨ts, h, rfl⟩
  | openTuple =>
    cases current with
    | some t => simp [Progress.step] at hstep
    | none =>
      obtain rfl : _ = p' := Except.ok.inj hstep
      exact ⟨ts, [], h, rfl, fun us rest hs => hs⟩
  | comma =>
    cases c with
    | tuple opened members outer =>
      cases current with
      | none => simp [Progress.step] at hstep
      | some t =>
        obtain rfl : _ = p' := Except.ok.inj hstep
        obtain ⟨_, us, ⟨before, inside, hc, rfl, hin⟩, ht, rfl⟩ := h
        refine ⟨before, inside ++ us ++ [Token.comma], hc, by simp, fun vs rest hs => ?_⟩
        simpa using hin _ _ (.more ht hs)
    | _ => simp [Progress.step] at hstep
  | closeGroup =>
    cases c with
    | group opened outer =>
      cases current with
      | none => simp [Progress.step] at hstep
      | some t =>
        obtain rfl : _ = p' := Except.ok.inj hstep
        obtain ⟨_, us, ⟨before, hc, rfl⟩, ht, rfl⟩ := h
        simpa using Progress.Reads.ofPrimary hc (.group ht)
    | _ => simp [Progress.step] at hstep
  | closeTuple =>
    cases c with
    | tuple opened members outer =>
      cases current with
      | none => cases members <;> simp [Progress.step] at hstep
      | some t =>
        obtain rfl : _ = p' := Except.ok.inj hstep
        obtain ⟨_, us, ⟨before, inside, hc, rfl, hin⟩, ht, rfl⟩ := h
        simpa using Progress.Reads.ofPrimary hc (.tuple (hin _ _ (.one ht)))
    | _ => simp [Progress.step] at hstep

theorem bind_eq_ok_iff {α β : Type} {x : Except Error α} {f : α → Except Error β} {b : β} :
    x >>= f = .ok b ↔ ∃ a, x = .ok a ∧ f a = .ok b := by
  cases x with
  | error e => simp [bind, Except.bind]
  | ok a => simp [bind, Except.bind]

/-- What a step keeps, a run keeps. -/
theorem Progress.Reads.run {p p' : Progress} {ts : List Token} {tokens : List (Token × Nat)}
    (h : p.Reads ts) (hrun : tokens.foldlM Progress.step p = .ok p') :
    p'.Reads (ts ++ tokens.map Prod.fst) := by
  induction tokens generalizing p ts with
  | nil =>
    obtain rfl : p = p' := Except.ok.inj hrun
    simpa using h
  | cons token tokens ih =>
    rw [List.foldlM_cons, bind_eq_ok_iff] at hrun
    obtain ⟨q, hq, hrun⟩ := hrun
    simpa using ih (h.step hq) hrun

theorem isShape_of_treeOfTokens {tokens : List (Token × Nat)} {t : Tree}
    (h : treeOfTokens tokens = .ok t) : IsShape (tokens.map Prod.fst) t := by
  obtain ⟨⟨c, current⟩, hrun, hfinish⟩ := bind_eq_ok_iff.1 h
  have hstart : Progress.Reads ⟨.root, none⟩ [] := rfl
  have hreads := hstart.run hrun
  cases c with
  | root =>
    cases current with
    | none => simp [Progress.finish] at hfinish
    | some t' =>
      obtain rfl : t' = t := Except.ok.inj hfinish
      obtain ⟨before, us, rfl, ht, heq⟩ := hreads
      have hus : tokens.map Prod.fst = us := by simpa using heq
      rw [hus]
      exact ht
  | _ => simp [Progress.finish] at hfinish

/-- The tokens lead from one state of progress to another, at whatever offsets they stand. -/
def Progress.Leads (p : Progress) (ts : List Token) (q : Progress) : Prop :=
  ∀ tokens : List (Token × Nat), tokens.map Prod.fst = ts →
    tokens.foldlM Progress.step p = .ok q

namespace Progress.Leads

theorem nil {p : Progress} : p.Leads [] p := by
  intro tokens htokens
  obtain rfl : tokens = [] := List.map_eq_nil_iff.1 htokens
  rfl

theorem cons {p q : Progress} {token : Token} {ts : List Token}
    (h : ∀ offset, ∃ p', p.step (token, offset) = .ok p' ∧ p'.Leads ts q) :
    p.Leads (token :: ts) q := by
  intro tokens htokens
  obtain ⟨⟨_, offset⟩, rest, rfl, rfl, hrest⟩ := List.map_eq_cons_iff.1 htokens
  obtain ⟨p', hstep, hlead⟩ := h offset
  rw [List.foldlM_cons, bind_eq_ok_iff]
  exact ⟨p', hstep, hlead rest hrest⟩

theorem append {p q r : Progress} {ts us : List Token} (h : p.Leads ts q) (h' : q.Leads us r) :
    p.Leads (ts ++ us) r := by
  intro tokens htokens
  obtain ⟨front, back, rfl, hfront, hback⟩ := List.map_eq_append_iff.1 htokens
  rw [List.foldlM_append, bind_eq_ok_iff]
  exact ⟨q, h front hfront, h' back hback⟩

theorem brackets (c : Context) (t : Tree) (bs : List Bool) :
    Leads ⟨c, some t⟩ (bs.map .arrayOf) ⟨c, some (bs.foldl .arrayOf t)⟩ := by
  induction bs generalizing t with
  | nil => exact .nil
  | cons b bs ih => exact .cons fun _ => ⟨_, rfl, ih (.arrayOf t b)⟩

end Progress.Leads

mutual

/-- Where a shape may begin, its tokens complete it and leave nothing open. -/
theorem IsShape.leads {ts : List Token} {t : Tree} : IsShape ts t → (c : Context) →
    Progress.Leads ⟨c, none⟩ ts ⟨c, some t⟩
  | .brackets h bs, c => (IsPrimary.leads h c).append (.brackets c _ bs)

theorem IsPrimary.leads {ts : List Token} {t : Tree} : IsPrimary ts t → (c : Context) →
    Progress.Leads ⟨c, none⟩ ts ⟨c, some t⟩
  | .name s, c => .cons fun _ => ⟨⟨c, some (.name s)⟩, rfl, .nil⟩
  | .group h, c => .cons fun offset => by
    have hclose : Progress.Leads ⟨.group offset c, some t⟩ [.closeGroup] ⟨c, some t⟩ :=
      .cons fun _ => ⟨_, rfl, .nil⟩
    exact ⟨⟨.group offset c, none⟩, rfl, (IsShape.leads h (.group offset c)).append hclose⟩
  | .tuple h, c => .cons fun offset =>
    ⟨⟨.tuple offset [] c, none⟩, rfl, IsShapes.leads h offset [] c⟩

/-- In an open tuple, the members that are left complete it along with those before them. -/
theorem IsShapes.leads {ts : List Token} {members : List Tree} : IsShapes ts members →
    (opened : Nat) → (before : List Tree) → (outer : Context) →
    Progress.Leads ⟨.tuple opened before outer, none⟩ (ts ++ [Token.closeTuple])
      ⟨outer, some (.tuple (before ++ members))⟩
  | .one h, opened, before, outer =>
    (IsShape.leads h (.tuple opened before outer)).append (.cons fun _ => ⟨_, rfl, .nil⟩)
  | @IsShapes.more ts us t members h hs, opened, before, outer => by
    have hrest := IsShapes.leads hs opened (before ++ [t]) outer
    have hcomma : Progress.Leads ⟨.tuple opened before outer, some t⟩
        (.comma :: (us ++ [Token.closeTuple])) ⟨outer, some (.tuple (before ++ [t] ++ members))⟩ :=
      .cons fun _ => ⟨_, rfl, hrest⟩
    simpa using (IsShape.leads h (.tuple opened before outer)).append hcomma

end

theorem treeOfTokens_eq_ok_iff {tokens : List (Token × Nat)} {t : Tree} :
    treeOfTokens tokens = .ok t ↔ IsShape (tokens.map Prod.fst) t := by
  refine ⟨isShape_of_treeOfTokens, fun h => ?_⟩
  exact bind_eq_ok_iff.2 ⟨⟨.root, some t⟩, h.leads .root tokens rfl, rfl⟩

/-- The reader is a function, so the grammar is unambiguous. -/
theorem IsShape.unique {ts : List Token} {t t' : Tree} (h : IsShape ts t) (h' : IsShape ts t') :
    t = t' := by
  have hts : (ts.map fun token => (token, 0)).map Prod.fst = ts := by
    simp [Function.comp_def]
  rw [← hts, ← treeOfTokens_eq_ok_iff] at h h'
  exact Except.ok.inj (h.symm.trans h')

mutual

/-- What a tree says of an array shape: brackets around a name make an array of such elements,
brackets around anything else an array of arrays, and a tuple has no marker of its own. -/
inductive Tree.Denotes : Tree → ArrayShape → Prop
  | simple (s : String) (nonEmpty : Bool) : Denotes (.arrayOf (.name s) nonEmpty)
    ⟨.simple (.ofName s), nonEmpty, (Tree.arrayOf (.name s) nonEmpty).text⟩
  | nested {t : Tree} {shape : ArrayShape} (h : Denotes t shape) (nonEmpty : Bool) :
    Denotes (.arrayOf t nonEmpty) ⟨.nested shape, nonEmpty, (Tree.arrayOf t nonEmpty).text⟩
  | tuple {ts : List Tree} {members : List Member} (h : DenoteMembers ts members) :
    Denotes (.tuple ts) ⟨.tuple members, false, (Tree.tuple ts).text⟩

/-- A name is an element type in its place, and all else an array. -/
inductive Tree.DenoteMembers : List Tree → List Member → Prop
  | nil : DenoteMembers [] []
  | name (s : String) {ts : List Tree} {members : List Member} (h : DenoteMembers ts members) :
    DenoteMembers (.name s :: ts) (.elem (.ofName s) :: members)
  | shape {t : Tree} {shape : ArrayShape} {ts : List Tree} {members : List Member}
    (ht : Denotes t shape) (h : DenoteMembers ts members) :
    DenoteMembers (t :: ts) (.shape shape :: members)

end

mutual

theorem Tree.Denotes.toMember_eq {t : Tree} {shape : ArrayShape} :
    t.Denotes shape → t.toMember = .shape shape
  | .simple s nonEmpty => by simp [Tree.toMember, contentsOf]
  | .nested h nonEmpty => by simp [Tree.toMember, Tree.Denotes.toMember_eq h, contentsOf]
  | .tuple h => by simp [Tree.toMember, Tree.DenoteMembers.toMembers_eq h]

theorem Tree.DenoteMembers.toMembers_eq {ts : List Tree} {members : List Member} :
    Tree.DenoteMembers ts members → Tree.toMembers ts = members
  | .nil => by simp [Tree.toMembers]
  | .name s h => by
    simp [Tree.toMembers, Tree.toMember, Tree.DenoteMembers.toMembers_eq h]
  | .shape ht h => by
    simp [Tree.toMembers, Tree.Denotes.toMember_eq ht, Tree.DenoteMembers.toMembers_eq h]

end

theorem Tree.eq_name_of_toMember {t : Tree} {e : ElemName} (h : t.toMember = .elem e) :
    ∃ s, t = .name s ∧ e = .ofName s := by
  cases t with
  | name s => exact ⟨s, rfl, (Member.elem.inj (by simpa [Tree.toMember] using h)).symm⟩
  | _ => simp [Tree.toMember] at h

mutual

theorem Tree.denotes_of_toMember : (t : Tree) → {shape : ArrayShape} →
    t.toMember = .shape shape → t.Denotes shape
  | .name s, shape, h => by simp [Tree.toMember] at h
  | .arrayOf inner nonEmpty, shape, h => by
    rw [Tree.toMember] at h
    obtain rfl := Member.shape.inj h
    cases hinner : inner.toMember with
    | elem e =>
      obtain ⟨s, rfl, rfl⟩ := Tree.eq_name_of_toMember hinner
      exact .simple s nonEmpty
    | shape shape => exact .nested (Tree.denotes_of_toMember inner hinner) nonEmpty
  | .tuple ts, shape, h => by
    rw [Tree.toMember] at h
    obtain rfl := Member.shape.inj h
    exact .tuple (Tree.denoteMembers_toMembers ts)

theorem Tree.denoteMembers_toMembers : (ts : List Tree) → Tree.DenoteMembers ts (Tree.toMembers ts)
  | [] => by
    rw [Tree.toMembers]
    exact .nil
  | t :: ts => by
    rw [Tree.toMembers]
    cases ht : t.toMember with
    | elem e =>
      obtain ⟨s, rfl, rfl⟩ := Tree.eq_name_of_toMember ht
      exact .name s (Tree.denoteMembers_toMembers ts)
    | shape shape =>
      exact .shape (Tree.denotes_of_toMember t ht) (Tree.denoteMembers_toMembers ts)

end

theorem Tree.toShape?_eq_some_iff {t : Tree} {shape : ArrayShape} :
    t.toShape? = some shape ↔ t.Denotes shape := by
  have htoShape : t.toShape? = some shape ↔ t.toMember = .shape shape := by
    rw [Tree.toShape?]
    cases t.toMember <;> simp
  exact htoShape.trans ⟨t.denotes_of_toMember, Tree.Denotes.toMember_eq⟩

theorem Tree.exists_denotes_iff {t : Tree} : (∃ shape, t.Denotes shape) ↔ ∀ s, t ≠ .name s := by
  constructor
  · rintro ⟨shape, h⟩ s rfl
    cases h
  · intro hname
    cases ht : t.toMember with
    | elem e =>
      obtain ⟨s, hs, -⟩ := Tree.eq_name_of_toMember ht
      exact absurd hs (hname s)
    | shape shape => exact ⟨shape, t.denotes_of_toMember ht⟩

theorem parseTree_eq_ok_iff {s : String} {t : Tree} :
    parseTree s = .ok t ↔ ∃ ts, tokens s = .ok ts ∧ IsShape (ts.map Prod.fst) t := by
  simp only [parseTree, bind_eq_ok_iff, treeOfTokens_eq_ok_iff]

theorem parse_eq_ok_iff {s : String} {shape : ArrayShape} :
    parse s = .ok shape ↔ ∃ t, parseTree s = .ok t ∧ t.Denotes shape := by
  rw [parse, bind_eq_ok_iff]
  refine exists_congr fun t => and_congr_right fun _ => ?_
  rw [← Tree.toShape?_eq_some_iff]
  cases t.toShape? <;> simp [pure, Except.pure, throw, throwThe, MonadExceptOf.throw]

/-- A descriptor is read exactly when its tokens are a sentence of the grammar, as its only tree. It
denotes an array shape exactly when that tree is no bare name. -/
theorem parse_grammar (s : String) :
    (∀ t, parseTree s = .ok t ↔ ∃ ts, tokens s = .ok ts ∧ IsShape (ts.map Prod.fst) t) ∧
    (∀ ts t t', IsShape ts t → IsShape ts t' → t = t') ∧
    (∀ shape, parse s = .ok shape ↔
      ∃ ts t, tokens s = .ok ts ∧ IsShape (ts.map Prod.fst) t ∧ t.Denotes shape) ∧
    ((∃ shape, parse s = .ok shape) ↔
      ∃ ts t, tokens s = .ok ts ∧ IsShape (ts.map Prod.fst) t ∧ ∀ n, t ≠ .name n) := by
  have hparse : ∀ shape, parse s = .ok shape ↔
      ∃ ts t, tokens s = .ok ts ∧ IsShape (ts.map Prod.fst) t ∧ t.Denotes shape := by
    intro shape
    rw [parse_eq_ok_iff]
    constructor
    · rintro ⟨t, ht, hden⟩
      obtain ⟨ts, hts, hshape⟩ := parseTree_eq_ok_iff.1 ht
      exact ⟨ts, t, hts, hshape, hden⟩
    · rintro ⟨ts, t, hts, hshape, hden⟩
      exact ⟨t, parseTree_eq_ok_iff.2 ⟨ts, hts, hshape⟩, hden⟩
  refine ⟨fun t => parseTree_eq_ok_iff, fun ts t t' h h' => h.unique h', hparse, ?_⟩
  constructor
  · rintro ⟨shape, h⟩
    obtain ⟨ts, t, hts, hshape, hden⟩ := (hparse shape).1 h
    exact ⟨ts, t, hts, hshape, Tree.exists_denotes_iff.1 ⟨shape, hden⟩⟩
  · rintro ⟨ts, t, hts, hshape, hname⟩
    obtain ⟨shape, hden⟩ := Tree.exists_denotes_iff.2 hname
    exact ⟨shape, (hparse shape).2 ⟨ts, t, hts, hshape, hden⟩⟩

end Descriptor
end TagCheck
