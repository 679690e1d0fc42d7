import TagCheck.Proofs.Check.FunctionSites

/-! The parameters in a function shape. Once the parameters of a function have been noted, its shape
has a slot for each of them up to the one that takes the rest, in their order, and it stays so for
the rest of the run: no other rule adds or removes a slot, and parameters that are noted again find
their slots there. -/
namespace TagCheck

def Pattern.slotCount (ps : List Pattern) : Nat := (ps.takeWhile fun p => !p.isRest).length

namespace Pattern

variable {p : Pattern} {ps : List Pattern}

theorem slotCount_cons_of_isRest (h : p.isRest = true) (ps : List Pattern) :
    slotCount (p :: ps) = 0 := by
  simp [slotCount, h]

theorem slotCount_cons (h : p.isRest = false) : slotCount (p :: ps) = slotCount ps + 1 := by
  simp [slotCount, h]

end Pattern

namespace FuncShape

/-- The two have the same number of parameters, and both of them or none takes the rest. -/
structure SameSlots (g g' : FuncShape) : Prop where
  length : g'.params.length = g.params.length
  hasRest : g'.hasRest = g.hasRest

/-- There is a slot for each parameter before the one that takes the rest. -/
structure Lists (g : FuncShape) (ps : List Pattern) : Prop where
  length : g.params.length = Pattern.slotCount ps
  hasRest : g.hasRest = ps.any Pattern.isRest

variable {g g' : FuncShape}

theorem SameSlots.trans (h : g.SameSlots g') {g'' : FuncShape} (h' : g'.SameSlots g'') :
    g.SameSlots g'' :=
  ⟨h'.length.trans h.length, h'.hasRest.trans h.hasRest⟩

theorem SameSlots.lists {ps : List Pattern} (h : g.SameSlots g') (hg : g.Lists ps) : g'.Lists ps :=
  ⟨h.length.trans hg.length, h.hasRest.trans hg.hasRest⟩

theorem Agrees.sameSlots (h : g.Agrees g') : g.SameSlots g' := ⟨h.length, h.hasRest⟩

theorem SameParams.sameSlots (h : g.SameParams g') : g.SameSlots g' :=
  ⟨by rw [h.params], h.hasRest⟩

/-- A parameter is noted in its slot, or in a new one after the others. -/
theorem setParam_spec (g : FuncShape) {idx : Nat} (hidx : idx ≤ g.params.length) (ty : Ty)
    (shape : Option Shape) :
    (g.setParam idx ty shape).params.length = max g.params.length (idx + 1) ∧
      (g.setParam idx ty shape).hasRest = g.hasRest ∧
      (∀ j < idx, (g.setParam idx ty shape).params[j]? = g.params[j]?) ∧
      ∃ slot, (g.setParam idx ty shape).params[idx]? = some slot ∧ slot.ty.tag = ty.tag ∧
        ∀ x ∈ shape, slot.shape = some x := by
  unfold setParam
  by_cases h : idx < g.params.length
  · have hget : g.params[idx]? = some (g.params[idx]) := List.getElem?_eq_getElem h
    simp only [if_pos h, List.length_modify, List.getElem?_modify_eq, hget]
    refine ⟨by omega, trivial, fun j hj => ?_, _, rfl, ?_, ?_⟩
    · rw [List.getElem?_modify_ne _ _ (Nat.ne_of_gt hj)]
    · dsimp only
      split
      · next hagrees =>
        rw [Tag.agrees, Bool.and_eq_true, beq_iff_eq] at hagrees
        exact hagrees.2
      · rfl
    · rintro x ⟨⟩
      rfl
  · have hlength : g.params.length = idx := by omega
    simp only [if_neg h, List.length_append, List.length_singleton]
    refine ⟨by omega, trivial, fun j hj => ?_, ⟨ty, shape⟩, ?_, rfl, fun x hx => hx⟩
    · exact List.getElem?_append_left (by omega)
    · rw [List.getElem?_append_right (by omega), hlength, Nat.sub_self]
      rfl

end FuncShape

/-- The slot knows what is known of the parameter: the tag of its type, and its shape. -/
def Slot.Reflects (s : Store) (p : Pattern) (slot : Slot) : Prop :=
  ∀ ty ∈ (s.ty? (.node p.id)).filter Ty.isKnown,
    slot.ty.tag = ty.tag ∧ ∀ x ∈ s.shape? (.node p.id), slot.shape = some x

theorem Slot.reflects_congr {s t : Store} (h : ∀ n, t.cell (.node n) = s.cell (.node n)) :
    Slot.Reflects t = Slot.Reflects s := by
  funext p slot
  simp only [Reflects, Store.ty?, Store.shape?, h]

/-- The types in the store tell which of the parameters takes the rest. -/
def Store.TellsRest (s : Store) (ps : List Pattern) : Prop :=
  ∀ p ∈ ps, ((s.ty? (.node p.id)).filter Ty.isKnown).any Ty.isRest = p.isRest

namespace FuncShape

/-- What becomes of a function shape when parameters are noted in the slots from `idx` on. -/
structure Noted (s : Store) (idx : Nat) (ps : List Pattern) (g g' : FuncShape) : Prop where
  length : g'.params.length = idx + Pattern.slotCount ps
  hasRest : g'.hasRest = (g.hasRest || ps.any Pattern.isRest)
  before (j : Nat) (hj : j < idx) : g'.params[j]? = g.params[j]?
  slots (j : Nat) (hj : j < Pattern.slotCount ps) (p : Pattern) (hp : ps[j]? = some p) :
    ∃ slot, g'.params[idx + j]? = some slot ∧ slot.Reflects s p

/-- There is a slot for each of the parameters that are noted from `idx` on. -/
structure Full (idx : Nat) (ps : List Pattern) (g : FuncShape) : Prop where
  length : g.params.length = idx + Pattern.slotCount ps
  hasRest : ps.any Pattern.isRest = true → g.hasRest = true

/-- The slot of one more parameter is `idx`, as it is at hand or as it is added. -/
structure Gains (s : Store) (idx : Nat) (p : Pattern) (g g' : FuncShape) : Prop where
  length : g'.params.length = max g.params.length (idx + 1)
  hasRest : g'.hasRest = g.hasRest
  before (j : Nat) (hj : j < idx) : g'.params[j]? = g.params[j]?
  slot : ∃ slot, g'.params[idx]? = some slot ∧ slot.Reflects s p

variable {s : Store} {idx : Nat} {p : Pattern} {ps : List Pattern} {g g₁ g' : FuncShape}

theorem Noted.cons (hp : p.isRest = false) (h : Gains s idx p g g₁) (h' : Noted s (idx + 1) ps g₁ g') :
    Noted s idx (p :: ps) g g' where
  length := by
    rw [h'.length, Pattern.slotCount_cons hp]
    omega
  hasRest := by simp [h'.hasRest, h.hasRest, hp]
  before j hj := by rw [h'.before j (by omega), h.before j hj]
  slots j hj q hq := by
    rw [Pattern.slotCount_cons hp] at hj
    cases j with
    | zero =>
      obtain rfl : p = q := Option.some.inj hq
      rw [Nat.add_zero, h'.before idx (by omega)]
      exact h.slot
    | succ j =>
      obtain ⟨slot, hslot, hreflects⟩ := h'.slots j (by omega) q hq
      have hplace : idx + (j + 1) = idx + 1 + j := by omega
      exact ⟨slot, by rw [hplace, hslot], hreflects⟩

theorem Full.cons (hp : p.isRest = false) (h : Gains s idx p g g₁) (hg : g.Full idx (p :: ps)) :
    g₁.Full (idx + 1) ps := by
  have hlength := hg.length
  rw [Pattern.slotCount_cons hp] at hlength
  refine ⟨?_, fun hany => ?_⟩
  · rw [h.length]
    omega
  · rw [h.hasRest]
    exact hg.hasRest (by rw [List.any_cons, hany, Bool.or_true])

theorem Gains.setParam (hidx : idx ≤ g.params.length) {ty : Ty}
    (hty : (s.ty? (.node p.id)).filter Ty.isKnown = some ty) :
    Gains s idx p g (g.setParam idx ty (s.shape? (.node p.id))) := by
  obtain ⟨hlength, hhasRest, hbefore, slot, hslot, htag, hshape⟩ :=
    g.setParam_spec hidx ty (s.shape? (.node p.id))
  refine ⟨hlength, hhasRest, hbefore, slot, hslot, fun ty' hty' => ?_⟩
  obtain rfl := Option.some.inj (hty.symm.trans hty')
  exact ⟨htag, hshape⟩

/-- Nothing is known of the parameter, so any slot will do. -/
theorem Gains.keep (hidx : idx < g.params.length)
    (hty : (s.ty? (.node p.id)).filter Ty.isKnown = none) : Gains s idx p g g := by
  refine ⟨by omega, rfl, fun _ _ => rfl, _, List.getElem?_eq_getElem hidx, fun ty hty' => ?_⟩
  rw [hty] at hty'
  cases hty'

theorem Gains.add (hidx : g.params.length = idx)
    (hty : (s.ty? (.node p.id)).filter Ty.isKnown = none) :
    Gains s idx p g { g with params := g.params ++ [⟨.unknown, none⟩] } where
  length := by
    simp only [List.length_append, List.length_singleton]
    omega
  hasRest := rfl
  before j hj := List.getElem?_append_left (by omega)
  slot := by
    refine ⟨⟨.unknown, none⟩, ?_, fun ty hty' => ?_⟩
    · rw [List.getElem?_append_right (by omega), hidx, Nat.sub_self]
      rfl
    · rw [hty] at hty'
      cases hty'

end FuncShape

def Write.KeepsSlots (id : FuncShapeId) (s : CheckState) (w : Write) : Prop :=
  ∀ h, w = .func id h → ∀ g, s.store.arena.get? id = some g → g.SameSlots (h g)

theorem Write.keepsSlots_of_ne {id : FuncShapeId} {s : CheckState} {w : Write}
    (h : ∀ f, w ≠ .func id f) : w.KeepsSlots id s :=
  fun f hw => absurd hw (h f)

theorem Write.keepsSlots_func {id : FuncShapeId} {s : CheckState} {g : FuncShape}
    (hg : s.store.arena.get? id = some g) {f : FuncShape → FuncShape} (hf : g.SameSlots (f g)) :
    (Write.func id f).KeepsSlots id s := by
  rintro f' ⟨⟩ g' hg'
  rwa [← Option.some.inj (hg.symm.trans hg')]

namespace Check

variable {env : CheckEnv} {id : FuncShapeId}

theorem ensures_knownType? {G : CheckState → Write → Prop} {Q : Option Ty → CheckState → Prop}
    {t : Target} {s : CheckState} :
    (knownType? t).Ensures G Q s ↔ Q ((s.store.ty? t).filter Ty.isKnown) s := Iff.rfl

/-- Parameters are noted one after the other in the slots from `idx` on. Where these are there
already no write adds one. -/
theorem ensures_parametersFrom (ps : List Pattern) {idx : Nat} {s : CheckState} {g : FuncShape}
    (hg : s.store.arena.get? id = some g) (hlow : idx ≤ g.params.length)
    (hhigh : g.params.length ≤ idx + Pattern.slotCount ps) (hrest : s.store.TellsRest ps) :
    (parametersFrom env id idx ps).Ensures (fun t w => g.Full idx ps → w.KeepsSlots id t)
      (fun _ t => t.store.nodes = s.store.nodes ∧
        ∃ g', t.store.arena.get? id = some g' ∧ g.Noted s.store idx ps g') s := by
  induction ps generalizing idx s g with
  | nil =>
    have hlength : g.params.length = idx := by
      simp only [Pattern.slotCount, List.takeWhile_nil, List.length_nil] at hhigh
      omega
    exact ⟨rfl, g, hg, by simpa [Pattern.slotCount] using hlength, by simp, fun _ _ => rfl, by simp⟩
  | cons p ps ih =>
    -- A parameter with a slot of its own: the others are noted after it.
    have hnext {s₁ : CheckState} {g₁ : FuncShape} (hp : p.isRest = false)
        (hg₁ : s₁.store.arena.get? id = some g₁) (hgains : g.Gains s.store idx p g₁)
        (hnodes : s₁.store.nodes = s.store.nodes) :
        (parametersFrom env id (idx + 1) ps).Ensures
          (fun t w => g.Full idx (p :: ps) → w.KeepsSlots id t)
          (fun _ t => t.store.nodes = s.store.nodes ∧
            ∃ g', t.store.arena.get? id = some g' ∧ g.Noted s.store idx (p :: ps) g') s₁ := by
      have hcells : ∀ n, s₁.store.cell (.node n) = s.store.cell (.node n) := by
        intro n
        simp only [Store.cell, hnodes]
      have hrest₁ : s₁.store.TellsRest ps := by
        intro q hq
        rw [Store.ty?, hcells]
        exact hrest q (List.mem_cons_of_mem p hq)
      have hlength := hgains.length
      rw [Pattern.slotCount_cons hp] at hhigh
      refine (ih hg₁ (by omega) (by omega) hrest₁).mono (fun t w hw hfull => ?_) ?_
      · exact hw (.cons hp hgains hfull)
      · rintro _ t ⟨hnodes', g', hg', hnoted⟩
        refine ⟨hnodes'.trans hnodes, g', hg',
          .cons hp hgains ⟨hnoted.length, hnoted.hasRest, hnoted.before, ?_⟩⟩
        rw [← Slot.reflects_congr hcells]
        exact hnoted.slots
    have hget (f : FuncShape → FuncShape) :
        ((Write.func id f).apply s).store.arena.get? id = some (f g) := by
      rw [Write.store_apply, Write.onStore, Store.modifyFunc, Arena.get?_modify, if_pos rfl, hg,
        Option.map_some]
    have hp := hrest p (List.mem_cons_self ..)
    rw [parametersFrom]
    refine ensures_bind.2 ?_
    rw [ensures_knownType?]
    cases hty : (s.store.ty? (.node p.id)).filter Ty.isKnown with
    | some ty =>
      rw [hty, Option.any_some] at hp
      refine ensures_ite.2 ⟨fun htake => ?_, fun htake => ?_⟩
      · -- The parameter takes the rest, and those after it are not noted.
        rw [htake] at hp
        have hcount := Pattern.slotCount_cons_of_isRest hp.symm ps
        have hlength : g.params.length = idx := by omega
        have hany : (p :: ps).any Pattern.isRest = true := by rw [List.any_cons, ← hp, Bool.true_or]
        refine ⟨fun hfull => Write.keepsSlots_func hg ⟨rfl, (hfull.hasRest hany).symm⟩,
          rfl, { g with hasRest := true }, hget _, ?_, ?_, fun _ _ => rfl, fun j hj => ?_⟩
        · rw [hcount, hlength, Nat.add_zero]
        · rw [hany, Bool.or_true]
        · rw [hcount] at hj
          cases hj
      · rw [Bool.not_eq_true] at htake
        have hp : p.isRest = false := hp.symm.trans htake
        have hgains := FuncShape.Gains.setParam hlow hty
        refine ⟨fun hfull => Write.keepsSlots_func hg ⟨?_, hgains.hasRest⟩, ?_⟩
        · have hlength := hgains.length
          have hfull := hfull.length
          rw [Pattern.slotCount_cons hp] at hfull
          omega
        · exact hnext hp (hget _) hgains rfl
    | none =>
      rw [hty, Option.any_none] at hp
      refine ensures_bind.2 ?_
      change Ensures _ _ (if idx < ((s.store.arena.get? id).map (·.params.length)).getD 0 then _ else _) s
      rw [hg, Option.map_some, Option.getD_some]
      refine ensures_ite.2 ⟨fun hidx => ?_, fun hidx => ?_⟩
      · exact hnext hp.symm hg (.keep hidx hty) rfl
      · have hlength : g.params.length = idx := by omega
        have hgains := FuncShape.Gains.add hlength hty
        refine ensures_bind.2 ⟨fun hfull => ?_, ?_⟩
        · have hfull := hfull.length
          rw [Pattern.slotCount_cons hp.symm] at hfull
          omega
        · split
          · exact ⟨fun _ => Write.keepsSlots_of_ne (by simp), hnext hp.symm (hget _) hgains rfl⟩
          · exact hnext hp.symm (hget _) hgains rfl

def KeepsSlots (env : CheckEnv) (id : FuncShapeId) (vs : List Visit) (s : CheckState) : Prop :=
  ∀ m ∈ moments env vs s, m.write.KeepsSlots id m.before

variable {v : Visit} {vs vs' : List Visit} {s : CheckState}

namespace KeepsSlots

theorem nil : KeepsSlots env id [] s := by simp [KeepsSlots, moments]

theorem append (h : KeepsSlots env id vs s) (h' : KeepsSlots env id vs' (vs.foldl (visit env) s)) :
    KeepsSlots env id (vs ++ vs') s := by
  rw [KeepsSlots, moments_append]
  exact List.forall_mem_append.2 ⟨h, h'⟩

theorem of_ensures {Q : Unit → CheckState → Prop}
    (h : (v.apply env).Ensures (fun t w => w.KeepsSlots id t) Q s) : KeepsSlots env id [v] s := by
  intro m hm
  rw [moments, moments, List.append_nil] at hm
  obtain ⟨x, hx, rfl⟩ := List.mem_map.1 hm
  exact (ensures_iff_trace.1 h).1 x hx

theorem foldl (h : KeepsSlots env id vs s) {g : FuncShape} (hg : s.store.arena.get? id = some g) :
    ∃ g', (vs.foldl (visit env) s).store.arena.get? id = some g' ∧ g.SameSlots g' := by
  refine (linked_moments env vs s).lasts
    (P := fun t => ∃ g', t.store.arena.get? id = some g' ∧ g.SameSlots g') ⟨g, hg, rfl, rfl⟩ ?_
  rintro m hm ⟨g', hg', hsame⟩
  rw [Moment.after, Write.store_apply]
  rcases Write.get?_onStore (w := m.write) hg' with hkeep | ⟨k, hw, hnew⟩
  · exact ⟨g', hkeep, hsame⟩
  · exact ⟨k g', hnew, hsame.trans (h m hm k hw g' hg')⟩

/-- Where a function is not entered its slots stay. -/
theorem of_bypasses {P : NodeId → Prop} {k : FuncId} (h : Bypasses P k env vs s)
    (hid : ∃ g, s.store.arena.get? id = some g ∧ g.origin = some k) : KeepsSlots env id vs s := by
  have hkeep := (linked_moments env vs s).forall_before
    (Q := fun t => ∃ g, t.store.arena.get? id = some g ∧ g.origin = some k) hid
    fun m hm => (h.steady m hm).origin
  intro m hm f hw g hg
  obtain ⟨g', hg', hk⟩ := hkeep m hm
  obtain rfl := Option.some.inj (hg'.symm.trans hg)
  refine ((h.within m hm).func id f hw g' hg (fun h => h) fun j hj hj' => ?_).sameSlots
  exact hj (Option.some.inj (hj'.symm.trans hk))

end KeepsSlots

variable {P : NodeId → Prop}

theorem keepsSlots_enterFunction (n : NodeId) (f : FuncId) :
    KeepsSlots env id [.enterFunction n f] s := by
  have hrun : (enterFunction n f).Ensures (fun t w => w.KeepsSlots id t) (fun _ _ => True) s := by
    have hopen (t : CheckState) (k : FuncShapeId) :
        (Write.func k fun g => { g with ret := { g.ret with isDefault := true } }).KeepsSlots id t := by
      rintro h ⟨⟩ g hg
      exact ⟨rfl, rfl⟩
    simp [enterFunction, hopen, Write.keepsSlots_of_ne]
  exact .of_ensures hrun

theorem keepsSlots_leaveFunction (pos : Position) (name : String) {result : Option NodeId}
    (hresult : ∀ n ∈ result, P n) (hs : s.InOrder P) :
    KeepsSlots env id [.leaveFunction pos name result] s := by
  have hrun : (leaveFunction pos name result).Ensures (fun t w => w.KeepsSlots id t)
      (fun _ _ => True) s := by
    refine ensures_bind.2 ?_
    rw [ensures_frame?]
    split
    · next k _ =>
      have hsettle : (settleResult k result).Ordinary True P (fun _ => False)
          (fun _ g g' => g.SameParams g') False :=
        ordinary_settleResult (fun _ _ => ⟨rfl, rfl⟩) fun n hn _ => hresult n hn
      refine ensures_bind.2 ((hsettle s fun _ => hs.tells).mono (fun t w hw => ?_) fun _ t _ => ?_)
      · rintro f rfl g -
        exact (hw g).2.elim FuncShape.Agrees.sameSlots FuncShape.SameParams.sameSlots
      · simp [Write.keepsSlots_of_ne]
    · trivial
  exact .of_ensures hrun

section

variable (himplies : ∀ param i, env.ImpliesAt param i → P param.id ∧ P i.node.id)

include himplies

/-- Only where the parameters of the innermost function are noted its slots change. -/
theorem keepsSlots_visit (hv : v.Regular P) (hbracket : v.isBracket = false)
    (hnoted : (∀ params, v ≠ .parameters params) ∨ s.frames.head? ≠ some id) (hs : s.InOrder P) :
    KeepsSlots env id [v] s := by
  refine .of_ensures ((v.ensures_ordinary hv hbracket himplies hs.tells).mono ?_ fun _ _ h => h)
  rintro t w hw f rfl g -
  rcases (hw g).2 with hagrees | ⟨hhead, halters⟩
  · exact hagrees.sameSlots
  · cases v with
    | parameters params =>
      rcases hnoted with hnone | hne
      · exact absurd rfl (hnone params)
      · exact absurd hhead hne
    | return_ pos argument => exact FuncShape.SameParams.sameSlots halters
    | _ => exact halters.elim

end

end Check

section

variable {P : NodeId → Prop} {env : CheckEnv} {id : FuncShapeId}
  (himplies : ∀ param i, env.ImpliesAt param i → P param.id ∧ P i.node.id)

include himplies

/-- A walk in which the parameters of a function are not noted keeps the slots of its shape. -/
theorem Walk.keepsSlots {fs : List Func} {noted : Bool} {rs : List Return} {vs : List Visit}
    (h : Walk P fs noted rs vs) {s : CheckState} (hs : s.InOrder P)
    (hsize : ∀ f ∈ fs, f.func < s.store.byFunction.size) {k : FuncId}
    (hid : ∃ g, s.store.arena.get? id = some g ∧ g.origin = some k) (hfs : k ∉ fs.map (·.func))
    (hnoted : noted = false ∨ s.frames.head? ≠ some id) : Check.KeepsSlots env id vs s := by
  induction h generalizing s with
  | nil => exact .nil
  | @append _ _ noted noted' _ _ _ _ hwalk _ ih ih' =>
    rw [List.forall_mem_append] at hsize
    rw [List.map_append, List.mem_append, not_or] at hfs
    have hfirst := hwalk.stays himplies hs hsize.1
    refine (ih hs hsize.1 hid hfs.1 (hnoted.imp_left fun h => ?_)).append
      (ih' (hfirst.inOrder hs) ?_ (hfirst.origin hid) hfs.2 ?_)
    · exact (Bool.or_eq_false_iff.1 h).1
    · rw [hfirst.spares.size]
      exact hsize.2
    · rw [hfirst.frames]
      exact hnoted.imp_left fun h => (Bool.or_eq_false_iff.1 h).2
  | visit hv =>
    refine Check.keepsSlots_visit himplies hv.regular hv.isBracket (.inl ?_) hs
    rintro params rfl
    exact absurd hv.isOwn (by simp [Visit.isOwn])
  | parameters params =>
    refine Check.keepsSlots_visit himplies (v := .parameters params) trivial rfl (.inr ?_) hs
    exact hnoted.resolve_left (by simp)
  | return_ pos hargument =>
    exact Check.keepsSlots_visit himplies (v := .return_ pos _) hargument rfl (.inl (by simp)) hs
  | @function f place fs hnode hinner hresult ih =>
    rw [List.forall_mem_cons] at hsize
    rw [List.map_cons, List.mem_cons, not_or] at hfs
    let entry := Check.visit env s (.enterFunction f.node.id f.func)
    have henter := Check.local_enterFunction env hnode hs hsize.1
    have hentry : entry.InOrder P := henter.inOrder hs
    obtain ⟨id', g, hentered⟩ := Check.entered_enterFunction env (n := f.node.id) hs hsize.1
    have hsize' : ∀ k ∈ fs, k.func < entry.store.byFunction.size := by
      rw [hentered.size]
      exact hsize.2
    have hne : id ≠ id' :=
      Check.ne_of_enterFunction env hnode hs hsize.1 hid hfs.1 hentered.shape
    have hhead : entry.frames.head? ≠ some id := by
      rw [hentered.frames, List.head?_cons]
      exact fun h => hne (Option.some.inj h).symm
    have hstays := hinner.stays himplies hentry hsize'
    rw [Func.visits_eq]
    refine ((Check.keepsSlots_enterFunction _ _).append ?_).append ?_
    · exact ih hentry hsize' (henter.origin hid) hfs.2 (.inr hhead)
    · rw [List.foldl_append]
      exact Check.keepsSlots_leaveFunction _ _ hresult (hstays.inOrder hentry)

end

structure CheckState.Registered (f : Func) (id : FuncShapeId) (s : CheckState) : Prop where
  shape : s.store.functionShape? f.func = some id
  lists : ∃ g, s.store.arena.get? id = some g ∧ g.origin = some f.func ∧ g.Lists f.params

theorem Store.functionShape?_makeFunction_of_some {s : Store} {f k : FuncId} {id : FuncShapeId}
    (hk : s.functionShape? k = some id) : (s.makeFunction f).functionShape? k = some id := by
  by_cases hkf : k = f
  · rw [makeFunction, ← hkf, hk]
    exact hk
  · rw [functionShape?_makeFunction_of_ne hkf, hk]

namespace CheckState.Registered

variable {P : NodeId → Prop} {f : Func} {id : FuncShapeId} {s : CheckState} {env : CheckEnv}
  {vs : List Visit}

theorem apply {w : Write} (h : s.Registered f id) (hw : w.Steady P) (hkeeps : w.KeepsSlots id s) :
    (w.apply s).Registered f id := by
  obtain ⟨g, hg, horigin, hlists⟩ := h.lists
  refine ⟨?_, ?_⟩
  · rw [Write.store_apply]
    by_cases hnot : ∀ k, w ≠ .function k
    · rw [Write.functionShape?_onStore hnot, h.shape]
    · simp only [ne_eq, not_forall, not_not] at hnot
      obtain ⟨k, rfl⟩ := hnot
      exact Store.functionShape?_makeFunction_of_some h.shape
  · rw [Write.store_apply]
    rcases Write.get?_onStore (w := w) hg with hkeep | ⟨k, rfl, hnew⟩
    · exact ⟨g, hkeep, horigin, hlists⟩
    · exact ⟨k g, hnew, (hw g).1.trans horigin, (hkeeps k rfl g hg).lists hlists⟩

theorem beginPass (h : s.Registered f id) : s.beginPass.Registered f id := ⟨h.shape, h.lists⟩

/-- Visits that keep the slots keep the function registered all the time. -/
theorem forall_after (h : s.Registered f id)
    (hsteady : ∀ m ∈ Check.moments env vs s, m.write.Steady P)
    (hkeeps : Check.KeepsSlots env id vs s) :
    (∀ m ∈ Check.moments env vs s, m.after.Registered f id) ∧
      (vs.foldl (Check.visit env) s).Registered f id := by
  have hlinked := Check.linked_moments env vs s
  have hstep (m : Moment) (hm : m ∈ Check.moments env vs s) (hbefore : m.before.Registered f id) :
      m.after.Registered f id := hbefore.apply (hsteady m hm) (hkeeps m hm)
  refine ⟨fun m hm => hstep m hm ?_, hlinked.lasts h hstep⟩
  exact hlinked.forall_before (Q := fun t => t.Registered f id) h hstep m hm

end CheckState.Registered

/-! Parameters that take the rest are marked as such before they are noted. -/

theorem Pattern.exists_visits_rest {p : Pattern} {ps : List Pattern} (hp : p ∈ ps)
    (hrest : p.isRest = true) :
    ∃ argument pre post, Pattern.visitsList ps = pre ++ [Visit.rest p.id argument] ++ post := by
  induction ps with
  | nil => cases hp
  | cons q ps ih =>
    rw [visitsList]
    rcases List.mem_cons.1 hp with rfl | hp
    · cases p with
      | rest n argument =>
        exact ⟨argument, argument.visits .plain, visitsList ps, by simp [visits, Pattern.id, node]⟩
      | _ => cases hrest
    · obtain ⟨argument, pre, post, hps⟩ := ih hp
      exact ⟨argument, q.visits .plain ++ pre, post, by simp [hps]⟩

theorem Check.isSome_ty_rest {env : CheckEnv} {s : CheckState} {n : NodeId}
    (hn : s.store.Has (.node n)) (argument : Pattern) :
    ((visit env s (.rest n argument)).store.cell (.node n)).ty.isSome = true := by
  let s₁ := (Write.type (.node n) (Ty.inferred .array).rest).apply s
  have htyped : s₁.store.hasTypeThisPass (.node n) = true := by
    rw [Write.store_apply]
    exact Write.hasTypeThisPass_onStore_type hn rfl
  have hsome : (s₁.store.cell (.node n)).ty.isSome = true := by
    obtain ⟨x, hx, -⟩ := Store.hasTypeThisPass_iff.1 htyped
    rw [hx, Option.isSome_some]
  have hrun : (rest env n argument).Ensures (fun _ _ => True)
      (fun _ t => (t.store.cell (.node n)).ty.isSome = true) s := by
    refine ensures_bind.2 (ensures_put.2 ⟨trivial, ?_⟩)
    refine ensures_iff_trace.2 ⟨fun _ _ => trivial, ?_⟩
    exact (linked_trace (.rest n argument) _ s₁).isSome_ty hsome
  exact (ensures_iff_trace.1 hrun).2

theorem Check.isSome_ty_of_visits {env : CheckEnv} {s : CheckState} {n : NodeId}
    (hn : s.store.Has (.node n)) {vs pre post : List Visit} {argument : Pattern}
    (hvs : vs = pre ++ [Visit.rest n argument] ++ post) :
    ((vs.foldl (visit env) s).store.cell (.node n)).ty.isSome = true := by
  rw [hvs, List.foldl_append, List.foldl_append]
  refine (linked_moments env post _).isSome_ty (isSome_ty_rest ?_ argument)
  exact ((linked_moments env pre s).has_iff (.node n)).2 hn

/-- After the parameters have been visited their types tell which of them takes the rest. -/
theorem Store.Tells.tellsRest {P : NodeId → Prop} {s : Store} (hs : s.Tells P) {ps : List Pattern}
    (hps : ∀ p ∈ ps, P p.id ↔ p.isRest = false)
    (hrest : ∀ p ∈ ps, p.isRest = true → (s.cell (.node p.id)).ty.isSome = true) :
    s.TellsRest ps := by
  intro p hp
  cases h : p.isRest with
  | false =>
    rw [Option.any_eq_false]
    intro ty hty
    rw [Option.filter_eq_some_iff] at hty
    rw [hs.ty? ((hps p hp).2 h) ty hty.1]
  | true =>
    obtain ⟨x, hx⟩ := Option.isSome_iff_exists.1 (hrest p hp h)
    have hty : s.ty? (.node p.id) = some x.value := by rw [Store.ty?, hx, Option.map_some]
    have hvalue := (hs.node p.id x.value hty).2 fun hP => by
      rw [(hps p hp).1 hP] at h
      cases h
    rw [hty, hvalue]
    rfl

/-- The slots of the function shape know what is known of the parameters, each of its own. -/
def CheckState.Mirrors (f : Func) (id : FuncShapeId) (s : CheckState) : Prop :=
  ∃ g, s.store.arena.get? id = some g ∧ ∀ j < Pattern.slotCount f.params, ∀ q ∈ f.params[j]?,
    ∃ slot, g.params[j]? = some slot ∧ slot.Reflects s.store q

/-- The parameters of the innermost function have been visited and can be noted. -/
structure CheckState.Awaits (P : NodeId → Prop) (f : Func) (id : FuncShapeId) (g : FuncShape)
    (s : CheckState) : Prop where
  inOrder : s.InOrder P
  head : s.frames.head? = some id
  shape : s.store.functionShape? f.func = some id
  get? : s.store.arena.get? id = some g
  rest : s.store.TellsRest f.params

namespace Func

def openingVisits (f : Func) : List Visit :=
  [.enterFunction f.node.id f.func] ++ f.paramVisits ++ [.parameters f.params]

def closingVisits (f : Func) (place : Option String) : List Visit :=
  f.body.visits ++ [.leaveFunction f.node.pos (Func.reportName f.name place) f.body.result?]

theorem visits_eq_append (f : Func) (place : Option String) :
    f.visits place = f.openingVisits ++ f.closingVisits place := by
  simp [visits_eq, innerVisits, openingVisits, closingVisits]

end Func

section

variable {P : NodeId → Prop} {env : CheckEnv}
  (himplies : ∀ param i, env.ImpliesAt param i → P param.id ∧ P i.node.id)

include himplies

/-- Noting the parameters of the innermost function, in new slots or in those that are there. -/
theorem CheckState.Awaits.registers {f : Func} {id : FuncShapeId} {g : FuncShape} {s : CheckState}
    (h : s.Awaits P f id g) (hg : g.params = [] ∧ g.hasRest = false ∨ g.Lists f.params) :
    let t := Check.visit env s (.parameters f.params)
    t.Registered f id ∧ t.Mirrors f id ∧
      (g.Lists f.params → Check.KeepsSlots env id [.parameters f.params] s) := by
  intro t
  have hlength : g.params.length ≤ Pattern.slotCount f.params := by
    rcases hg with ⟨hnil, -⟩ | hlists
    · rw [hnil]
      exact Nat.zero_le _
    · exact hlists.length.le
  have hrun : (Check.parameters env f.params).Ensures
      (fun t w => g.Full 0 f.params → w.KeepsSlots id t)
      (fun _ t => t.store.nodes = s.store.nodes ∧
        ∃ g', t.store.arena.get? id = some g' ∧ g.Noted s.store 0 f.params g') s := by
    refine Check.ensures_bind.2 ?_
    rw [Check.ensures_frame?, h.head]
    exact Check.ensures_parametersFrom f.params h.get? (Nat.zero_le _) (by omega) h.rest
  obtain ⟨hnodes, g', hg', hnoted⟩ : t.store.nodes = s.store.nodes ∧
      ∃ g', t.store.arena.get? id = some g' ∧ g.Noted s.store 0 f.params g' :=
    (Check.ensures_iff_trace.1 hrun).2
  have hstays : Check.Stays P (fun _ => False) (Visit.Own s (.parameters f.params)) env
      [.parameters f.params] s :=
    Check.stays_visit himplies (v := .parameters f.params) trivial rfl h.inOrder
  have hshape : t.store.functionShape? f.func = some id :=
    (hstays.spares.functionShape? f.func fun h => h).trans h.shape
  have horigin : g'.origin = some f.func := (hstays.inOrder h.inOrder).origin_eq hshape hg'
  have hlists : g'.Lists f.params := by
    refine ⟨by rw [hnoted.length, Nat.zero_add], ?_⟩
    rw [hnoted.hasRest]
    rcases hg with ⟨-, hfalse⟩ | hlists
    · rw [hfalse, Bool.false_or]
    · rw [hlists.hasRest, Bool.or_self]
  have hcells : ∀ n, t.store.cell (.node n) = s.store.cell (.node n) := by
    intro n
    simp only [Store.cell, hnodes]
  refine ⟨⟨hshape, g', hg', horigin, hlists⟩, ⟨g', hg', fun j hj q hq => ?_⟩, fun hlists => ?_⟩
  · obtain ⟨slot, hslot, hreflects⟩ := hnoted.slots j hj q hq
    rw [Nat.zero_add] at hslot
    exact ⟨slot, hslot, by rwa [Slot.reflects_congr hcells]⟩
  · have hfull : g.Full 0 f.params :=
      ⟨by rw [hlists.length, Nat.zero_add], fun hany => hlists.hasRest.trans hany⟩
    exact .of_ensures (hrun.mono (fun _ _ hw => hw hfull) fun _ _ h => h)

section Entry

variable {f : Func} {fs fs' : List Func} (hinside : f.Inside P fs fs') {s : CheckState}
  (hs : s.InOrder P) (hsize : ∀ k ∈ f :: (fs ++ fs'), k.func < s.store.byFunction.size)
  (hinner : f.func ∉ (fs ++ fs').map (·.func)) (hparams : ∀ q ∈ f.params, P q.id ↔ q.isRest = false)
  (hnodes : ∀ q ∈ f.params, s.store.Has (.node q.id))
  (hstart : s.store.functionShape? f.func = none ∨ ∃ id, s.Registered f id)

include hinside hs hsize hinner hparams hnodes hstart

/-- Entering a function and visiting its parameters: its shape is a new one, or the one that it had,
with as many slots. -/
theorem Func.Inside.awaits :
    ∃ id g, (([Visit.enterFunction f.node.id f.func] ++ f.paramVisits).foldl (Check.visit env)
        s).Awaits P f id g ∧
      Check.KeepsSlots env id ([Visit.enterFunction f.node.id f.func] ++ f.paramVisits) s ∧
      (s.store.functionShape? f.func = none ∧ g.params = [] ∧ g.hasRest = false ∨
        s.Registered f id ∧ g.Lists f.params) := by
  rw [List.forall_mem_cons, List.forall_mem_append] at hsize
  rw [List.map_append, List.mem_append, not_or] at hinner
  let entry := Check.visit env s (.enterFunction f.node.id f.func)
  let visited := f.paramVisits.foldl (Check.visit env) entry
  have hentry : entry.InOrder P := (Check.local_enterFunction env hinside.node hs hsize.1).inOrder hs
  obtain ⟨id, g₀, hentered⟩ := Check.entered_enterFunction env (n := f.node.id) hs hsize.1
  have hsize' : ∀ k ∈ fs, k.func < entry.store.byFunction.size := by
    rw [hentered.size]
    exact hsize.2.1
  have hstays := hinside.walk_params.stays himplies hentry hsize'
  have hkeeps := hinside.walk_params.keepsSlots himplies hentry hsize'
    (hentry.originates f.func id hentered.shape) hinner.1 (.inl rfl)
  obtain ⟨g, hg, hsame⟩ := hkeeps.foldl hentered.get?
  have hrest : visited.store.TellsRest f.params := by
    refine (hstays.inOrder hentry).tells.tellsRest hparams fun q hq hqrest => ?_
    obtain ⟨argument, before, after, hvisits⟩ := Pattern.exists_visits_rest hq hqrest
    have hhas : entry.store.Has (.node q.id) :=
      ((Check.linked_moments env [.enterFunction f.node.id f.func] s).has_iff _).2 (hnodes q hq)
    refine Check.isSome_ty_of_visits hhas (by rw [paramVisits, hvisits, ← List.append_assoc,
      ← List.append_assoc])
  refine ⟨id, g, ⟨hstays.inOrder hentry, ?_, ?_, hg, hrest⟩, ?_, ?_⟩
  · rw [List.foldl_append]
    exact (congrArg List.head? hstays.frames).trans (by rw [hentered.frames, List.head?_cons])
  · exact (hstays.spares.functionShape? f.func hinner.1).trans hentered.shape
  · exact (Check.keepsSlots_enterFunction _ _).append hkeeps
  · rcases hentered.source with ⟨hshape, hg₀⟩ | ⟨hnone, -, rfl⟩
    · rcases hstart with hnone | ⟨id', hregistered⟩
      · exact absurd (hnone.symm.trans hshape) (by simp)
      · obtain rfl := Option.some.inj (hregistered.shape.symm.trans hshape)
        obtain ⟨g₁, hg₁, -, hlists⟩ := hregistered.lists
        obtain rfl := Option.some.inj (hg₁.symm.trans hg₀)
        exact .inr ⟨hregistered, hsame.length.trans hlists.length, hsame.hasRest.trans hlists.hasRest⟩
    · exact .inl ⟨hnone, List.length_eq_zero_iff.1 hsame.length, hsame.hasRest⟩

theorem Func.Inside.registers :
    let noted := f.openingVisits.foldl (Check.visit env) s
    ∃ id, noted.Registered f id ∧ noted.Mirrors f id ∧
      ∀ id', s.Registered f id' → id' = id ∧ Check.KeepsSlots env id f.openingVisits s := by
  intro noted
  obtain ⟨id, g, hawaits, hkeeps, hsource⟩ :=
    hinside.awaits himplies hs hsize hinner hparams hnodes hstart
  have hslots : g.params = [] ∧ g.hasRest = false ∨ g.Lists f.params :=
    hsource.imp (fun h => h.2) fun h => h.2
  obtain ⟨hregistered, hmirrors, hagain⟩ := hawaits.registers himplies hslots
  have hnoted : noted = Check.visit env (([Visit.enterFunction f.node.id f.func] ++
      f.paramVisits).foldl (Check.visit env) s) (.parameters f.params) := by
    rw [show noted = f.openingVisits.foldl (Check.visit env) s from rfl, Func.openingVisits,
      List.foldl_append]
    rfl
  rw [hnoted]
  refine ⟨id, hregistered, hmirrors, fun id' hid' => ?_⟩
  rcases hsource with ⟨hnone, -⟩ | ⟨hid, hlists⟩
  · exact absurd (hnone.symm.trans hid'.shape) (by simp)
  · exact ⟨Option.some.inj (hid'.shape.symm.trans hid.shape), hkeeps.append (hagain hlists)⟩

end Entry

theorem Func.Inside.keepsSlots_closing {f : Func} {fs fs' : List Func} (hinside : f.Inside P fs fs')
    (place : Option String) {s : CheckState} (hs : s.InOrder P)
    (hsize : ∀ k ∈ fs', k.func < s.store.byFunction.size) (hinner : f.func ∉ fs'.map (·.func))
    {id : FuncShapeId} (hid : ∃ g, s.store.arena.get? id = some g ∧ g.origin = some f.func) :
    Check.KeepsSlots env id (f.closingVisits place) s := by
  have hstays := hinside.body.stays himplies hs hsize
  have hbody := hinside.body.keepsSlots himplies hs hsize hid hinner (.inl rfl)
  exact hbody.append (Check.keepsSlots_leaveFunction _ _ hinside.result (hstays.inOrder hs))

end

/-- The states of a run from some place in the first pass on. -/
theorem Check.mem_drop_history {env : CheckEnv} {vs vs' : List Visit} {limit : Nat}
    {s t : CheckState}
    (ht : t ∈ (history env (vs ++ vs') (limit + 1) s).drop (1 + (moments env vs s.beginPass).length)) :
    t = vs.foldl (visit env) s.beginPass ∨
      (∃ m ∈ moments env vs' (vs.foldl (visit env) s.beginPass), t = m.after) ∨
      ∃ s' ∈ starts env (vs ++ vs') limit (pass env (vs ++ vs') s),
        t ∈ passStates env (vs ++ vs') s' := by
  let first := s.beginPass :: (moments env vs s.beginPass).map Moment.after
  let others := (starts env (vs ++ vs') (limit + 1) s).tail.flatMap (passStates env (vs ++ vs'))
  have hhistory : history env (vs ++ vs') (limit + 1) s = s :: (first ++
      ((moments env vs' (vs.foldl (visit env) s.beginPass)).map Moment.after ++ others)) := by
    rw [history, starts, List.flatMap_cons, passStates, passMoments, moments_append, List.map_append]
    simp [first, others, starts]
  have hlength : first.length - 1 = (moments env vs s.beginPass).length := by
    simp [first]
  have hlast : first.drop (first.length - 1) = [vs.foldl (visit env) s.beginPass] := by
    have hlast := (linked_moments env vs s.beginPass).getLast?_eq
    rw [List.getLast?_eq_some_getLast (List.cons_ne_nil _ _), Option.some.injEq] at hlast
    rw [List.drop_length_sub_one (List.cons_ne_nil _ _), hlast]
  rw [hhistory, Nat.add_comm, List.drop_succ_cons, ← hlength,
    List.drop_append_of_le_length (by omega), hlast, List.mem_append, List.mem_append,
    List.mem_singleton, List.mem_map, List.mem_flatMap] at ht
  rcases ht with ht | ⟨m, hm, rfl⟩ | ⟨s', hs', ht⟩
  · exact .inl ht
  · exact .inr (.inl ⟨m, hm, rfl⟩)
  · rw [starts, List.tail_cons] at hs'
    split at hs'
    · exact .inr (.inr ⟨s', hs', ht⟩)
    · cases hs'

namespace Program

variable {p : Program} {config : Config} {s : CheckState} {f : Func} {pre post : List Visit}
  {place : Option String} {fs fs' : List Func}

variable (config) in
/-- In a pass that starts where the function has no shape yet, or is registered, it is registered
from where its parameters have been noted on. -/
theorem FunctionSite.registers (hsite : p.FunctionSite f pre place post fs fs') (hp : p.WellFormed)
    (hf : f ∈ p.funcs) (hs : p.Between s)
    (hstart : s.store.functionShape? f.func = none ∨ ∃ id, s.Registered f id) :
    let env := p.checkEnv config
    let noted := (pre ++ f.openingVisits).foldl (Check.visit env) s.beginPass
    ∃ id, noted.Registered f id ∧ noted.Mirrors f id ∧
      (∀ m ∈ Check.moments env (f.closingVisits place ++ post) noted, m.after.Registered f id) ∧
      (∀ id', s.Registered f id' → id' = id ∧
        ∀ m ∈ Check.moments env (pre ++ f.openingVisits) s.beginPass, m.after.Registered f id) := by
  intro env noted
  have himplies := hp.flat_of_impliesAt config
  have hvisits : p.visits = (pre ++ f.openingVisits) ++ (f.closingVisits place ++ post) := by
    rw [hsite.visits, Func.visits_eq_append]
    simp
  let start := pre.foldl (Check.visit env) s.beginPass
  obtain ⟨hbetween, -⟩ : p.Between start ∧ start.Outside f.func := hsite.between_start hp hs
  have hpre := (Check.bypasses_visits himplies (hsite.around_pre hs)).1
  have hnodes (q : Pattern) (hq : q ∈ f.params) : SyntaxNode.pattern q ∈ p.nodes :=
    param_nodes_of_function? (hp.function?_of_mem_funcs hf) hq q.mem_nodes
  obtain ⟨ks, own, hlocal⟩ := hp.local_pass hs
  have hsteady := hlocal.steady
  rw [hvisits, Check.moments_append, List.forall_mem_append] at hsteady
  have hbefore (id : FuncShapeId) (hid : s.Registered f id) : Check.KeepsSlots env id pre s.beginPass :=
    .of_bypasses hpre (hs.beginPass.inOrder.originates f.func id hid.shape)
  have hstart' : start.store.functionShape? f.func = none ∨ ∃ id, start.Registered f id := by
    rcases hstart with hnone | ⟨id, hid⟩
    · exact .inl ((hpre.spares.functionShape? f.func fun h => h rfl).trans hnone)
    · exact .inr ⟨id, (hid.beginPass.forall_after hpre.steady (hbefore id hid)).2⟩
  obtain ⟨id, hregistered, hmirrors, hagain⟩ := hsite.inside.registers himplies hbetween.inOrder
    (hsite.inner_lt hbetween) hsite.inner (fun q hq => hp.marks _ (hnodes q hq))
    (fun q hq => hbetween.holds.node _ (hp.id_lt (hnodes q hq))) hstart'
  have hnoted : noted = f.openingVisits.foldl (Check.visit env) start := List.foldl_append ..
  rw [← hnoted] at hregistered hmirrors
  refine ⟨id, hregistered, hmirrors, ?_, fun id' hid' => ?_⟩
  · have hinner := hsite.inner
    rw [List.map_append, List.mem_append, not_or] at hinner
    have hfits : p.Between noted := hs.beginPass.foldl hsteady.1
    have hclosing : Check.KeepsSlots env id (f.closingVisits place) noted := by
      refine hsite.inside.keepsSlots_closing himplies place hfits.inOrder (fun k hk => ?_) hinner.2
        (hfits.inOrder.originates f.func id hregistered.shape)
      exact hsite.inner_lt hfits k (List.mem_cons_of_mem f (List.mem_append_right fs hk))
    have hsteady' := hsteady.2
    rw [Check.moments_append, List.forall_mem_append] at hsteady'
    have hlast := (hregistered.forall_after hsteady'.1 hclosing).2
    let finish := (f.visits place).foldl (Check.visit env) start
    obtain ⟨hfinish, hout⟩ : p.Between finish ∧ finish.Outside f.func := hsite.between_finish hp hs
    have hend : finish = (f.closingVisits place).foldl (Check.visit env) noted := by
      rw [hnoted, ← List.foldl_append, ← Func.visits_eq_append]
    rw [hend] at hfinish hout
    have hpost := (Check.bypasses_visits himplies (hsite.around_post hfinish hout)).1
    refine (hregistered.forall_after hsteady.2 (hclosing.append (.of_bypasses hpost ?_))).1
    exact hfinish.inOrder.originates f.func id hlast.shape
  · obtain ⟨rfl, hkeeps⟩ := hagain id' (hid'.beginPass.forall_after hpre.steady (hbefore id' hid')).2
    refine ⟨rfl, (hid'.beginPass.forall_after hsteady.1 ?_).1⟩
    exact (hbefore id' hid').append hkeeps

/-- A function is registered from where its parameters have been noted in the first pass until the
end of the run. -/
theorem FunctionSite.registered_of_mem_history (hsite : p.FunctionSite f pre place post fs fs')
    (hp : p.WellFormed) (hf : f ∈ p.funcs) :
    let env := p.checkEnv config
    ∃ id, (∀ t ∈ (p.history config).drop (1 + (Check.moments env (pre ++ f.openingVisits)
        (p.initialState p.resolve).beginPass).length), t.Registered f id) ∧
      ∀ s ∈ p.passStarts config,
        ((pre ++ f.openingVisits).foldl (Check.visit env) s.beginPass).Mirrors f id := by
  intro env
  have hvisits : p.visits = (pre ++ f.openingVisits) ++ (f.closingVisits place ++ post) := by
    rw [hsite.visits, Func.visits_eq_append]
    simp
  let first := p.initialState p.resolve
  have hempty : first.store.functionShape? f.func = none := Store.functionShape?_new _ _ _ _
  obtain ⟨id, hnoted, hmirrors, hafter, -⟩ :=
    hsite.registers config hp hf p.between_initialState (.inl hempty)
  -- The shape stays the same from pass to pass.
  have hagain {s : CheckState} (hs : p.Between s ∧ s.Registered f id) :
      (∀ t ∈ Check.passStates env p.visits s, t.Registered f id) ∧
        ((pre ++ f.openingVisits).foldl (Check.visit env) s.beginPass).Mirrors f id := by
    obtain ⟨id', hnoted', hmirrors', hafter', hbefore'⟩ :=
      hsite.registers config hp hf hs.1 (.inr ⟨id, hs.2⟩)
    obtain ⟨rfl, hbefore'⟩ := hbefore' id hs.2
    refine ⟨List.forall_mem_cons.2 ⟨hs.2.beginPass, fun t ht => ?_⟩, hmirrors'⟩
    rw [Check.passMoments, hvisits, Check.moments_append, List.map_append, List.mem_append] at ht
    rcases ht with ht | ht
    · obtain ⟨m, hm, rfl⟩ := List.mem_map.1 ht
      exact hbefore' m hm
    · obtain ⟨m, hm, rfl⟩ := List.mem_map.1 ht
      exact hafter' m hm
  have hpass : (Check.pass env p.visits first).Registered f id := by
    rw [Check.pass, hvisits, List.foldl_append]
    exact (Check.linked_moments env _ _).lasts hnoted fun m hm _ => hafter m hm
  obtain ⟨n, hn⟩ : ∃ n, config.limit = n + 1 :=
    Nat.exists_eq_add_one.2 (Nat.lt_of_lt_of_le Nat.one_pos (Nat.le_max_left 1 config.passLimit))
  have hlater : ∀ s ∈ Check.starts env p.visits n (Check.pass env p.visits first),
      p.Between s ∧ s.Registered f id := by
    refine Check.forall_starts (P := fun s => p.Between s ∧ s.Registered f id) (fun s hs => ?_)
      ⟨hp.between_pass p.between_initialState, hpass⟩
    obtain ⟨before, hbefore⟩ := Check.exists_passStates_eq env p.visits s
    refine ⟨hp.between_pass hs.1, (hagain hs).1 _ ?_⟩
    rw [hbefore]
    exact List.mem_append_right _ (List.mem_singleton_self _)
  refine ⟨id, fun t ht => ?_, fun s hs => ?_⟩
  · rw [history, hn] at ht
    rw [hvisits] at hlater hagain ht
    rcases Check.mem_drop_history ht with rfl | ⟨m, hm, rfl⟩ | ⟨s, hs, ht⟩
    · exact hnoted
    · exact hafter m hm
    · exact (hagain (hlater s hs)).1 t ht
  · rw [passStarts, hn, Check.starts] at hs
    rcases List.mem_cons.1 hs with rfl | hs
    · exact hmirrors
    · split at hs
      · exact (hagain (hlater s hs)).2
      · cases hs

end Program

end TagCheck
