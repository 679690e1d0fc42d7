import TagCheck.Proofs.Check.FunctionSites
import TagCheck.Proofs.Check.Trace
import TagCheck.Proofs.Shape.Compatibility

/-! What a function returns. Of the `return` statements of a function, met one after the other in a
pass, the first with a known type gives the function its result, and those after it are compared with
that result. Main statement: at the end of the function its result is that of the first such
`return`, the errors are those of the later ones that do not fit it, and where no `return` has a known
type the result is open, unless no `return` was ever met. -/
namespace TagCheck

structure MetReturn where
  state : CheckState
  written : Return

namespace MetReturn

def isSelfCall (env : CheckEnv) (id : FuncShapeId) (r : MetReturn) : Bool :=
  r.written.2.any (Check.isSelfCall env r.state.store id)

/-- The type of what is returned, unknown if there is none. Nothing is of type `undef`. -/
def ty (r : MetReturn) : Ty :=
  match r.written.2 with
  | some e => ((r.state.store.ty? (.node e.id)).filter Ty.isKnown).getD .unknown
  | none => .inferred .undef

def shape (r : MetReturn) : Option Shape :=
  r.written.2.bind fun e => r.state.store.shape? (.node e.id)

def pos (r : MetReturn) : Position := (r.written.2.map Expr.pos).getD r.written.1

def error? (slot : ReturnSlot) (r : MetReturn) : Option Remark :=
  if r.ty.tag.fits slot.ty.tag = false then some (.error, .returnType, r.pos)
  else if (r.shape.isSome || slot.shape.isSome) = true ∧
      r.state.store.arena.fits r.shape slot.shape = false then
    some (.error, .returnShape, r.pos)
  else none

end MetReturn

namespace ReturnSlot

/-- The first known type that is met is taken over. -/
def meet (slot : ReturnSlot) (r : MetReturn) : ReturnSlot :=
  if slot.isDefault = true ∧ r.ty.isKnown = true then ⟨r.ty, r.shape <|> slot.shape, false, true⟩
  else { slot with isExplicit := true }

def reports (slot : ReturnSlot) : List MetReturn → List Remark
  | [] => []
  | r :: rs => (if slot.isDefault then none else r.error? slot).toList ++ (slot.meet r).reports rs

/-- How a result is left: it is open only if there is a `return` for it. -/
def settle (slot : ReturnSlot) : ReturnSlot :=
  if slot.isExplicit then slot else { slot with isDefault := false }

variable {slot : ReturnSlot} {r : MetReturn} {rs rs' : List MetReturn}

theorem reports_append :
    slot.reports (rs ++ rs') = slot.reports rs ++ (rs.foldl meet slot).reports rs' := by
  induction rs generalizing slot with
  | nil => rfl
  | cons r rs ih =>
    rw [List.cons_append, reports, reports, ih, List.append_assoc, List.foldl_cons]

theorem meet_of_isDefault (h : slot.isDefault = false) :
    slot.meet r = { slot with isExplicit := true } := by
  rw [meet, if_neg (by simp [h])]

theorem meet_of_isKnown (slot : ReturnSlot) (h : r.ty.isKnown = false) :
    slot.meet r = { slot with isExplicit := true } := by
  rw [meet, if_neg (by simp [h])]

theorem isExplicit_meet : (slot.meet r).isExplicit = true := by
  unfold meet
  split <;> rfl

/-- Every `return` that is met is noted. -/
theorem isExplicit_foldl_meet :
    (rs.foldl meet slot).isExplicit = true ↔ slot.isExplicit = true ∨ rs ≠ [] := by
  induction rs generalizing slot with
  | nil => simp
  | cons r rs ih => simp [ih, isExplicit_meet]

/-- Once the result is known the rest is compared with it. -/
theorem foldl_meet_of_known (slot : ReturnSlot) (h : slot.isDefault = false) (rs : List MetReturn) :
    (rs.foldl meet slot).ty = slot.ty ∧ (rs.foldl meet slot).shape = slot.shape ∧
      (rs.foldl meet slot).isDefault = false ∧ slot.reports rs = rs.filterMap (·.error? slot) := by
  induction rs generalizing slot with
  | nil => exact ⟨rfl, rfl, h, rfl⟩
  | cons r rs ih =>
    have hmeet := meet_of_isDefault (r := r) h
    obtain ⟨hty, hshape, hdefault, hreports⟩ := ih (slot.meet r) (by rw [hmeet, h])
    have herror : (fun x : MetReturn => x.error? (slot.meet r)) = fun x => x.error? slot := by
      funext x
      rw [hmeet]
      rfl
    rw [List.foldl_cons]
    refine ⟨by rw [hty, hmeet], by rw [hshape, hmeet], hdefault, ?_⟩
    rw [reports, hreports, herror, h, List.filterMap_cons]
    cases r.error? slot <;> simp

/-- As long as no known type is met the result stays open. -/
theorem foldl_meet_of_unknown (slot : ReturnSlot) (h : slot.isDefault = true) (rs : List MetReturn)
    (hrs : ∀ r ∈ rs, r.ty.isKnown = false) :
    (rs.foldl meet slot).isDefault = true ∧ slot.reports rs = [] := by
  induction rs generalizing slot with
  | nil => exact ⟨h, rfl⟩
  | cons r rs ih =>
    rw [List.forall_mem_cons] at hrs
    have hmeet := meet_of_isKnown slot hrs.1
    obtain ⟨hdefault, hreports⟩ := ih (slot.meet r) (by rw [hmeet, h]) hrs.2
    refine ⟨hdefault, ?_⟩
    rw [reports, hreports, h]
    rfl

/-- The first known type counts. -/
theorem foldl_meet_of_first (h : slot.isDefault = true) {before after : List MetReturn}
    {first : MetReturn} (hbefore : ∀ r ∈ before, r.ty.isKnown = false)
    (hfirst : first.ty.isKnown = true) :
    let final := (before ++ first :: after).foldl meet slot
    final.ty = first.ty ∧ final.isDefault = false ∧
      slot.reports (before ++ first :: after) = after.filterMap (·.error? final) := by
  intro final
  let open_ := before.foldl meet slot
  let known := open_.meet first
  obtain ⟨hdefault, hreports⟩ := foldl_meet_of_unknown slot h before hbefore
  have hknown : known = ⟨first.ty, first.shape <|> open_.shape, false, true⟩ := by
    rw [show known = open_.meet first from rfl, meet, if_pos ⟨hdefault, hfirst⟩]
  obtain ⟨hty, hshape, hclosed, hrest⟩ := foldl_meet_of_known known (by rw [hknown]) after
  have hfinal : final = after.foldl meet known := by
    rw [show final = (before ++ first :: after).foldl meet slot from rfl, List.foldl_append,
      List.foldl_cons]
  have herror : (fun x : MetReturn => x.error? known) = fun x => x.error? final := by
    funext x
    rw [hfinal, MetReturn.error?, MetReturn.error?, hty, hshape]
  refine ⟨?_, ?_, ?_⟩
  · rw [hfinal, hty, hknown]
  · rw [hfinal, hclosed]
  · rw [reports_append, hreports, reports, hdefault, List.nil_append, if_pos rfl]
    exact hrest.trans (by rw [herror])

theorem settle_of_isExplicit (h : slot.isExplicit = true) : slot.settle = slot := if_pos h

theorem isDefault_settle : slot.settle.isDefault = (slot.isDefault && slot.isExplicit) := by
  unfold settle
  split
  · next h => simp [h]
  · next h => simp [h]

theorem settle_eq (slot : ReturnSlot) :
    slot.settle.ty = slot.ty ∧ slot.settle.isExplicit = slot.isExplicit := by
  unfold settle
  split <;> exact ⟨rfl, rfl⟩

end ReturnSlot

/-- Whether shapes fit does not depend on how far their results are settled. -/
theorem Arena.fits_modify {a : Arena} {id : FuncShapeId} {f : FuncShape → FuncShape}
    (hf : ∀ g : FuncShape, (f g).params = g.params ∧ (f g).ret.ty = g.ret.ty ∧
      (f g).ret.shape = g.ret.shape) (x y : Option Shape) :
    (a.modify id f).fits x y = a.fits x y := by
  have hstands {R : Option Shape → Option Shape → Prop} {g g' k k' : FuncShape}
      (hg : k = g ∨ k = f g) (hg' : k' = g' ∨ k' = f g') : k.Stands R k' ↔ g.Stands R g' := by
    have hk : k.params = g.params ∧ k.ret.ty = g.ret.ty ∧ k.ret.shape = g.ret.shape := by
      rcases hg with rfl | rfl
      · exact ⟨rfl, rfl, rfl⟩
      · exact hf g
    have hk' : k'.params = g'.params ∧ k'.ret.ty = g'.ret.ty ∧ k'.ret.shape = g'.ret.shape := by
      rcases hg' with rfl | rfl
      · exact ⟨rfl, rfl, rfl⟩
      · exact hf g'
    rw [FuncShape.stands_iff, FuncShape.stands_iff, FuncShape.tagsFit, FuncShape.tagsFit,
      FuncShape.demands, FuncShape.demands, hk.1, hk.2.1, hk.2.2, hk'.1, hk'.2.1, hk'.2.2]
  have hsource (s : FuncShapeId) (k : FuncShape) (hk : (a.modify id f).get? s = some k) :
      ∃ g, a.get? s = some g ∧ (k = g ∨ k = f g) := by
    rw [get?_modify] at hk
    split at hk
    · obtain ⟨g, hg, rfl⟩ := Option.map_eq_some_iff.1 hk
      exact ⟨g, hg, .inr rfl⟩
    · exact ⟨k, hk, .inl rfl⟩
  have hmodified (s : FuncShapeId) (g : FuncShape) (hg : a.get? s = some g) :
      ∃ k, (a.modify id f).get? s = some k ∧ (k = g ∨ k = f g) := by
    rw [get?_modify, hg]
    split
    · exact ⟨f g, rfl, .inr rfl⟩
    · exact ⟨g, rfl, .inl rfl⟩
  have hclosed (opened : Set (FuncShapeId × FuncShapeId)) :
      (a.modify id f).Closed ∅ opened ↔ a.Closed ∅ opened := by
    refine forall_congr' fun s => forall_congr' fun t => imp_congr_right fun _ =>
      imp_congr_right fun _ => ?_
    constructor
    · rintro ⟨k, k', hk, hk', hfit⟩
      obtain ⟨g, hg, hkg⟩ := hsource s k hk
      obtain ⟨g', hg', hkg'⟩ := hsource t k' hk'
      exact ⟨g, g', hg, hg', (hstands hkg hkg').1 hfit⟩
    · rintro ⟨g, g', hg, hg', hfit⟩
      obtain ⟨k, hk, hkg⟩ := hmodified s g hg
      obtain ⟨k', hk', hkg'⟩ := hmodified t g' hg'
      exact ⟨k, k', hk, hk', (hstands hkg hkg').2 hfit⟩
  rw [Bool.eq_iff_iff, fits_eq_true_iff, fits_eq_true_iff]
  exact exists_congr fun opened => and_congr_left fun _ => hclosed opened

def FuncShape.explicit (g : FuncShape) : FuncShape :=
  { g with ret := { g.ret with isExplicit := true } }

/-- What a write to a state reports of a `return`, if the function of the shape `id` is the innermost
one there. -/
def Write.returnReport? (id : FuncShapeId) (s : CheckState) (w : Write) : Option Remark :=
  w.report?.filter fun x => s.frames.head? == some id && x.2.1.isReturn

namespace Check

/-- The `return` statements that are met while the function of the shape `id` is the innermost
one. -/
def returnsMet (env : CheckEnv) (id : FuncShapeId) : List Visit → CheckState → List MetReturn
  | [], _ => []
  | v :: vs, s =>
    (if s.frames.head? = some id then v.return?.map (MetReturn.mk s) else none).toList ++
      returnsMet env id vs (visit env s v)

def returnsCounted (env : CheckEnv) (id : FuncShapeId) (vs : List Visit) (s : CheckState) :
    List MetReturn :=
  (returnsMet env id vs s).filter fun r => !r.isSelfCall env id

/-- What is reported of `return` statements while the function of the shape `id` is the innermost
one. -/
def returnReports (env : CheckEnv) (id : FuncShapeId) (vs : List Visit) (s : CheckState) :
    List Remark :=
  (moments env vs s).filterMap fun m => m.write.returnReport? id m.before

variable {env : CheckEnv} {id : FuncShapeId} {v : Visit} {vs vs' : List Visit} {s : CheckState}

theorem returnsMet_append :
    returnsMet env id (vs ++ vs') s =
      returnsMet env id vs s ++ returnsMet env id vs' (vs.foldl (visit env) s) := by
  induction vs generalizing s with
  | nil => rfl
  | cons v vs ih => rw [List.cons_append, returnsMet, returnsMet, ih, List.append_assoc]; rfl

theorem returnReports_append :
    returnReports env id (vs ++ vs') s =
      returnReports env id vs s ++ returnReports env id vs' (vs.foldl (visit env) s) := by
  rw [returnReports, moments_append, List.filterMap_append]
  rfl

/-- What the visits do to the result of the function of the shape `id`, which is `g` at first: they
meet the `return` statements `rs` of it. -/
structure Meets (env : CheckEnv) (id : FuncShapeId) (rs : List Return) (vs : List Visit)
    (s : CheckState) (g : FuncShape) : Prop where
  written : (returnsMet env id vs s).map (·.written) = rs
  result : ∃ g', (vs.foldl (visit env) s).store.arena.get? id = some g' ∧ g'.origin = g.origin ∧
    g'.ret = (returnsCounted env id vs s).foldl ReturnSlot.meet g.ret
  reports : returnReports env id vs s = g.ret.reports (returnsCounted env id vs s)

theorem Meets.nil {g : FuncShape} (hg : s.store.arena.get? id = some g) :
    Meets env id [] [] s g :=
  ⟨rfl, ⟨g, hg, rfl, rfl⟩, rfl⟩

theorem Meets.append {rs rs' : List Return} {g : FuncShape} (h : Meets env id rs vs s g)
    (h' : ∀ g', (vs.foldl (visit env) s).store.arena.get? id = some g' → g'.origin = g.origin →
      Meets env id rs' vs' (vs.foldl (visit env) s) g') :
    Meets env id (rs ++ rs') (vs ++ vs') s g := by
  obtain ⟨g₁, hg₁, horigin₁, hret₁⟩ := h.result
  have hrest := h' g₁ hg₁ horigin₁
  obtain ⟨g₂, hg₂, horigin₂, hret₂⟩ := hrest.result
  have hcounted : returnsCounted env id (vs ++ vs') s = returnsCounted env id vs s ++
      returnsCounted env id vs' (vs.foldl (visit env) s) := by
    rw [returnsCounted, returnsMet_append, List.filter_append]
    rfl
  refine ⟨?_, ⟨g₂, ?_, horigin₂.trans horigin₁, ?_⟩, ?_⟩
  · rw [returnsMet_append, List.map_append, h.written, hrest.written]
  · rw [List.foldl_append, hg₂]
  · rw [hret₂, hret₁, hcounted, List.foldl_append]
  · rw [returnReports_append, h.reports, hrest.reports, hret₁, hcounted, ReturnSlot.reports_append]

/-- Visits that meet no `return` of the function and leave its result as it is. -/
theorem Meets.of_nil {g g' : FuncShape} (hmet : returnsMet env id vs s = [])
    (hreports : returnReports env id vs s = [])
    (hg' : (vs.foldl (visit env) s).store.arena.get? id = some g') (horigin : g'.origin = g.origin)
    (hret : g'.ret = g.ret) : Meets env id [] vs s g := by
  have hcounted : returnsCounted env id vs s = [] := by rw [returnsCounted, hmet, List.filter_nil]
  refine ⟨by rw [hmet, List.map_nil], ⟨g', hg', horigin, by rw [hcounted, hret, List.foldl_nil]⟩, ?_⟩
  rw [hreports, hcounted]
  rfl

theorem returnReports_visit (env : CheckEnv) (id : FuncShapeId) (v : Visit) (s : CheckState) :
    returnReports env id [v] s =
      ((v.apply env).trace s).filterMap fun x => x.2.returnReport? id x.1 := by
  rw [returnReports, moments, moments, List.append_nil, List.filterMap_map]
  rfl

/-- Nothing is reported of a `return` of the function of the shape `id`. -/
def Quiet (id : FuncShapeId) (s : CheckState) (w : Write) : Prop :=
  ∀ x ∈ w.report?, x.2.1.isReturn = true → s.frames.head? ≠ some id

theorem returnReports_of_quiet {Q : Unit → CheckState → Prop}
    (h : (v.apply env).Ensures (Quiet id) Q s) : returnReports env id [v] s = [] := by
  rw [returnReports_visit, List.filterMap_eq_nil_iff]
  intro x hx
  have hquiet := (ensures_iff_trace.1 h).1 x hx
  rw [Write.returnReport?, Option.filter_eq_none_iff]
  intro report hreport h
  rw [Bool.and_eq_true, beq_iff_eq] at h
  exact hquiet report hreport h.2 h.1

variable {P : NodeId → Prop} {g : FuncShape}

/-- A rule that is not about the result of the function of the shape `id` reports nothing of it. -/
theorem Ordinary.quiet {B : BindingId → Prop} {own : FuncShapeId → FuncShape → FuncShape → Prop}
    {m : Check α} (h : m.Ordinary True P B own False) (hs : s.InOrder P) (id : FuncShapeId) :
    m.Ensures (Quiet id) (fun _ _ => True) s := by
  refine (h s fun _ => hs.tells).mono (fun t w hw x hx hcode => ?_) fun _ _ h => h
  cases w with
  | report severity code message pos =>
    obtain rfl := Option.some.inj hx
    exact (hw hcode).elim
  | _ => cases hx

theorem returnsMet_visit_eq_nil (hreturn : v.return? = none ∨ s.frames.head? ≠ some id) :
    returnsMet env id [v] s = [] := by
  rcases hreturn with hnone | hhead
  · simp [returnsMet, hnone]
  · simp [returnsMet, hhead]

section

variable (himplies : ∀ param i, env.ImpliesAt param i → P param.id ∧ P i.node.id)

include himplies

/-- A visit that is not of a `return` of the function reports none. -/
theorem returnReports_visit_eq_nil (hv : v.Regular P)
    (hreturn : v.return? = none ∨ s.frames.head? ≠ some id) (hs : s.InOrder P) :
    returnReports env id [v] s = [] := by
  by_cases hbracket : v.isBracket = false
  · have hrun := (v.ensures_ordinary hv hbracket himplies hs.tells).invariant
      (I := fun t => t.frames = s.frames) rfl fun t w ht hw => (hw.frames t).trans ht
    refine returnReports_of_quiet (hrun.mono ?_ fun _ _ h => h)
    rintro t w ⟨hframes, hw⟩ x hx hcode
    cases w with
    | report severity code message pos =>
      obtain rfl := Option.some.inj hx
      have hsome := hw hcode
      rcases hreturn with hnone | hhead
      · simp [hnone] at hsome
      · rwa [hframes]
    | _ => cases hx
  cases v with
  | enterFunction n f =>
    have hquiet : (enterFunction n f).Ensures (Quiet id) (fun _ _ => True) s := by
      simp [enterFunction, Quiet, Write.report?]
    exact returnReports_of_quiet hquiet
  | leaveFunction pos name result =>
    have hquiet : (leaveFunction pos name result).Ensures (Quiet id) (fun _ _ => True) s := by
      refine ensures_bind.2 ?_
      rw [ensures_frame?]
      split
      · next id' _ =>
        have hsettle : (settleResult id' result).Ordinary True P (fun _ => False)
            (fun _ _ _ => True) False :=
          ordinary_settleResult (fun _ _ => trivial) fun n hn _ => hv n hn
        refine ensures_bind.2 ((hsettle.quiet hs id).imp fun _ t _ => ?_)
        simp [Quiet, Write.report?, Code.isReturn]
      · trivial
    exact returnReports_of_quiet hquiet
  | _ => exact absurd rfl hbracket

/-- A visit that is not of a `return` of the function leaves its result as it is. -/
theorem meets_visit (hv : v.Regular P) (hbracket : v.isBracket = false)
    (hreturn : v.return? = none ∨ s.frames.head? ≠ some id) (hs : s.InOrder P)
    (hg : s.store.arena.get? id = some g) : Meets env id [] [v] s g := by
  have halters (g g' : FuncShape) (hhead : s.frames.head? = some id) (h : v.Alters g g') :
      g'.ret = g.ret := by
    cases v with
    | parameters params => exact h
    | return_ pos argument => exact absurd hhead (hreturn.resolve_left (by simp [Visit.return?]))
    | _ => exact h.elim
  have hrun := (v.ensures_ordinary hv hbracket himplies hs.tells).invariant
    (I := fun t => ∃ g', t.store.arena.get? id = some g' ∧ g'.origin = g.origin ∧ g'.ret = g.ret)
    ⟨g, hg, rfl, rfl⟩ (by
      rintro t w ⟨g₁, hg₁, horigin₁, hret₁⟩ hw
      rw [Write.store_apply]
      rcases Write.get?_onStore (w := w) hg₁ with hkeep | ⟨f, rfl, hnew⟩
      · exact ⟨g₁, hkeep, horigin₁, hret₁⟩
      · refine ⟨f g₁, hnew, (hw g₁).1.1.trans horigin₁, ?_⟩
        rcases (hw g₁).2 with hagrees | ⟨hhead, halter⟩
        · exact hagrees.ret.trans hret₁
        · exact (halters g₁ (f g₁) hhead halter).trans hret₁)
  obtain ⟨-, ⟨g', hg', horigin, hret⟩, -⟩ := ensures_iff_trace.1 hrun
  exact .of_nil (returnsMet_visit_eq_nil hreturn)
    (returnReports_visit_eq_nil himplies hv hreturn hs) hg' horigin hret

theorem meets_enterFunction {n : NodeId} {f k : FuncId} (hn : P n) (hs : s.InOrder P)
    (hf : f < s.store.byFunction.size) (hg : s.store.arena.get? id = some g)
    (hk : g.origin = some k) (hne : f ≠ k) : Meets env id [] [.enterFunction n f] s g := by
  obtain ⟨g', hg', hagrees⟩ := (local_enterFunction env hn hs hf).spares.agrees id g hg
    (fun h => h) (by
      rintro j rfl hj
      exact hne (Option.some.inj (hj.symm.trans hk)))
  exact .of_nil (returnsMet_visit_eq_nil (.inl rfl))
    (returnReports_visit_eq_nil himplies hn (.inl rfl) hs) hg' hagrees.origin hagrees.ret

theorem meets_leaveFunction {id' : FuncShapeId} (hhead : s.frames.head? = some id') (hne : id ≠ id')
    (pos : Position) (name : String) {result : Option NodeId} (hresult : ∀ n ∈ result, P n)
    (hs : s.InOrder P) (hg : s.store.arena.get? id = some g) :
    Meets env id [] [.leaveFunction pos name result] s g := by
  have hlocal : Local P (fun _ => False) (· = id') env [.leaveFunction pos name result] s :=
    (local_leaveFunction env hhead pos name hresult hs).1
  obtain ⟨g', hg', hagrees⟩ := hlocal.spares.agrees id g hg hne fun _ h => h.elim
  exact .of_nil (returnsMet_visit_eq_nil (.inl rfl))
    (returnReports_visit_eq_nil himplies hresult (.inl rfl) hs) hg' hagrees.origin hagrees.ret

omit himplies in
/-- A function whose body is a block is left with the result that it has. -/
theorem store_leaveFunction (hid : s.frames.head? = some id) (pos : Position) (name : String) :
    (visit env s (.leaveFunction pos name none)).store =
      s.store.modifyFunc id fun g => { g with ret := g.ret.settle } := by
  have hrun : (leaveFunction pos name none).Ensures (fun _ _ => True)
      (fun _ t => t.store = s.store.modifyFunc id fun g => { g with ret := g.ret.settle }) s := by
    refine ensures_bind.2 ?_
    rw [ensures_frame?, hid]
    exact ⟨trivial, trivial, trivial, rfl⟩
  exact (ensures_iff_trace.1 hrun).2

/-- Where a function is not open, nothing is met and reported of its `return` statements. -/
theorem returns_of_around {k : FuncId} (h : Around P k vs s)
    (hid : ∀ g, (vs.foldl (visit env) s).store.arena.get? id = some g → g.origin = some k) :
    returnsMet env id vs s = [] ∧ returnReports env id vs s = [] := by
  induction vs generalizing s with
  | nil => exact ⟨rfl, rfl⟩
  | cons v vs ih =>
    -- The function of the shape is `k`, if it is there at all, so it is not the innermost one.
    have hhead : s.frames.head? ≠ some id := by
      intro hhead
      obtain ⟨g, j, hg, hj, hne⟩ := h.outside id (List.mem_of_mem_head? hhead)
      obtain ⟨g', hg', hj'⟩ := (bypasses_visits himplies h).1.origin ⟨g, hg, hj⟩
      exact hne (Option.some.inj (hj'.symm.trans (hid g' hg')))
    have hv := h.regular v (List.mem_cons_self ..)
    have hmet : returnsMet env id [v] s = [] := returnsMet_visit_eq_nil (.inr hhead)
    have hreports := returnReports_visit_eq_nil himplies hv (.inr hhead) h.inOrder
    rw [← List.singleton_append, returnsMet_append, returnReports_append, hmet, hreports]
    exact ih (h.tail himplies) hid

end

theorem filterMap_returnReport? (hid : s.frames.head? = some id) (severity : Severity) (code : Code)
    (hcode : code.isReturn = true) (message : String) (pos : Position) :
    [(s, Write.report severity code message pos)].filterMap (fun x => x.2.returnReport? id x.1) =
      [(severity, code, pos)] := by
  have hreport : (Write.report severity code message pos).returnReport? id s =
      some (severity, code, pos) := by
    simp [Write.returnReport?, Write.report?, hid, hcode]
  simp [hreport]

/-- A result that is open takes the first known type, and one that is known is compared with. -/
theorem meetResult_spec (hid : s.frames.head? = some id) (hg : s.store.arena.get? id = some g)
    (ty : Ty) (shape : Option Shape) (pos : Position) :
    ((meetResult id ty shape pos).run s).2.store.arena.get? id =
      some { g with ret :=
        if g.ret.isDefault = true ∧ ty.isKnown = true then
          ⟨ty, shape <|> g.ret.shape, false, g.ret.isExplicit⟩
        else g.ret } ∧
    ((meetResult id ty shape pos).trace s).filterMap (fun x => x.2.returnReport? id x.1) =
      (if g.ret.isDefault = true then none
        else if ty.tag.fits g.ret.ty.tag = false then some (.error, .returnType, pos)
        else if (shape.isSome || g.ret.shape.isSome) = true ∧
            s.store.arena.fits shape g.ret.shape = false then some (.error, .returnShape, pos)
        else none : Option Remark).toList := by
  rw [meetResult]
  simp only [func?, run_bind, trace_bind, run_getStore, trace_getStore, run_pure, trace_pure, hg,
    List.nil_append]
  cases hdefault : g.ret.isDefault with
  | true =>
    cases hknown : ty.isKnown with
    | true =>
      simp [run_put, trace_put, Write.store_apply, Write.onStore, Store.modifyFunc,
        Arena.get?_modify, hg, Write.returnReport?, Write.report?]
    | false => simp [run_pure, trace_pure, hg]
  | false =>
    cases hfits : ty.tag.fits g.ret.ty.tag with
    | false =>
      have hreport := filterMap_returnReport? hid .error .returnType rfl
        (unexpectedType "Return type mismatched" ty.tag (some g.ret.ty.tag.name)) pos
      simp [run_put, trace_put, hg, hreport, Write.store_apply, Write.onStore]
    | true =>
      have hreport := filterMap_returnReport? hid .error .returnShape rfl
        (unexpectedShape "Return shape mismatched" (s.store.arena.describe g.ret.shape)
          (s.store.arena.describe shape)) pos
      cases hsome : shape.isSome || g.ret.shape.isSome with
      | false =>
        simp [run_bind, trace_bind, run_getStore, trace_getStore, run_pure, trace_pure, hg]
      | true =>
        cases hshape : s.store.arena.fits shape g.ret.shape <;>
          simp [run_bind, trace_bind, run_getStore, trace_getStore, run_pure, trace_pure, run_put,
            trace_put, hg, hshape, hreport, Write.store_apply, Write.onStore]

/-- A `return` that counts is noted, and what it returns is compared with the result. -/
theorem return_spec (hid : s.frames.head? = some id) (pos : Position) (argument : Option Expr)
    (hself : MetReturn.isSelfCall env id ⟨s, (pos, argument)⟩ = false) :
    let r : MetReturn := ⟨s, (pos, argument)⟩
    ∃ t : CheckState, t.frames = s.frames ∧
      t.store.arena = s.store.arena.modify id FuncShape.explicit ∧
      ((return_ env pos argument).run s).2 = ((meetResult id r.ty r.shape r.pos).run t).2 ∧
      ((return_ env pos argument).trace s).filterMap (fun x => x.2.returnReport? id x.1) =
        ((meetResult id r.ty r.shape r.pos).trace t).filterMap fun x => x.2.returnReport? id x.1 := by
  intro r
  let noted := (Write.func id FuncShape.explicit).apply s
  have hwrites (u : CheckState) (w : Write) (hw : w.report? = none) :
      [(u, w)].filterMap (fun x => x.2.returnReport? id x.1) = [] := by
    simp [Write.returnReport?, hw]
  have hcounts : argument.any (isSelfCall env s.store id) = false := hself
  rw [return_]
  simp only [run_bind, trace_bind, run_frame?, trace_frame?, hid, run_getStore, trace_getStore,
    List.nil_append, hcounts, Bool.false_eq_true, ↓reduceIte]
  simp only [modifyReturn, modifyFunc, run_put, trace_put, List.filterMap_append,
    hwrites s (.func _ _) rfl, List.nil_append]
  cases argument with
  | none =>
    refine ⟨(Write.known (.ret id)).apply noted, rfl, rfl, ?_, ?_⟩
    · simp only [run_bind, markKnown, run_put]
      rfl
    · simp only [trace_bind, markKnown, run_put, trace_put, List.filterMap_append,
        hwrites _ (.known _) rfl, List.nil_append]
      rfl
  | some e =>
    simp only [knownType?, ty?, shape?, run_bind, trace_bind, run_getStore, trace_getStore, run_pure,
      trace_pure, List.nil_append]
    split
    · refine ⟨(Write.known (.ret id)).apply noted, rfl, rfl, ?_, ?_⟩
      · simp only [run_bind, markKnown, run_put]
        rfl
      · simp only [trace_bind, markKnown, run_put, trace_put, List.filterMap_append,
          hwrites _ (.known _) rfl, List.nil_append]
        rfl
    · exact ⟨noted, rfl, rfl, rfl, rfl⟩

theorem meets_return (hid : s.frames.head? = some id) (hg : s.store.arena.get? id = some g)
    (pos : Position) (argument : Option Expr) :
    Meets env id [(pos, argument)] [.return_ pos argument] s g := by
  let r : MetReturn := ⟨s, (pos, argument)⟩
  have hmet : returnsMet env id [.return_ pos argument] s = [r] := by
    simp [returnsMet, hid, Visit.return?, r]
  cases hself : r.isSelfCall env id with
  | true =>
    have hcounted : returnsCounted env id [.return_ pos argument] s = [] := by
      simp [returnsCounted, hmet, hself]
    have hself : argument.any (isSelfCall env s.store id) = true := hself
    have hrun : (return_ env pos argument).Ensures (fun _ _ => False) (fun _ t => t = s) s := by
      refine ensures_bind.2 ?_
      rw [ensures_frame?, hid]
      simp [hself]
    have hend : visit env s (.return_ pos argument) = s := (ensures_iff_trace.1 hrun).2
    refine ⟨by rw [hmet]; rfl, ⟨g, ?_, rfl, by rw [hcounted]; rfl⟩, ?_⟩
    · rw [List.foldl_cons, List.foldl_nil, hend, hg]
    · rw [hcounted]
      exact returnReports_of_quiet (hrun.mono (fun _ _ h => h.elim) fun _ _ h => h)
  | false =>
    have hcounted : returnsCounted env id [.return_ pos argument] s = [r] := by
      simp [returnsCounted, hmet, hself]
    obtain ⟨t, hframes, harena, hrun, htrace⟩ := return_spec hid pos argument hself
    have hgt : t.store.arena.get? id = some g.explicit := by
      rw [harena, Arena.get?_modify, if_pos rfl, hg]
      rfl
    obtain ⟨hresult, hreports⟩ := meetResult_spec (by rw [hframes, hid]) hgt r.ty r.shape r.pos
    refine ⟨by rw [hmet]; rfl, ⟨{ g with ret := g.ret.meet r }, ?_, rfl, by rw [hcounted]; rfl⟩, ?_⟩
    · exact (congrArg (fun u : CheckState => u.store.arena.get? id) hrun).trans hresult
    · rw [hcounted, returnReports_visit]
      refine htrace.trans (hreports.trans ?_)
      rw [harena, Arena.fits_modify (f := FuncShape.explicit) fun _ => ⟨rfl, rfl, rfl⟩]
      simp [ReturnSlot.reports, MetReturn.error?, FuncShape.explicit, r]

end Check

section

variable {P : NodeId → Prop} {env : CheckEnv} {id : FuncShapeId}
  (himplies : ∀ param i, env.ImpliesAt param i → P param.id ∧ P i.node.id)

include himplies

/-- Where a function is the innermost one, a walk meets the `return` statements that are outside of
the functions in it, and elsewhere it meets none. -/
theorem Walk.meets {fs : List Func} {noted : Bool} {rs : List Return} {vs : List Visit}
    (h : Walk P fs noted rs vs) {s : CheckState} (hs : s.InOrder P)
    (hsize : ∀ f ∈ fs, f.func < s.store.byFunction.size)
    {g : FuncShape} (hg : s.store.arena.get? id = some g) {k : FuncId} (hk : g.origin = some k)
    (hfs : k ∉ fs.map (·.func)) :
    Check.Meets env id (if s.frames.head? = some id then rs else []) vs s g := by
  induction h generalizing s g with
  | nil => simpa using Check.Meets.nil hg
  | @append _ _ _ _ rs rs' _ _ hwalk _ ih ih' =>
    rw [List.forall_mem_append] at hsize
    rw [List.map_append, List.mem_append, not_or] at hfs
    have hfirst := hwalk.stays himplies hs hsize.1
    have hrs : (if s.frames.head? = some id then rs ++ rs' else []) =
        (if s.frames.head? = some id then rs else []) ++
          if s.frames.head? = some id then rs' else [] := by
      split <;> simp
    rw [hrs]
    refine (ih hs hsize.1 hg hk hfs.1).append fun g' hg' horigin => ?_
    have hrest := ih' (hfirst.inOrder hs) (by rw [hfirst.spares.size]; exact hsize.2) hg'
      (horigin.trans hk) hfs.2
    rwa [hfirst.frames] at hrest
  | visit hv =>
    have hreturn : ∀ v : Visit, v.isOwn = false → v.return? = none := by
      intro v hv
      cases v with
      | return_ pos argument => cases hv
      | _ => rfl
    simpa using Check.meets_visit himplies hv.regular hv.isBracket (.inl (hreturn _ hv.isOwn)) hs hg
  | parameters params =>
    simpa using Check.meets_visit himplies (v := .parameters params) trivial rfl (.inl rfl) hs hg
  | return_ pos hargument =>
    split
    · next hid => exact Check.meets_return hid hg pos _
    · next hid =>
      exact Check.meets_visit himplies (v := .return_ pos _) hargument rfl (.inr hid) hs hg
  | @function f place fs hnode hinner hresult ih =>
    rw [List.forall_mem_cons] at hsize
    rw [List.map_cons, List.mem_cons, not_or] at hfs
    let entry := Check.visit env s (.enterFunction f.node.id f.func)
    have hentry : entry.InOrder P := (Check.local_enterFunction env hnode hs hsize.1).inOrder hs
    obtain ⟨id', g₀, hentered⟩ := Check.entered_enterFunction env (n := f.node.id) hs hsize.1
    have hsize' : ∀ k ∈ fs, k.func < entry.store.byFunction.size := by
      rw [hentered.size]
      exact hsize.2
    have hhead : entry.frames.head? = some id' := by rw [hentered.frames, List.head?_cons]
    have hstays := hinner.stays himplies hentry hsize'
    have henter : Check.Meets env id [] [.enterFunction f.node.id f.func] s g :=
      Check.meets_enterFunction himplies hnode hs hsize.1 hg hk (Ne.symm hfs.1)
    have hne : id ≠ id' :=
      Check.ne_of_enterFunction env hnode hs hsize.1 ⟨g, hg, hk⟩ hfs.1 hentered.shape
    rw [ite_self, Func.visits_eq]
    change Check.Meets env id ([] ++ [] ++ []) _ s g
    refine (henter.append fun g₁ hg₁ horigin₁ => ?_).append fun g₂ hg₂ horigin₂ => ?_
    · have hmeets := ih hentry hsize' hg₁ (horigin₁.trans hk) hfs.2
      rwa [if_neg (by rw [hhead]; exact fun h => hne (Option.some.inj h).symm)] at hmeets
    · rw [List.foldl_append] at hg₂ ⊢
      exact Check.meets_leaveFunction himplies ((congrArg List.head? hstays.frames).trans hhead) hne _ _
        hresult (hstays.inOrder hentry) hg₂

/-- The result of a function whose body is a block is open at first, meets its `return` statements
one after the other, and is settled in the end. -/
theorem Func.Inside.meets {f : Func} {fs fs' : List Func} (hinside : f.Inside P fs fs')
    (hresult : f.body.result? = none) (place : Option String) {s : CheckState} (hs : s.InOrder P)
    (hsize : ∀ k ∈ f :: (fs ++ fs'), k.func < s.store.byFunction.size)
    (hinner : f.func ∉ (fs ++ fs').map (·.func)) :
    let t := (f.visits place).foldl (Check.visit env) s
    ∃ id g₀ g, (s.store.functionShape? f.func = some id ∧ s.store.arena.get? id = some g₀ ∨
        s.store.functionShape? f.func = none ∧ s.store.arena.get? id = none ∧
          g₀ = .ofFunction f.func) ∧
      t.store.functionShape? f.func = some id ∧ t.store.arena.get? id = some g ∧
      (Check.returnsMet env id (f.visits place) s).map (·.written) = f.body.ownReturns ∧
      g.ret = ((Check.returnsCounted env id (f.visits place) s).foldl ReturnSlot.meet
        { g₀.ret with isDefault := true }).settle ∧
      Check.returnReports env id (f.visits place) s =
        { g₀.ret with isDefault := true : ReturnSlot }.reports
          (Check.returnsCounted env id (f.visits place) s) := by
  intro t
  rw [List.forall_mem_cons] at hsize
  let entry := Check.visit env s (.enterFunction f.node.id f.func)
  let last := f.innerVisits.foldl (Check.visit env) entry
  have hentry : entry.InOrder P := (Check.local_enterFunction env hinside.node hs hsize.1).inOrder hs
  obtain ⟨id, g₀, hentered⟩ := Check.entered_enterFunction env (n := f.node.id) hs hsize.1
  have hsize' : ∀ k ∈ fs ++ fs', k.func < entry.store.byFunction.size := by
    rw [hentered.size]
    exact hsize.2
  have hhead : entry.frames.head? = some id := by rw [hentered.frames, List.head?_cons]
  have horigin : g₀.origin = some f.func := by
    obtain ⟨g', hg', horigin⟩ := hentry.originates f.func id hentered.shape
    obtain rfl := Option.some.inj (hg'.symm.trans hentered.get?)
    exact horigin
  have hstays := hinside.walk_inner.stays himplies hentry hsize'
  have hmeets := hinside.walk_inner.meets himplies hentry hsize' hentered.get? horigin hinner
  rw [if_pos hhead] at hmeets
  obtain ⟨g₁, hg₁, -, hret₁⟩ := hmeets.result
  -- Nothing is met where the function begins and ends.
  let leave := Visit.leaveFunction f.node.pos (Func.reportName f.name place) f.body.result?
  have hmet : Check.returnsMet env id (f.visits place) s =
      Check.returnsMet env id f.innerVisits entry := by
    have henter : Check.returnsMet env id [.enterFunction f.node.id f.func] s = [] :=
      Check.returnsMet_visit_eq_nil (.inl rfl)
    have hleave : Check.returnsMet env id [leave] last = [] :=
      Check.returnsMet_visit_eq_nil (.inl rfl)
    rw [Func.visits_eq, Check.returnsMet_append, Check.returnsMet_append, henter, List.nil_append,
      List.foldl_append]
    exact (congrArg (_ ++ ·) hleave).trans (List.append_nil _)
  have hreports : Check.returnReports env id (f.visits place) s =
      Check.returnReports env id f.innerVisits entry := by
    have henter : Check.returnReports env id [.enterFunction f.node.id f.func] s = [] :=
      Check.returnReports_visit_eq_nil himplies hinside.node (.inl rfl) hs
    have hleave : Check.returnReports env id [leave] last = [] :=
      Check.returnReports_visit_eq_nil himplies hinside.result (.inl rfl) (hstays.inOrder hentry)
    rw [Func.visits_eq, Check.returnReports_append, Check.returnReports_append, henter,
      List.nil_append, List.foldl_append]
    exact (congrArg (_ ++ ·) hleave).trans (List.append_nil _)
  have hcounted : Check.returnsCounted env id (f.visits place) s =
      Check.returnsCounted env id f.innerVisits entry := by
    rw [Check.returnsCounted, hmet, Check.returnsCounted]
  have hend : t.store = last.store.modifyFunc id fun g => { g with ret := g.ret.settle } := by
    have ht : t = Check.visit env last leave := by
      rw [show t = (f.visits place).foldl (Check.visit env) s from rfl, Func.visits_eq,
        List.foldl_append, List.foldl_append]
      rfl
    have hlast : last.frames.head? = some id := (congrArg List.head? hstays.frames).trans hhead
    rw [ht, show leave = .leaveFunction f.node.pos (Func.reportName f.name place) none by
      rw [← hresult]]
    exact Check.store_leaveFunction hlast _ _
  refine ⟨id, g₀, { g₁ with ret := g₁.ret.settle }, hentered.source, ?_, ?_, ?_, ?_, ?_⟩
  · have hshape := (hstays.spares.functionShape? f.func hinner).trans hentered.shape
    rw [hend]
    exact hshape
  · rw [hend, Store.modifyFunc, Arena.get?_modify, if_pos rfl, hg₁]
    rfl
  · rw [hmet, hmeets.written]
  · rw [hcounted, hret₁]
  · rw [hreports, hcounted, hmeets.reports]

end

def Store.result? (s : Store) (f : FuncId) : Option (FuncShapeId × ReturnSlot) :=
  (s.functionShape? f).bind fun id => (s.arena.get? id).map fun g => (id, g.ret)

theorem Store.result?_eq {s : Store} {f : FuncId} {id : FuncShapeId} {g : FuncShape}
    (hid : s.functionShape? f = some id) (hg : s.arena.get? id = some g) :
    s.result? f = some (id, g.ret) := by
  rw [result?, hid, Option.bind_some, hg, Option.map_some]

/-- What does not go beyond other functions keeps the shape of a function. -/
theorem CheckState.Spares.keeps {k : FuncId} {s t : CheckState} {id : FuncShapeId} {g : FuncShape}
    (h : Spares (· ≠ k) (fun _ => False) s t) (hid : s.store.functionShape? k = some id)
    (hg : s.store.arena.get? id = some g) (hk : g.origin = some k) :
    ∃ g', t.store.functionShape? k = some id ∧ t.store.arena.get? id = some g' ∧ g.Agrees g' := by
  obtain ⟨g', hg', hagrees⟩ := h.agrees id g hg (fun h => h) fun j hj hj' =>
    hj (Option.some.inj (hj'.symm.trans hk))
  exact ⟨g', (h.functionShape? k fun h => h rfl).trans hid, hg', hagrees⟩

namespace Program

variable {p : Program} {config : Config} {s : CheckState}

/-- One pass: the result that a function has at its start, or the first one, is opened, meets the
`return` statements of the function, and is settled, and the rest of the pass leaves it so. -/
theorem FunctionSite.meets {f : Func} {pre post : List Visit} {place : Option String}
    {fs fs' : List Func} (hsite : p.FunctionSite f pre place post fs fs') (hp : p.WellFormed)
    (hresult : f.body.result? = none) (hs : p.Between s) :
    let env := p.checkEnv config
    let finish := (f.visits place).foldl (Check.visit env) (pre.foldl (Check.visit env) s.beginPass)
    ∃ id first last, (s.store.result? f.func = some (id, first) ∨
        s.store.functionShape? f.func = none ∧ first = (FuncShape.ofFunction f.func).ret) ∧
      finish.store.result? f.func = some (id, last) ∧
      (Check.pass env p.visits s).store.result? f.func = some (id, last) ∧
      (Check.returnsMet env id p.visits s.beginPass).map (·.written) = f.body.ownReturns ∧
      last = ((Check.returnsCounted env id p.visits s.beginPass).foldl ReturnSlot.meet
        { first with isDefault := true }).settle ∧
      Check.returnReports env id p.visits s.beginPass =
        { first with isDefault := true : ReturnSlot }.reports
          (Check.returnsCounted env id p.visits s.beginPass) := by
  intro env finish
  have himplies := hp.flat_of_impliesAt config
  let start := pre.foldl (Check.visit env) s.beginPass
  obtain ⟨hstart, -⟩ : p.Between start ∧ start.Outside f.func := hsite.between_start hp hs
  obtain ⟨hfinish, hout⟩ : p.Between finish ∧ finish.Outside f.func := hsite.between_finish hp hs
  have hpre := (Check.bypasses_visits himplies (hsite.around_pre hs)).1
  have hpost := (Check.bypasses_visits himplies (hsite.around_post hfinish hout)).1
  have hpass : Check.pass env p.visits s = post.foldl (Check.visit env) finish := by
    rw [Check.pass, hsite.visits, List.foldl_append, List.foldl_append]
  obtain ⟨id, g₀, g, hsource, hid, hg, hwritten, hret, hreports⟩ :=
    hsite.inside.meets himplies hresult place hstart.inOrder (hsite.inner_lt hstart) hsite.inner
  have horigin : g.origin = some f.func := hfinish.inOrder.origin_eq hid hg
  obtain ⟨g', hid', hg', hagrees⟩ := hpost.spares.keeps hid hg horigin
  -- Nothing is met before the function and after it.
  have hbefore : Check.returnsMet env id pre s.beginPass = [] ∧
      Check.returnReports env id pre s.beginPass = [] := by
    refine Check.returns_of_around himplies (hsite.around_pre hs) fun k hk => ?_
    rcases hsource with ⟨hshape, -⟩ | ⟨-, hnone, -⟩
    · exact hstart.inOrder.origin_eq hshape hk
    · exact absurd (hnone.symm.trans hk) (by simp)
  have hafter : Check.returnsMet env id post finish = [] ∧
      Check.returnReports env id post finish = [] := by
    refine Check.returns_of_around himplies (hsite.around_post hfinish hout) fun k hk => ?_
    obtain rfl := Option.some.inj (hg'.symm.trans hk)
    exact hagrees.origin.trans horigin
  have hmet : Check.returnsMet env id p.visits s.beginPass =
      Check.returnsMet env id (f.visits place) start := by
    rw [hsite.visits, Check.returnsMet_append, Check.returnsMet_append, hbefore.1, List.nil_append,
      List.foldl_append]
    exact (congrArg (_ ++ ·) hafter.1).trans (List.append_nil _)
  have hreported : Check.returnReports env id p.visits s.beginPass =
      Check.returnReports env id (f.visits place) start := by
    rw [hsite.visits, Check.returnReports_append, Check.returnReports_append, hbefore.2,
      List.nil_append, List.foldl_append]
    exact (congrArg (_ ++ ·) hafter.2).trans (List.append_nil _)
  have hcounted : Check.returnsCounted env id p.visits s.beginPass =
      Check.returnsCounted env id (f.visits place) start := by
    rw [Check.returnsCounted, hmet, Check.returnsCounted]
  refine ⟨id, g₀.ret, g.ret, ?_, Store.result?_eq hid hg, ?_, ?_, ?_, ?_⟩
  · have htable := hpre.spares.functionShape? f.func fun h => h rfl
    rcases hsource with ⟨hshape, hg₀⟩ | ⟨hshape, -, rfl⟩
    · have hshape' : s.store.functionShape? f.func = some id := htable.symm.trans hshape
      obtain ⟨k, hk, hkf⟩ := hs.inOrder.originates f.func id hshape'
      obtain ⟨k', -, hk', hagrees'⟩ := hpre.spares.keeps hshape' hk hkf
      obtain rfl := Option.some.inj (hk'.symm.trans hg₀)
      rw [hagrees'.ret]
      exact .inl (Store.result?_eq hshape' hk)
    · exact .inr ⟨htable.symm.trans hshape, rfl⟩
  · rw [hpass, ← hagrees.ret]
    exact Store.result?_eq hid' hg'
  · rw [hmet, hwritten]
  · rw [hcounted, hret]
  · rw [hreported, hcounted, hreports]

/-- What is known of the result of a function where a pass starts: whether an earlier pass has met a
`return` that counts, and that the result is `undef` otherwise. -/
def Remembers (p : Program) (config : Config) (f : FuncId) (earlier : List CheckState)
    (s : CheckState) : Prop :=
  earlier = [] ∧ s.store.functionShape? f = none ∨
    ∃ id slot, s.store.result? f = some (id, slot) ∧
      (slot.isExplicit = true ↔
        ∃ t ∈ earlier, Check.returnsCounted (p.checkEnv config) id p.visits t.beginPass ≠ []) ∧
      (slot.isExplicit = false → slot.ty = .inferred .undef)

theorem Remembers.first {f : FuncId} {earlier : List CheckState} {id : FuncShapeId}
    {first : ReturnSlot} (h : p.Remembers config f earlier s)
    (hfirst : s.store.result? f = some (id, first) ∨
      s.store.functionShape? f = none ∧ first = (FuncShape.ofFunction f).ret) :
    (first.isExplicit = true ↔
        ∃ t ∈ earlier, Check.returnsCounted (p.checkEnv config) id p.visits t.beginPass ≠ []) ∧
      (first.isExplicit = false → first.ty = .inferred .undef) := by
  have hnone (hf : s.store.functionShape? f = none) : s.store.result? f = none := by
    rw [Store.result?, hf, Option.bind_none]
  rcases h with ⟨rfl, hf⟩ | ⟨id', slot, hslot, hexplicit, hty⟩
  · rcases hfirst with hfirst | ⟨-, rfl⟩
    · exact absurd ((hnone hf).symm.trans hfirst) (by simp)
    · simp [FuncShape.ofFunction]
  · rcases hfirst with hfirst | ⟨hf, -⟩
    · cases hslot.symm.trans hfirst
      exact ⟨hexplicit, hty⟩
    · exact absurd ((hnone hf).symm.trans hslot) (by simp)

/-- A pass adds what it meets itself. -/
theorem Remembers.last {f : FuncId} {earlier : List CheckState} {id : FuncShapeId}
    {first : ReturnSlot} (h : p.Remembers config f earlier s)
    (hfirst : s.store.result? f = some (id, first) ∨
      s.store.functionShape? f = none ∧ first = (FuncShape.ofFunction f).ret) :
    let counted (t : CheckState) :=
      Check.returnsCounted (p.checkEnv config) id p.visits t.beginPass
    let last := ((counted s).foldl ReturnSlot.meet { first with isDefault := true }).settle
    (last.isExplicit = true ↔ ∃ t ∈ earlier ++ [s], counted t ≠ []) ∧
      (last.isExplicit = false → last.ty = .inferred .undef) := by
  intro counted last
  obtain ⟨hexplicit, hty⟩ := h.first hfirst
  let met := (counted s).foldl ReturnSlot.meet { first with isDefault := true }
  obtain ⟨hsettle, hsettle'⟩ : last.ty = met.ty ∧ last.isExplicit = met.isExplicit := met.settle_eq
  have hmet : met.isExplicit = true ↔ first.isExplicit = true ∨ counted s ≠ [] :=
    ReturnSlot.isExplicit_foldl_meet
  refine ⟨?_, fun hfalse => ?_⟩
  · rw [hsettle', hmet, hexplicit]
    simp [counted, or_and_right, exists_or]
  · rw [hsettle', ← Bool.not_eq_true, hmet, not_or, not_not] at hfalse
    have hunmet : met = { first with isDefault := true } := by
      rw [show met = (counted s).foldl _ _ from rfl, hfalse.2, List.foldl_nil]
    rw [hsettle, hunmet]
    exact hty (Bool.eq_false_iff.2 hfalse.1)

theorem FunctionSite.remembers {f : Func} {pre post : List Visit} {place : Option String}
    {fs fs' : List Func} (hsite : p.FunctionSite f pre place post fs fs') (hp : p.WellFormed)
    (hresult : f.body.result? = none) {earlier later : List CheckState}
    (hs : p.passStarts config = earlier ++ s :: later) : p.Remembers config f.func earlier s := by
  let R (earlier : List CheckState) (s : CheckState) : Prop :=
    p.Between s ∧ p.Remembers config f.func earlier s
  have hfirst : R [] (p.initialState p.resolve) :=
    ⟨p.between_initialState, .inl ⟨rfl, Store.functionShape?_new _ _ _ _⟩⟩
  have hpass (earlier : List CheckState) (s : CheckState) (h : R earlier s) :
      R (earlier ++ [s]) (Check.pass (p.checkEnv config) p.visits s) := by
    obtain ⟨id, first, last, hfirst, -, hlast, -, hmeet, -⟩ := hsite.meets hp hresult h.1
    refine ⟨hp.between_pass h.1, .inr ⟨id, last, hlast, ?_⟩⟩
    rw [hmeet]
    exact h.2.last hfirst
  exact (Check.starts_induction hpass hfirst hs).2

/-- What a pass that starts from `s`, after passes that start from `earlier`, infers of the result of
a function from its `return` statements. -/
structure InfersResult (p : Program) (config : Config) (f : Func) (earlier : List CheckState)
    (s : CheckState) (id : FuncShapeId) (slot : ReturnSlot) : Prop where
  /-- The `return` statements that are met are those of the function itself. -/
  written : (Check.returnsMet (p.checkEnv config) id p.visits s.beginPass).map (·.written) =
    f.body.ownReturns
  /-- The first known type counts, and errors are about the later ones that do not fit it. -/
  first_known (before after : List MetReturn) (first : MetReturn)
    (hcounted : Check.returnsCounted (p.checkEnv config) id p.visits s.beginPass =
      before ++ first :: after)
    (hbefore : ∀ r ∈ before, r.ty.isKnown = false) (hfirst : first.ty.isKnown = true) :
    slot.ty = first.ty ∧ slot.isDefault = false ∧
      Check.returnReports (p.checkEnv config) id p.visits s.beginPass =
        after.filterMap (·.error? slot)
  /-- Where no type is known the result is open, if a `return` has ever counted. -/
  none_known (h : ∀ r ∈ Check.returnsCounted (p.checkEnv config) id p.visits s.beginPass,
      r.ty.isKnown = false) :
    Check.returnReports (p.checkEnv config) id p.visits s.beginPass = [] ∧
      (slot.isDefault = true ↔ ∃ t ∈ earlier ++ [s],
        Check.returnsCounted (p.checkEnv config) id p.visits t.beginPass ≠ [])
  /-- A function without a `return` that counts gives nothing. -/
  none_counted (h : ∀ t ∈ earlier ++ [s],
      Check.returnsCounted (p.checkEnv config) id p.visits t.beginPass = []) :
    slot.ty = .inferred .undef ∧ slot.isDefault = false

/-- In every pass the result of a function whose body is a block is, where the function ends, that of
its first `return` with a known type. -/
theorem result_of_first_known_return {source : String} (hp : Program.ofSource source = .ok p)
    {f : Func} (hf : f ∈ p.funcs) {b : Block} (hbody : f.body = .block b)
    {earlier later : List CheckState} (hs : p.passStarts config = earlier ++ s :: later) :
    ∃ pre place post id slot, p.visits = pre ++ f.visits place ++ post ∧
      ((f.visits place).foldl (Check.visit (p.checkEnv config))
        (pre.foldl (Check.visit (p.checkEnv config)) s.beginPass)).store.result? f.func =
          some (id, slot) ∧
      p.InfersResult config f earlier s id slot := by
  obtain ⟨tokens, -, htokens⟩ := exists_of_ofSource hp
  have hwell := wellFormed_of_ofTokens htokens
  have hmem : s ∈ p.passStarts config := by
    rw [hs]
    exact List.mem_append_right _ (List.mem_cons_self ..)
  have hresult : f.body.result? = none := by
    rw [hbody]
    rfl
  obtain ⟨pre, place, post, fs, fs', hsite⟩ := hwell.exists_functionSite hf
  obtain ⟨id, first, last, hfirst, hfinish, -, hwritten, hmeet, hreports⟩ :=
    hsite.meets hwell hresult (hwell.between_of_mem_passStarts hmem)
  obtain ⟨hexplicit, hty⟩ := (hsite.remembers hwell hresult hs).last hfirst
  let met := (Check.returnsCounted (p.checkEnv config) id p.visits s.beginPass).foldl ReturnSlot.meet
    { first with isDefault := true }
  rw [← hmeet] at hexplicit hty
  have hsettle : last.isDefault = (met.isDefault && last.isExplicit) := by
    rw [hmeet, ReturnSlot.isDefault_settle, (ReturnSlot.settle_eq _).2]
  refine ⟨pre, place, post, id, last, hsite.visits, hfinish, hwritten, ?_, ?_, ?_⟩
  · intro before after r hcounted hbefore hr
    have hmet : last = met := by
      rw [hmeet]
      refine ReturnSlot.settle_of_isExplicit (ReturnSlot.isExplicit_foldl_meet.2 (.inr ?_))
      rw [hcounted]
      simp
    rw [hreports, hmet]
    simp only [met, hcounted]
    exact ReturnSlot.foldl_meet_of_first rfl hbefore hr
  · intro hunknown
    obtain ⟨hdefault, hnone⟩ := ReturnSlot.foldl_meet_of_unknown { first with isDefault := true } rfl
      _ hunknown
    refine ⟨hreports.trans hnone, ?_⟩
    rw [hsettle, show met.isDefault = true from hdefault, Bool.true_and, hexplicit]
  · intro hcounted
    have hfalse : last.isExplicit = false := by
      rw [← Bool.not_eq_true, hexplicit]
      rintro ⟨t, ht, hne⟩
      exact hne (hcounted t ht)
    exact ⟨hty hfalse, by rw [hsettle, hfalse, Bool.and_false]⟩

/-- Three `return` statements: one calls the function again, the next gives an integer, and the last
one a text, which does not fit and is reported. -/
theorem result_of_first_known_return_recursive :
    ∃ p f later pre place post id slot, Program.ofSource
        "function f(n) \x7b if (n) return f(n); return 1; return 'x'; \x7d" = .ok p ∧
      f ∈ p.funcs ∧ f.body.ownReturns.length = 3 ∧
      p.passStarts {} = [] ++ p.initialState p.resolve :: later ∧
      p.visits = pre ++ f.visits place ++ post ∧
      ((f.visits place).foldl (Check.visit (p.checkEnv {})) (pre.foldl (Check.visit (p.checkEnv {}))
        (p.initialState p.resolve).beginPass)).store.result? f.func = some (id, slot) ∧
      p.InfersResult {} f [] (p.initialState p.resolve) id slot ∧
      (Check.returnsCounted (p.checkEnv {}) id p.visits (p.initialState p.resolve).beginPass).map
        (·.ty) = [.inferred .int, .inferred .string] ∧ slot.ty = .inferred .int ∧
      (Check.returnReports (p.checkEnv {}) id p.visits (p.initialState p.resolve).beginPass).map
        (fun r => (r.1, r.2.1.number)) = [(.error, 133)] := by
  let start (p : Program) : CheckState := (p.initialState p.resolve).beginPass
  obtain ⟨p, hp, htest⟩ := Program.exists_of_any
    "function f(n) \x7b if (n) return f(n); return 1; return 'x'; \x7d"
    (fun p => p.funcs.any fun f => f.body.result?.isNone && f.body.ownReturns.length == 3 &&
      p.visits.length == (f.visits none).length &&
      ((p.visits.foldl (Check.visit (p.checkEnv {})) (start p)).store.result? f.func).any
        (fun x => x.1 == 0 && x.2.ty == .inferred .int) &&
      (Check.returnsCounted (p.checkEnv {}) 0 p.visits (start p)).map (·.ty) ==
        [.inferred .int, .inferred .string] &&
      (Check.returnReports (p.checkEnv {}) 0 p.visits (start p)).map
        (fun r => (r.1, r.2.1.number)) == [(.error, 133)])
    (by decide +kernel)
  obtain ⟨f, hf, htest⟩ := List.any_eq_true.1 htest
  simp only [Bool.and_eq_true, beq_iff_eq] at htest
  obtain ⟨⟨⟨⟨⟨hblock, hreturns⟩, hlength⟩, hresult⟩, hcounted⟩, hreports⟩ := htest
  obtain ⟨b, hbody⟩ : ∃ b, f.body = .block b := by
    cases hbody : f.body with
    | block b => exact ⟨b, rfl⟩
    | expr e => simp [hbody, Body.result?] at hblock
  obtain ⟨later, hs⟩ : ∃ later, p.passStarts {} = [] ++ p.initialState p.resolve :: later :=
    ⟨_, rfl⟩
  obtain ⟨pre, place, post, id, slot, hvisits, hslot, hinfers⟩ :=
    result_of_first_known_return hp hf hbody hs
  -- The function is all that the program visits.
  have hall : p.visits = f.visits place ∧ pre = [] := by
    have hplace : (f.visits place).length = (f.visits none).length := by
      rw [f.visits_eq, f.visits_eq]
      simp
    rw [hvisits, List.length_append, List.length_append, hplace] at hlength
    obtain rfl := List.eq_nil_of_length_eq_zero (l := pre) (by omega)
    obtain rfl := List.eq_nil_of_length_eq_zero (l := post) (by omega)
    exact ⟨by simpa using hvisits, rfl⟩
  have hplace : id = 0 ∧ slot.ty = .inferred .int := by
    rw [hall.2, List.foldl_nil, ← hall.1] at hslot
    simpa [start, hslot] using hresult
  obtain ⟨rfl, hty⟩ := hplace
  exact ⟨p, f, later, pre, place, post, 0, slot, hp, hf, hreturns, hs, hvisits, hslot, hinfers,
    hcounted, hty, hreports⟩

end Program

end TagCheck
