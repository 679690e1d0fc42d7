import TagCheck.Proofs.Check.Frames

/-! Where a function is visited. A pass enters each function of a program once, and what comes before
and after the visits of a function leaves its shape as it is, but for the types and the shapes of its
parameters. -/
namespace TagCheck

def Visit.entered? : Visit → Option FuncId
  | enterFunction _ f => some f
  | leaveFunction _ _ _ | infer _ _ | identifier _ _ | parameters _ | return_ _ _ | condition _ _ _
  | declare _ | assign _ _ _ | assignDefault _ _ _ | rest _ _ | spread _ _ _ | arrayLiteral _ _
  | unary _ _ _ | update _ _ _ | binary _ _ _ _ | select _ _ _ | inherit _ _ | call _ _ _ _
  | annotate _ _ _ | template _ _ _ _ _ => none

theorem Visit.entered?_of_isBracket {v : Visit} (h : v.isBracket = false) : v.entered? = none := by
  cases v with
  | enterFunction n f => cases h
  | _ => rfl

variable {P : NodeId → Prop}

namespace Walk

variable {fs : List Func} {noted : Bool} {rs : List Return} {vs : List Visit}

/-- The functions of a walk are those that are entered. -/
theorem entered (h : Walk P fs noted rs vs) : vs.filterMap Visit.entered? = fs.map (·.func) := by
  induction h with
  | nil => rfl
  | append _ _ ih ih' => rw [List.filterMap_append, List.map_append, ih, ih']
  | visit hv => simp [Visit.entered?_of_isBracket hv.isBracket]
  | parameters params => rfl
  | return_ pos hargument => rfl
  | @function f place fs _ _ _ ih =>
    have henter : [Visit.enterFunction f.node.id f.func].filterMap Visit.entered? = [f.func] := rfl
    have hleave : [Visit.leaveFunction f.node.pos (Func.reportName f.name place)
        f.body.result?].filterMap Visit.entered? = [] := rfl
    rw [Func.visits_eq, List.filterMap_append, List.filterMap_append, henter, ih, hleave]
    simp

theorem regular (h : Walk P fs noted rs vs) : ∀ v ∈ vs, v.Regular P := by
  induction h with
  | nil => simp
  | append _ _ ih ih' => exact List.forall_mem_append.2 ⟨ih, ih'⟩
  | visit hv => exact List.forall_mem_singleton.2 hv.regular
  | parameters params => exact List.forall_mem_singleton.2 trivial
  | return_ pos hargument => exact List.forall_mem_singleton.2 hargument
  | @function f place fs hnode _ hresult ih =>
    rw [Func.visits_eq, List.forall_mem_append, List.forall_mem_append]
    exact ⟨⟨List.forall_mem_singleton.2 hnode, ih⟩, List.forall_mem_singleton.2 hresult⟩

/-- Each function of a walk is visited somewhere. -/
theorem exists_visits (h : Walk P fs noted rs vs) {f : Func} (hf : f ∈ fs) :
    ∃ pre place post, vs = pre ++ f.visits place ++ post := by
  induction h with
  | nil => cases hf
  | @append _ _ _ _ _ _ vs vs' _ _ ih ih' =>
    rcases List.mem_append.1 hf with hf | hf
    · obtain ⟨pre, place, post, rfl⟩ := ih hf
      exact ⟨pre, place, post ++ vs', by simp⟩
    · obtain ⟨pre, place, post, rfl⟩ := ih' hf
      exact ⟨vs ++ pre, place, post, by simp⟩
  | visit _ => cases hf
  | parameters _ => cases hf
  | return_ _ _ => cases hf
  | @function g place fs _ _ _ ih =>
    rcases List.mem_cons.1 hf with rfl | hf
    · exact ⟨[], place, [], by simp⟩
    · obtain ⟨pre, place', post, hvs⟩ := ih hf
      refine ⟨[Visit.enterFunction g.node.id g.func] ++ pre, place',
        post ++ [Visit.leaveFunction g.node.pos (Func.reportName g.name place) g.body.result?], ?_⟩
      rw [Func.visits_eq g, hvs]
      simp

end Walk

/-- The function `k` is not open: the functions that are have other numbers. -/
def CheckState.Outside (k : FuncId) (s : CheckState) : Prop :=
  ∀ id ∈ s.frames, ∃ g j, s.store.arena.get? id = some g ∧ g.origin = some j ∧ j ≠ k

namespace Check

/-- The visits leave the shape of the function `k` as it is, but for the types and the shapes of its
parameters. -/
abbrev Bypasses (P : NodeId → Prop) (k : FuncId) (env : CheckEnv) (vs : List Visit)
    (s : CheckState) : Prop :=
  Local P (· ≠ k) (fun _ => False) env vs s

variable {env : CheckEnv} {k : FuncId} {v : Visit} {vs : List Visit} {s : CheckState}

theorem Local.bypasses {ks : FuncId → Prop} {own : FuncShapeId → Prop}
    (h : Local P ks own env vs s) (hk : ¬ ks k)
    (hown : ∀ id, own id → ∃ g j, s.store.arena.get? id = some g ∧ g.origin = some j ∧ j ≠ k) :
    Bypasses P k env vs s := by
  refine ⟨h.steady, fun m hm => ⟨fun j hw => ?_, fun id f hw g hg _ horigin => ?_⟩⟩
  · rintro rfl
    exact hk ((h.within m hm).function j hw)
  · by_cases hid : own id
    · obtain ⟨g₀, j, hg₀, hj, hne⟩ := hown id hid
      have hkeep := (linked_moments env vs s).forall_before
        (Q := fun t => ∃ g, t.store.arena.get? id = some g ∧ g.origin = some j) ⟨g₀, hg₀, hj⟩
        fun m hm => (h.steady m hm).origin
      obtain ⟨g', hg', hj'⟩ := hkeep m hm
      obtain rfl : g' = g := Option.some.inj (hg'.symm.trans hg)
      exact absurd hj' (horigin j hne)
    · refine (h.within m hm).func id f hw g hg hid fun j hj => horigin j ?_
      rintro rfl
      exact hk hj

/-- A function that is not open stays so as long as it is not entered. -/
theorem Local.outside {ks : FuncId → Prop} {own : FuncShapeId → Prop}
    (h : Local P ks own env vs s) (hs : s.Outside k) {id : FuncShapeId} (hid : id ∈ s.frames) :
    ∃ g j, (vs.foldl (visit env) s).store.arena.get? id = some g ∧ g.origin = some j ∧ j ≠ k := by
  obtain ⟨g, j, hg, hj, hne⟩ := hs id hid
  obtain ⟨g', hg', hj'⟩ := h.origin ⟨g, hg, hj⟩
  exact ⟨g', j, hg', hj', hne⟩

theorem size_foldl (env : CheckEnv) (vs : List Visit) (s : CheckState) :
    (vs.foldl (visit env) s).store.byFunction.size = s.store.byFunction.size := by
  refine (linked_moments env vs s).lasts
    (P := fun t => t.store.byFunction.size = s.store.byFunction.size) rfl fun m _ hm => ?_
  rw [Moment.after, Write.store_apply, Write.size_byFunction_onStore, hm]

/-- The visits start where the function `k` is not open, and do not enter it. -/
structure Around (P : NodeId → Prop) (k : FuncId) (vs : List Visit) (s : CheckState) : Prop where
  regular : ∀ v ∈ vs, v.Regular P
  entered : k ∉ vs.filterMap Visit.entered?
  bound : ∀ j ∈ vs.filterMap Visit.entered?, j < s.store.byFunction.size
  inOrder : s.InOrder P
  outside : s.Outside k

theorem Around.head (h : Around P k (v :: vs) s) : Around P k [v] s := by
  have hsub : [v].filterMap Visit.entered? ⊆ (v :: vs).filterMap Visit.entered? :=
    (List.singleton_sublist.2 (List.mem_cons_self ..)).filterMap _ |>.subset
  exact ⟨List.forall_mem_singleton.2 (h.regular v (List.mem_cons_self ..)),
    fun hk => h.entered (hsub hk), fun j hj => h.bound j (hsub hj), h.inOrder, h.outside⟩

section

variable (himplies : ∀ param i, env.ImpliesAt param i → P param.id ∧ P i.node.id)

include himplies

theorem bypasses_visit (h : Around P k [v] s) :
    Bypasses P k env [v] s ∧ (visit env s v).Outside k := by
  obtain ⟨hv, hk, hsize, hs, hout⟩ := h
  rw [List.forall_mem_singleton] at hv
  by_cases hbracket : v.isBracket = false
  · have hlocal : Stays P (fun _ => False) (v.Own s) env [v] s :=
      stays_visit himplies hv hbracket hs
    refine ⟨hlocal.bypasses (fun h => h) fun id hid => ?_, fun id hid => ?_⟩
    · exact hout id (List.mem_of_mem_head? hid.2)
    · have hframes : (visit env s v).frames = s.frames := hlocal.frames
      rw [hframes] at hid
      exact hlocal.outside hout hid
  cases v with
  | enterFunction n f =>
    have hf : f < s.store.byFunction.size := hsize f (by simp [Visit.entered?])
    have hne : f ≠ k := fun h => hk (by simp [Visit.entered?, h])
    have hlocal := local_enterFunction env hv hs hf
    obtain ⟨id, g, hentered⟩ := entered_enterFunction env (n := n) hs hf
    refine ⟨hlocal.bypasses hne.symm fun _ h => h.elim, fun id' hid' => ?_⟩
    rw [hentered.frames, List.mem_cons] at hid'
    rcases hid' with rfl | hid'
    · obtain ⟨g', hg', hf⟩ := (hlocal.inOrder hs).originates f id' hentered.shape
      exact ⟨g', f, hg', hf, hne⟩
    · exact hlocal.outside hout hid'
  | leaveFunction pos name result =>
    cases hid : s.frames.head? with
    | none =>
      have hrun : (leaveFunction pos name result).Ensures (fun _ _ => False) (fun _ t => t = s) s := by
        refine ensures_bind.2 ?_
        rw [ensures_frame?, hid]
        rfl
      have hend : visit env s (.leaveFunction pos name result) = s := (ensures_iff_trace.1 hrun).2
      refine ⟨local_of_ensures (hrun.mono (fun _ _ h => h.elim) fun _ _ h => h), ?_⟩
      rwa [hend]
    | some id =>
      obtain ⟨hlocal, hframes⟩ : Local P (fun _ => False) (· = id) env
          [.leaveFunction pos name result] s ∧
            (visit env s (.leaveFunction pos name result)).frames = s.frames.tail :=
        local_leaveFunction env hid pos name hv hs
      refine ⟨hlocal.bypasses (fun h => h) ?_, fun id' hid' => ?_⟩
      · rintro id' rfl
        exact hout id' (List.mem_of_mem_head? hid)
      · rw [hframes] at hid'
        exact hlocal.outside hout (List.mem_of_mem_tail hid')
  | _ => exact absurd rfl hbracket

/-- What remains after a visit is still around the function. -/
theorem Around.tail (h : Around P k (v :: vs) s) : Around P k vs (visit env s v) := by
  have hsub : vs.filterMap Visit.entered? ⊆ (v :: vs).filterMap Visit.entered? :=
    (List.sublist_cons_self v vs).filterMap _ |>.subset
  obtain ⟨hfirst, hout⟩ := bypasses_visit himplies h.head
  refine ⟨fun x hx => h.regular x (List.mem_cons_of_mem v hx), fun hk => h.entered (hsub hk), ?_,
    hfirst.inOrder h.inOrder, hout⟩
  intro j hj
  have hsize : (visit env s v).store.byFunction.size = s.store.byFunction.size := size_foldl env [v] s
  rw [hsize]
  exact h.bound j (hsub hj)

/-- What does not enter a function leaves it as it is, and not open. -/
theorem bypasses_visits (h : Around P k vs s) :
    Bypasses P k env vs s ∧ (vs.foldl (visit env) s).Outside k := by
  induction vs generalizing s with
  | nil => exact ⟨.nil, h.outside⟩
  | cons v vs ih =>
    obtain ⟨hrest, hend⟩ := ih (h.tail himplies)
    exact ⟨(bypasses_visit himplies h.head).1.append hrest, hend⟩

end

end Check

theorem Check.Parameter.mem_idents_of_implied? {param : Pattern} {i : Ident}
    {inner : Option NodeId} (h : implied? param = some (i, inner)) :
    i ∈ param.idents ∧ param.isRest = false := by
  unfold implied? at h
  split at h <;> cases h <;> exact ⟨by simp [Pattern.idents], rfl⟩

namespace Program

variable {p : Program}

/-- The node is not that of a pattern that takes the rest. -/
def Flat (p : Program) (n : NodeId) : Prop :=
  ∀ q : Pattern, .pattern q ∈ p.nodes → q.id = n → q.isRest = false

theorem WellFormed.marks (hp : p.WellFormed) : SyntaxNode.Marks p.Flat p.nodes := by
  intro x hx
  refine ⟨fun h => ?_, fun h q hq hid => ?_⟩
  · cases x with
    | pattern q => exact h q hx rfl
    | _ => rfl
  · obtain rfl := hp.eq_of_id_eq hq hx hid
    exact h

theorem WellFormed.flat_of_impliesAt (hp : p.WellFormed) (config : Config) (param : Pattern)
    (i : Ident) (h : (p.checkEnv config).ImpliesAt param i) :
    p.Flat param.id ∧ p.Flat i.node.id := by
  obtain ⟨origin, f, inner, hf, hparam, himplied⟩ := h
  have hnodes : param.nodes ⊆ p.nodes := param_nodes_of_function? hf hparam
  have hmarks : SyntaxNode.Marks p.Flat param.nodes := fun x hx => hp.marks x (hnodes hx)
  obtain ⟨hi, hrest⟩ := Check.Parameter.mem_idents_of_implied? himplied
  exact ⟨(hmarks _ param.mem_nodes).2 hrest, Pattern.of_mem_idents hmarks i hi⟩

theorem WellFormed.exists_inside (hp : p.WellFormed) {f : Func} (hf : f ∈ p.funcs) :
    ∃ fs fs', f.Inside p.Flat fs fs' := by
  obtain ⟨x, hx, hfunc⟩ := List.mem_filterMap.1 hf
  have hnodes : f.nodes ⊆ p.nodes := nodes_of_function? (hp.function?_of_mem_funcs hf)
  have hnode : p.Flat f.node.id := by
    rw [← SyntaxNode.id_of_func? hfunc]
    refine (hp.marks x hx).2 ?_
    cases x with
    | pattern q => cases hfunc
    | _ => rfl
  obtain ⟨fs, fs', hinside, -⟩ := f.exists_inside hnode fun x hx => hp.marks x (hnodes hx)
  exact ⟨fs, fs', hinside⟩

/-- A pass over a program is a walk through its functions. -/
theorem WellFormed.exists_walk (hp : p.WellFormed) :
    ∃ fs, Walk p.Flat fs false (Stmt.ownReturnsList p.body) p.visits ∧ fs.Perm p.funcs :=
  (Stmt.tourList p.body).walks hp.marks

variable {config : Config} {s : CheckState}

/-- What holds between the passes over a program. -/
structure Between (p : Program) (s : CheckState) : Prop where
  inOrder : s.InOrder p.Flat
  holds : s.store.Holds p

theorem between_initialState (p : Program) : p.Between (p.initialState p.resolve) where
  inOrder := by
    refine ⟨⟨?_, ?_, ?_⟩, ?_⟩
    · simp [initialState, Store.ty?]
    · simp [initialState, Store.ty?]
    · simp [initialState, Store.new, Arena.get?]
    · intro k id hk
      simp [initialState, Store.functionShape?_new] at hk
  holds := p.holds_initialState

theorem Between.beginPass (h : p.Between s) : p.Between s.beginPass :=
  ⟨⟨⟨h.inOrder.tells.node, h.inOrder.tells.binding, h.inOrder.tells.result⟩, h.inOrder.originates⟩,
    ⟨h.holds.node, h.holds.binding, h.holds.func⟩⟩

/-- What holds between the passes also holds between the visits. -/
theorem Between.foldl {env : CheckEnv} {vs : List Visit} (h : p.Between s)
    (hvs : ∀ m ∈ Check.moments env vs s, m.write.Steady p.Flat) :
    p.Between (vs.foldl (Check.visit env) s) where
  inOrder := (Check.linked_moments env vs s).lasts h.inOrder fun m hm => (hvs m hm).inOrder
  holds := (Check.linked_moments env vs s).lasts (P := fun t => t.store.Holds p) h.holds
    fun m _ hm => hm.apply m.write

theorem WellFormed.local_pass (hp : p.WellFormed) (h : p.Between s) :
    ∃ ks own, Check.Local p.Flat ks own (p.checkEnv config) p.visits s.beginPass := by
  obtain ⟨fs, hwalk, hfs⟩ := hp.exists_walk
  have hstays := hwalk.stays (hp.flat_of_impliesAt config) h.beginPass.inOrder fun f hf => by
      have hfunc : f.func ∈ List.range p.funcCount :=
        hp.funcs.subset (List.mem_map_of_mem (hfs.subset hf))
      exact h.beginPass.holds.func f.func (List.mem_range.1 hfunc)
  exact ⟨_, _, hstays.toLocal⟩

theorem WellFormed.between_pass (hp : p.WellFormed) (h : p.Between s) :
    p.Between (Check.pass (p.checkEnv config) p.visits s) := by
  obtain ⟨ks, own, hlocal⟩ := hp.local_pass h
  exact h.beginPass.foldl hlocal.steady

theorem WellFormed.between_of_mem_passStarts (hp : p.WellFormed) (hs : s ∈ p.passStarts config) :
    p.Between s :=
  Check.forall_starts (P := p.Between) (fun _ h => hp.between_pass h) p.between_initialState s hs

/-- Where a pass visits a function: among the visits before and after it the function is not
entered, and not among those inside it either. -/
structure FunctionSite (p : Program) (f : Func) (pre : List Visit) (place : Option String)
    (post : List Visit) (fs fs' : List Func) : Prop where
  visits : p.visits = pre ++ f.visits place ++ post
  inside : f.Inside p.Flat fs fs'
  regular : ∀ v ∈ p.visits, v.Regular p.Flat
  entered_lt : ∀ k ∈ p.visits.filterMap Visit.entered?, k < p.funcCount
  before : f.func ∉ pre.filterMap Visit.entered?
  after : f.func ∉ post.filterMap Visit.entered?
  inner : f.func ∉ (fs ++ fs').map (·.func)

theorem WellFormed.exists_functionSite (hp : p.WellFormed) {f : Func} (hf : f ∈ p.funcs) :
    ∃ pre place post fs fs', p.FunctionSite f pre place post fs fs' := by
  obtain ⟨all, hwalk, hall⟩ := hp.exists_walk
  obtain ⟨pre, place, post, hvisits⟩ := hwalk.exists_visits (hall.symm.subset hf)
  obtain ⟨fs, fs', hinside⟩ := hp.exists_inside hf
  have hnumbers : (p.visits.filterMap Visit.entered?).Perm (List.range p.funcCount) := by
    rw [hwalk.entered]
    exact (hall.map _).trans hp.funcs
  have hnodup := hnumbers.nodup_iff.2 List.nodup_range
  rw [hvisits, List.filterMap_append, List.filterMap_append, (hinside.walk place).entered,
    List.map_cons, List.nodup_append, List.nodup_append, List.nodup_cons] at hnodup
  obtain ⟨⟨-, ⟨hinner, -⟩, hpre⟩, -, hpost⟩ := hnodup
  refine ⟨pre, place, post, fs, fs', hvisits, hinside, hwalk.regular, ?_, ?_, ?_, hinner⟩
  · exact fun k hk => List.mem_range.1 (hnumbers.subset hk)
  · exact fun h => hpre _ h _ (List.mem_cons_self ..) rfl
  · exact fun h => hpost _ (List.mem_append_right _ (List.mem_cons_self ..)) _ h rfl

namespace FunctionSite

variable {f : Func} {pre post : List Visit} {place : Option String} {fs fs' : List Func}

theorem inner_lt (h : p.FunctionSite f pre place post fs fs') (hs : p.Between s) :
    ∀ k ∈ f :: (fs ++ fs'), k.func < s.store.byFunction.size := by
  intro k hk
  refine hs.holds.func k.func (h.entered_lt k.func ?_)
  rw [h.visits, List.filterMap_append, List.filterMap_append, (h.inside.walk place).entered]
  exact List.mem_append_left _ (List.mem_append_right _ (List.mem_map_of_mem hk))

/-- Some of the visits of a pass, at which the function is not entered. -/
theorem around (h : p.FunctionSite f pre place post fs fs') {vs : List Visit} (hvs : vs ⊆ p.visits)
    (hf : f.func ∉ vs.filterMap Visit.entered?) (hs : p.Between s) (hout : s.Outside f.func) :
    Check.Around p.Flat f.func vs s := by
  refine ⟨fun v hv => h.regular v (hvs hv), hf, fun j hj => ?_, hs.inOrder, hout⟩
  obtain ⟨v, hv, hj⟩ := List.mem_filterMap.1 hj
  exact hs.holds.func j (h.entered_lt j (List.mem_filterMap.2 ⟨v, hvs hv, hj⟩))

theorem around_pre (h : p.FunctionSite f pre place post fs fs') (hs : p.Between s) :
    Check.Around p.Flat f.func pre s.beginPass := by
  refine h.around ?_ h.before hs.beginPass fun id hid => by cases hid
  rw [h.visits, List.append_assoc]
  exact List.subset_append_left ..

theorem around_post (h : p.FunctionSite f pre place post fs fs') (hs : p.Between s)
    (hout : s.Outside f.func) : Check.Around p.Flat f.func post s := by
  refine h.around ?_ h.after hs hout
  rw [h.visits]
  exact List.subset_append_right ..

/-- Where the function begins in a pass. -/
theorem between_start (h : p.FunctionSite f pre place post fs fs') (hp : p.WellFormed)
    (hs : p.Between s) :
    let start := pre.foldl (Check.visit (p.checkEnv config)) s.beginPass
    p.Between start ∧ start.Outside f.func := by
  obtain ⟨hpre, hout⟩ :=
    Check.bypasses_visits (hp.flat_of_impliesAt config) (h.around_pre hs)
  exact ⟨hs.beginPass.foldl hpre.steady, hout⟩

/-- Where the function ends in a pass. -/
theorem between_finish (h : p.FunctionSite f pre place post fs fs') (hp : p.WellFormed)
    (hs : p.Between s) :
    let finish := (f.visits place).foldl (Check.visit (p.checkEnv config))
      (pre.foldl (Check.visit (p.checkEnv config)) s.beginPass)
    p.Between finish ∧ finish.Outside f.func := by
  intro finish
  obtain ⟨hstart, hout⟩ := h.between_start hp hs
  have hvisits := (h.inside.walk place).stays (hp.flat_of_impliesAt config) hstart.inOrder
    (h.inner_lt hstart)
  refine ⟨hstart.foldl hvisits.steady, fun id hid => ?_⟩
  rw [hvisits.frames] at hid
  exact hvisits.outside hout hid

end FunctionSite

end Program

end TagCheck
