import TagCheck.Proofs.Check.ParameterSlots
import TagCheck.Proofs.Check.Trace

/-! Arguments and parameters. A call goes through its arguments and the slots of the function shape
side by side. Main statement: from where the parameters of a function have been noted, its shape has
a slot for each of them up to the one that takes the rest, so that the number of arguments is compared
with the number of these parameters, and what an argument implies is implied of the parameter in its
position. -/
namespace TagCheck

def Code.isArgCount (c : Code) : Bool := c == .callArgCount || c == .callArgCountUnverifiable

/-- An argument and the parameter in the same position, where the argument has a type. -/
structure Func.Pairs (f : Func) (args : List Element) (s : CheckState) (idx : Nat) (e : Expr)
    (q : Pattern) (ty : Ty) : Prop where
  arg : args[idx]? = some (.item e)
  param : f.params[idx]? = some q
  ty : s.store.ty? (.node e.id) = some ty

/-- How a call at the node `n` writes to the function shape `id` and to the cells of parameters: what
it writes in the position of an argument is the type of that argument. -/
def Write.Positioned (env : CheckEnv) (f : Func) (id : FuncShapeId) (n : NodeId)
    (args : List Element) (s : CheckState) : Write → Prop
  | func k h => k = id ∧ ∃ idx e q ty shape, f.Pairs args s idx e q ty ∧
      h = fun g => g.implyParam idx ty shape
  | type (.binding b) ty => ∃ idx e q i inner, f.Pairs args s idx e q ty ∧
      Check.Parameter.implied? q = some (i, inner) ∧ env.bindingOf? i = some b
  | type (.node k) ty => k = n ∨ ∃ idx e q i inner, f.Pairs args s idx e q ty ∧
      Check.Parameter.implied? q = some (i, inner) ∧ (k = q.id ∨ inner = some k)
  | reimply _ _ | function _ | enter _ | leave => False
  | shape _ _ | forceShape _ _ | touch _ | known _ | native _ _ | report _ _ _ _ => True

def Write.NotArgCount (w : Write) : Prop := ∀ r ∈ w.report?, r.2.1.isArgCount = false

namespace Check

variable {env : CheckEnv} {f : Func} {id : FuncShapeId} {n : NodeId} {args : List Element}
  {s : CheckState}

/-- What is implied of a parameter by an argument of the type `ty`, before it is said that the
argument keeps this type. -/
def Implies (env : CheckEnv) (id : FuncShapeId) (idx : Nat) (q : Pattern) (ty : Ty) : Write → Prop
  | .func k h => k = id ∧ ∃ shape, h = fun g => g.implyParam idx ty shape
  | .type (.binding b) ty' => ty' = ty ∧ ∃ i inner, Parameter.implied? q = some (i, inner) ∧
      env.bindingOf? i = some b
  | .type (.node k) ty' => ty' = ty ∧ ∃ i inner, Parameter.implied? q = some (i, inner) ∧
      (k = q.id ∨ inner = some k)
  | .reimply _ _ | .function _ | .enter _ | .leave => False
  | .report _ code _ _ => code.isArgCount = false
  | .shape _ _ | .forceShape _ _ | .touch _ | .known _ | .native _ _ => True

theorem Implies.ty? {idx : Nat} {q : Pattern} {ty : Ty} {w : Write}
    (hw : Implies env id idx q ty w) {k : NodeId} (hs : s.store.ty? (.node k) = some ty) :
    (w.apply s).store.ty? (.node k) = some ty := by
  rw [Store.ty?] at hs ⊢
  rw [Write.store_apply]
  rcases w.ty_cell_onStore s.store (.node k) with hkeep | ⟨ty', rfl, -, hnew⟩ | ⟨b, ty', -, hb, -⟩
  · rw [hkeep, hs]
  · rw [hnew, hw.1]
    rfl
  · cases hb

theorem Implies.positioned {idx : Nat} {q : Pattern} {ty : Ty} {w : Write} {e : Expr}
    (hw : Implies env id idx q ty w) (hpairs : f.Pairs args s idx e q ty) :
    w.Positioned env f id n args s ∧ w.NotArgCount := by
  cases w with
  | func k h =>
    obtain ⟨hk, shape, hh⟩ := hw
    exact ⟨⟨hk, idx, e, q, ty, shape, hpairs, hh⟩, by simp [Write.NotArgCount, Write.report?]⟩
  | type t ty' =>
    cases t with
    | node k =>
      obtain ⟨rfl, i, inner, himplied, hk⟩ := hw
      exact ⟨.inr ⟨idx, e, q, i, inner, hpairs, himplied, hk⟩, by
        simp [Write.NotArgCount, Write.report?]⟩
    | binding b =>
      obtain ⟨rfl, i, inner, himplied, hb⟩ := hw
      exact ⟨⟨idx, e, q, i, inner, hpairs, himplied, hb⟩, by
        simp [Write.NotArgCount, Write.report?]⟩
  | report severity code message pos =>
    have hcode : code.isArgCount = false := hw
    exact ⟨trivial, by simp [Write.NotArgCount, Write.report?, hcode]⟩
  | reimply b ty' => exact hw.elim
  | function k => exact hw.elim
  | enter k => exact hw.elim
  | leave => exact hw.elim
  | _ => exact ⟨trivial, by simp [Write.NotArgCount, Write.report?]⟩

section

variable (hf : env.resolution.function? f.func = some f)

include hf

theorem ensures_implyParam {idx : Nat} {e : Expr} (harg : args[idx]? = some (.item e)) {ty : Ty}
    (hty : s.store.ty? (.node e.id) = some ty) (shape : Option Shape) (pos : Position) :
    (implyParam env id f.func idx ty shape pos).Ensures
      (fun t w => w.Positioned env f id n args t ∧ w.NotArgCount) (fun _ _ => True) s := by
  cases hparam : f.params[idx]? with
  | none => simp [implyParam, hf, hparam]
  | some q =>
    cases himplied : Parameter.implied? q with
    | none => simp [implyParam, hf, hparam, himplied]
    | some x =>
      obtain ⟨i, inner⟩ := x
      have hwrites : (implyParam env id f.func idx ty shape pos).Ensures
          (fun _ w => Implies env id idx q ty w) (fun _ _ => True) s := by
        have hcode : (if ty.isTagged then Code.implyParamFromArgTagged
            else .implyParamFromArgInferred).isArgCount = false := by
          split <;> rfl
        have hshape : ∃ shape', (fun g : FuncShape => g.implyParam idx ty shape) =
            fun g => g.implyParam idx ty shape' := ⟨shape, rfl⟩
        cases hb : env.bindingOf? i with
        | none => cases inner <;> simp [implyParam, hf, hparam, himplied, hb, Implies]
        | some b =>
          cases inner <;> cases shape <;>
            simpa [implyParam, hf, hparam, himplied, hb, Implies, hcode] using hshape
      have hkeep := hwrites.invariant (I := fun t => t.store.ty? (.node e.id) = some ty) hty
        fun t w ht hw => hw.ty? ht
      exact hkeep.mono (fun t w h => h.2.positioned ⟨harg, hparam, h.1⟩) fun _ _ _ => trivial

theorem ensures_argument {idx : Nat} {e : Expr} (harg : args[idx]? = some (.item e)) (slot : Slot) :
    (argument env id (some f.func) idx slot e).Ensures
      (fun t w => w.Positioned env f id n args t ∧ w.NotArgCount) (fun _ _ => True) s := by
  have hreport (code : Code) (hcode : code.isArgCount = false) (message : String) (pos : Position)
      (t : CheckState) : (Write.report .error code message pos).Positioned env f id n args t ∧
        (Write.report .error code message pos).NotArgCount :=
    ⟨trivial, by simp [Write.NotArgCount, Write.report?, hcode]⟩
  have himply : ((s.store.ty? (.node e.id)).getD .unknown).isKnown = true →
      (implyParam env id f.func idx ((s.store.ty? (.node e.id)).getD .unknown)
        (s.store.shape? (.node e.id)) e.pos).Ensures
      (fun t w => w.Positioned env f id n args t ∧ w.NotArgCount) (fun _ _ => True) s := by
    intro hknown
    refine ensures_implyParam hf harg ?_ _ _
    cases hty : s.store.ty? (.node e.id) with
    | none => simp [hty, Ty.isKnown, Ty.unknown, Ty.inferred, Tag.isKnown] at hknown
    | some ty => rfl
  refine ensures_bind.2 (ensures_bind.2 (ensures_ite.2 ⟨fun _ => ?_, fun _ => ?_⟩))
  · refine ensures_ite.2 ⟨fun _ => ⟨hreport _ rfl _ _ s, trivial⟩, fun _ => ?_⟩
    refine ensures_bind.2 (ensures_ite.2 ⟨fun _ => ?_, fun _ => trivial⟩)
    exact ensures_bind.2 (ensures_bind.2 ⟨hreport _ rfl _ _ s, trivial⟩)
  · exact ensures_ite.2 ⟨himply, fun _ => trivial⟩

theorem ensures_argumentsFrom (pos : Position) {idx : Nat} {es : List Element}
    (hes : args.drop idx = es) (slots : List Slot) :
    (argumentsFrom env pos id (some f.func) idx es slots).Ensures
      (fun t w => w.Positioned env f id n args t ∧ w.NotArgCount) (fun _ _ => True) s := by
  induction es generalizing idx slots s with
  | nil => simp [argumentsFrom]
  | cons x es ih =>
    cases x with
    | hole => simp [argumentsFrom]
    | spread m e =>
      simp [argumentsFrom, Write.Positioned, Write.NotArgCount, Write.report?, Code.isArgCount]
    | item e =>
      cases slots with
      | nil => simp [argumentsFrom]
      | cons slot slots =>
        have harg : args[idx]? = some (.item e) := by
          rw [← List.head?_drop, hes, List.head?_cons]
        have hnext : args.drop (idx + 1) = es := by
          rw [← List.tail_drop, hes, List.tail_cons]
        rw [argumentsFrom]
        refine ensures_bind.2 ((ensures_argument hf harg slot).imp fun _ t _ => ?_)
        exact ih hnext slots

end

theorem positioned_calleeShape? (callee : Expr) {g : FuncShape}
    (hg : s.store.arena.get? id = some g) :
    (calleeShape? env n callee).Ensures
      (fun t w => w.Positioned env f id n args t ∧ w.NotArgCount)
      (fun _ t => t.store.arena.get? id = some g) s := by
  cases callee with
  | ident i =>
    cases hnative : nativeResult? i.name with
    | some result =>
      have hkeep (w : Write) (hw : ∀ h, w ≠ .func id h) (t : CheckState)
          (ht : t.store.arena.get? id = some g) : (w.apply t).store.arena.get? id = some g := by
        rw [Write.store_apply]
        rcases Write.get?_onStore (w := w) ht with hkeep | ⟨h, hfunc, -⟩
        · exact hkeep
        · exact absurd hfunc (hw h)
      have hmade := hkeep (.native i.name result) (by simp) s hg
      have htyped := hkeep (.type (.node n) (.inferred result)) (by simp) _ hmade
      simpa [calleeShape?, hnative, Write.Positioned, Write.NotArgCount, Write.report?] using htyped
    | none => simpa [calleeShape?, hnative] using hg
  | function k => exact hg
  | _ => exact hg

/-- The number of arguments is reported if it does not fit. -/
theorem reports_argumentCount (pos : Position) (g : FuncShape) :
    (∃ x ∈ (argumentCount pos g args).trace s, ∃ r ∈ x.2.report?, r.2.1.isArgCount = true) ↔
      (g.hasRest = false ∧ g.params.length < args.length) ∨ args.length < g.params.length := by
  have hreport (code : Code) (hcode : code.isArgCount = true) (message : String) :
      ∃ x ∈ (error code message pos).trace s, ∃ r ∈ x.2.report?, r.2.1.isArgCount = true :=
    ⟨_, List.mem_singleton_self _, _, rfl, hcode⟩
  have hcondition : ((!g.hasRest && decide (g.params.length < args.length)) ||
      decide (args.length < g.params.length)) = true ↔
        (g.hasRest = false ∧ g.params.length < args.length) ∨ args.length < g.params.length := by
    simp
  rw [← hcondition]
  unfold argumentCount
  by_cases hmismatch : ((!g.hasRest && decide (g.params.length < args.length)) ||
      decide (args.length < g.params.length)) = true
  · simp only [hmismatch, ↓reduceIte, iff_true]
    split
    · exact hreport .callArgCountUnverifiable rfl _
    · exact hreport .callArgCount rfl _
  · rw [Bool.not_eq_true] at hmismatch
    simp only [hmismatch, Bool.false_eq_true, ↓reduceIte, iff_false]
    rintro ⟨x, hx, -⟩
    cases hx

/-- What a call of the function `f`, which has the shape `id`, has to do with its parameters. -/
structure Aligned (env : CheckEnv) (f : Func) (id : FuncShapeId) (n : NodeId) (args : List Element)
    (writes : List (CheckState × Write)) : Prop where
  /-- The number of arguments is compared with that of the parameters before the one that takes the
  rest. -/
  count : (∃ x ∈ writes, ∃ r ∈ x.2.report?, r.2.1.isArgCount = true) ↔
    (f.params.any Pattern.isRest = false ∧ Pattern.slotCount f.params < args.length) ∨
      args.length < Pattern.slotCount f.params
  /-- Whatever is implied by an argument is implied of the parameter in its position. -/
  positioned (x : CheckState × Write) (hx : x ∈ writes) : x.2.Positioned env f id n args x.1

theorem aligned_of_registered (hf : env.resolution.function? f.func = some f)
    (hs : s.Registered f id) (m : Node) (callee : Expr) (args : List Element) (tail : Bool)
    (hcallee : ((calleeShape? env m.id callee).run s).1 = some id) :
    Aligned env f id m.id args ((call env m callee args tail).trace s) := by
  obtain ⟨g, hg, horigin, hlists⟩ := hs.lists
  let called := ((calleeShape? env m.id callee).run s).2
  have hlook : (∀ x ∈ (calleeShape? env m.id callee).trace s,
      x.2.Positioned env f id m.id args x.1 ∧ x.2.NotArgCount) ∧
        ((calleeShape? env m.id callee).run s).2.store.arena.get? id = some g :=
    ensures_iff_trace.1 (positioned_calleeShape? callee hg)
  obtain ⟨selfTail, htrace⟩ : ∃ selfTail, (call env m callee args tail).trace s =
      (calleeShape? env m.id callee).trace s ++ (do
        callResult m.id id g.ret selfTail
        argumentCount m.pos g args
        argumentsFrom env m.pos id g.origin 0 args g.params : Check Unit).trace called := by
    refine ⟨tail && s.frames.head?.any fun id => isSelfCall env s.store id (.call m callee args), ?_⟩
    rw [call]
    simp only [trace_bind, run_getStore, trace_getStore, run_frame?, trace_frame?, List.nil_append,
      hcallee, func?, run_bind, run_pure, trace_pure, hlook.2]
    rfl
  have hresult : (callResult m.id id g.ret selfTail).Ensures
      (fun t w => w.Positioned env f id m.id args t ∧ w.NotArgCount) (fun _ _ => True) called := by
    simp [callResult, Write.Positioned, Write.NotArgCount, Write.report?]
  let compared := ((callResult m.id id g.ret selfTail).run called).2
  have hcount : (argumentCount m.pos g args).Ensures
      (fun t w => w.Positioned env f id m.id args t) (fun _ _ => True) compared := by
    simp [argumentCount, Write.Positioned]
  let counted := ((argumentCount m.pos g args).run compared).2
  have harguments : (argumentsFrom env m.pos id g.origin 0 args g.params).Ensures
      (fun t w => w.Positioned env f id m.id args t ∧ w.NotArgCount) (fun _ _ => True) counted := by
    rw [horigin]
    exact ensures_argumentsFrom hf m.pos List.drop_zero g.params
  rw [trace_bind, trace_bind] at htrace
  have hresult := (ensures_iff_trace.1 hresult).1
  have hcount := (ensures_iff_trace.1 hcount).1
  have harguments := (ensures_iff_trace.1 harguments).1
  rw [htrace]
  refine ⟨?_, fun x hx => ?_⟩
  · rw [← hlists.length, ← hlists.hasRest, ← reports_argumentCount (s := compared) m.pos g]
    constructor
    · rintro ⟨x, hx, r, hr, hcode⟩
      have hnot (hx : x.2.NotArgCount) : False := by
        rw [hx r hr] at hcode
        cases hcode
      simp only [List.mem_append] at hx
      rcases hx with hx | hx | hx | hx
      · exact (hnot (hlook.1 x hx).2).elim
      · exact (hnot (hresult x hx).2).elim
      · exact ⟨x, hx, r, hr, hcode⟩
      · exact (hnot (harguments x hx).2).elim
    · rintro ⟨x, hx, hr⟩
      have hmem := List.mem_append_left
        ((argumentsFrom env m.pos id g.origin 0 args g.params).trace counted) hx
      exact ⟨x, List.mem_append_right _ (List.mem_append_right _ hmem), hr⟩
  · simp only [List.mem_append] at hx
    rcases hx with hx | hx | hx | hx
    · exact (hlook.1 x hx).1
    · exact (hresult x hx).1
    · exact hcount x hx
    · exact (harguments x hx).1

end Check

namespace Program

variable {p : Program} {config : Config} {f : Func}

/-- The states of a run from where the parameters of the function have been noted for the first time,
which is after the visits `pre` and those that open the function. -/
def statesSince (p : Program) (config : Config) (f : Func) (pre : List Visit) : List CheckState :=
  (p.history config).drop (1 + (Check.moments (p.checkEnv config) (pre ++ f.openingVisits)
    (p.initialState p.resolve).beginPass).length)

/-- The function shape `id` is that of the function and has its parameters. -/
structure AlignsShape (p : Program) (config : Config) (f : Func) (pre : List Visit)
    (place : Option String) (post : List Visit) (id : FuncShapeId) : Prop where
  visits : p.visits = pre ++ f.visits place ++ post
  /-- There is a slot for each parameter before the one that takes the rest. -/
  registered : ∀ t ∈ p.statesSince config f pre, t.Registered f id
  /-- In each pass the parameters are noted in their slots. -/
  mirrors : ∀ s ∈ p.passStarts config, ((pre ++ f.openingVisits).foldl
    (Check.visit (p.checkEnv config)) s.beginPass).Mirrors f id
  /-- A call that is checked by the shape is checked by the parameters of the function. -/
  calls : ∀ t ∈ p.statesSince config f pre, ∀ n callee args tail,
    ((Check.calleeShape? (p.checkEnv config) n.id callee).run t).1 = some id →
      Check.Aligned (p.checkEnv config) f id n.id args
        ((Check.call (p.checkEnv config) n callee args tail).trace t)

/-- The shape of a function stays aligned with it: once its parameters have been noted, the shape
has a slot for each of them up to the one that takes the rest. -/
theorem function_shape_stays_aligned {source : String} (hp : Program.ofSource source = .ok p)
    (hf : f ∈ p.funcs) :
    p.resolve.function? f.func = some f ∧
      ∃ pre place post id, p.AlignsShape config f pre place post id := by
  obtain ⟨tokens, -, htokens⟩ := exists_of_ofSource hp
  have hwell := wellFormed_of_ofTokens htokens
  have hfunction : (p.checkEnv config).resolution.function? f.func = some f :=
    hwell.function?_of_mem_funcs hf
  obtain ⟨pre, place, post, fs, fs', hsite⟩ := hwell.exists_functionSite hf
  obtain ⟨id, hregistered, hmirrors⟩ := hsite.registered_of_mem_history hwell hf
  refine ⟨hfunction, pre, place, post, id, hsite.visits, hregistered, hmirrors, ?_⟩
  intro t ht n callee args tail hcallee
  exact Check.aligned_of_registered hfunction (hregistered t ht) n callee args tail hcallee

/-- Two slots for three parameters, of which one has a default and one takes the rest. -/
theorem function_shape_stays_aligned_rest :
    ∃ p f pre place post id, Program.ofSource
        "function f(a, b = 1, ...c) \x7b return a; \x7d f('x'); f('x', 2, 3);" = .ok p ∧
      f ∈ p.funcs ∧ Pattern.slotCount f.params = 2 ∧ f.params.any Pattern.isRest = true ∧
      p.resolve.function? f.func = some f ∧ p.AlignsShape {} f pre place post id := by
  obtain ⟨p, hp, htest⟩ := Program.exists_of_any
    "function f(a, b = 1, ...c) \x7b return a; \x7d f('x'); f('x', 2, 3);"
    (fun p => p.funcs.any fun f => Pattern.slotCount f.params == 2 && f.params.any Pattern.isRest)
    (by decide +kernel)
  obtain ⟨f, hf, htest⟩ := List.any_eq_true.1 htest
  rw [Bool.and_eq_true, beq_iff_eq] at htest
  obtain ⟨hfunction, pre, place, post, id, haligns⟩ := function_shape_stays_aligned hp hf
  exact ⟨p, f, pre, place, post, id, hp, hf, htest.1, htest.2, hfunction, haligns⟩

end Program

end TagCheck
