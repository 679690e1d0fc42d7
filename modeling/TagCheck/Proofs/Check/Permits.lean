import TagCheck.Proofs.Check.Sound

/-! The rules that write to bindings and function shapes: assignments, functions and calls. All of
their writes are sound but for a few, and these are listed. Whatever is said about whole runs
follows from the last theorem here, so no later proof looks into a rule. -/
namespace TagCheck

theorem Expr.eq_ident_of_asIdent? {e : Expr} {i : Ident} (h : e.asIdent? = some i) :
    e = .ident i := by
  unfold Expr.asIdent? at h
  split at h
  · obtain rfl := Option.some.inj h
    rfl
  · cases h

namespace Check

variable {env : CheckEnv}

/-! Assignments, declarations and identifiers. -/

theorem ensures_typeBinding {b : BindingId} {name : String} {ty : Ty} {pos : Position}
    {s : CheckState} (h : ty.isKnown = true) :
    (typeBinding b name ty pos).Ensures (sound env)
      (fun _ s' => s'.store.Has (.binding b) → s'.store.isUntyped (.binding b) = false) s := by
  simp only [typeBinding, ensures_bind, ensures_getStore, ensures_ite, ensures_pure]
  refine ⟨fun hthis _ => Store.isUntyped_of_hasTypeThisPass hthis, fun _ => ?_⟩
  simp only [markType, info, report, ensures_put, Write.store_apply]
  refine ⟨h, trivial, fun hhas => ?_⟩
  refine Store.isUntyped_of_hasTypeThisPass (Write.hasTypeThisPass_onStore_type ?_ h)
  simpa using hhas

theorem isSound_checkAssignedShape (b : BindingId) (source : Node)
    (literal : Option (List Element)) : (checkAssignedShape b source literal).IsSound env := by
  intro s
  cases hshape : s.store.shape? (.binding b) with
  | none => simp [checkAssignedShape, hshape]
  | some target => simp [checkAssignedShape, hshape, sound, Write.Sound]

theorem ensures_unifyType {b : BindingId} {i : Ident} {source : Node}
    {literal : Option (List Element)} {ty : Ty} {s : CheckState} (hb : env.bindingOf? i = some b)
    (h : ty.isKnown = true) :
    (unifyType b i source literal ty).Ensures (sound env)
      (fun _ s' => s'.store.Has (.binding b) → s'.store.isUntyped (.binding b) = false) s := by
  simp only [unifyType, ensures_bind, ensures_getStore, ensures_ite]
  constructor
  · intro _
    simp only [markType, ensures_put]
    refine ⟨fun _ => h, (ensures_typeBinding h).imp fun _ s' hs' => ?_⟩
    simp only [markKnown, ensures_put]
    exact ⟨⟨⟨i, hb⟩, hs'⟩, hs'⟩
  · intro hthis
    have hthis : s.store.hasTypeThisPass (.binding b) = true := by simpa using hthis
    -- The binding is typed already, and whatever follows leaves it so.
    have hkeep {m : Check Unit} (hm : m.Ensures (sound env) (fun _ _ => True) s) :
        m.Ensures (sound env) (fun _ s' =>
          s'.store.Has (.binding b) → s'.store.isUntyped (.binding b) = false) s :=
      (hm.typed (Store.isUntyped_of_hasTypeThisPass hthis)).imp fun _ _ hs' _ => hs'
    simp only [tagOf, ensures_bind, ensures_getStore, ensures_pure]
    refine ⟨fun _ => hkeep (isSound_checkAssignedShape b source literal s), fun hfits =>
      ⟨fun hundef => hkeep ?_, fun _ => hkeep (isSound_report _ _ _ _ s)⟩⟩
    simp only [reimply, info, report, ensures_bind, ensures_put]
    refine ⟨⟨hthis, hundef, h, fun htag => hfits ?_⟩, trivial, trivial⟩
    rw [hundef, htag]
    rfl

theorem ensures_unifyShape {node : Option NodeId} {b : BindingId} {i : Ident}
    {shape : Option Shape} {s : CheckState} (hb : env.bindingOf? i = some b)
    (h : s.store.Has (.binding b) → s.store.isUntyped (.binding b) = false) :
    (unifyShape node b shape).Ensures (sound env) (fun _ _ => True) s := by
  simp only [unifyShape, ensures_bind, ensures_getStore, ensures_ite, markKnown, markShape,
    ensures_put, ensures_pure]
  refine ⟨fun _ => ⟨⟨⟨i, hb⟩, h⟩, trivial, ?_⟩, fun _ => trivial⟩
  cases node <;> simp [sound, Write.Sound]

theorem isKnown_of_filter {x : Option Ty} {ty : Ty} (h : x.filter Ty.isKnown = some ty) :
    ty.isKnown = true :=
  (Option.filter_eq_some_iff.1 h).2

theorem isSound_assignIdent (env : CheckEnv) (node : Option NodeId) (source : Node)
    (literal : Option (List Element)) (i : Ident) :
    (assignIdent env node source literal i).IsSound env := by
  intro s
  cases hb : env.bindingOf? i with
  | none => simp [assignIdent, hb, sound, Write.Sound]
  | some b =>
    cases hty : (s.store.ty? (.node source.id)).filter Ty.isKnown with
    | none => simp [assignIdent, hb, hty, sound, Write.Sound]
    | some ty =>
      have hknown := isKnown_of_filter hty
      have hunify (s' : CheckState) : (do
          unifyType b i source literal ty
          unifyShape node b (s.store.shape? (.node source.id)) : Check Unit).Ensures (sound env)
            (fun _ _ => True) s' :=
        ensures_bind.2 ((ensures_unifyType hb hknown).imp fun _ _ hs => ensures_unifyShape hb hs)
      cases node with
      | none => simpa [assignIdent, hb, hty] using hunify s
      | some n =>
        simp only [assignIdent, hb, knownType?, ty?, shape?, ensures_bind, ensures_getStore,
          ensures_pure, hty, markType, ensures_put]
        exact ⟨fun _ => hknown, ensures_bind.1 (hunify _)⟩

theorem isSound_markDestructured (node : Option NodeId) (value : Expr) {otherwise : Tag}
    (h : otherwise ≠ .unknown) : (markDestructured node value otherwise).IsSound env := by
  intro s
  cases node with
  | none => simp [markDestructured]
  | some n =>
    cases hty : (s.store.ty? (.node value.id)).filter Ty.isKnown with
    | none => simp [markDestructured, hty, sound, Write.Sound, h]
    | some ty => simp [markDestructured, hty, sound, Write.Sound, isKnown_of_filter hty]

mutual

theorem isSound_assign (env : CheckEnv) (node : Option NodeId) (value : Expr) :
    (target : Pattern) → (assign env node value target).IsSound env
  | .ident i => by
    rw [assign]
    exact isSound_assignIdent env node value.node _ i
  | .array _ targets => by
    rw [assign]
    exact isSound_bind (isSound_markDestructured node value (by decide)) fun _ =>
      isSound_assignElements env _ targets
  | .object _ props => by
    rw [assign]
    exact isSound_bind (isSound_markDestructured node value (by decide)) fun _ =>
      isSound_assignProps env _ props
  | .withDefault _ target _ => by
    rw [assign]
    exact isSound_assign env node value target
  | .rest _ _ => by
    rw [assign]
    exact isSound_pure ()

theorem isSound_assignElements (env : CheckEnv) :
    (es : List Element) → (ps : List (Option Pattern)) → (assignElements env es ps).IsSound env
  | .item e :: es, some p :: ps => by
    rw [assignElements]
    exact isSound_bind (isSound_assign env none e p) fun _ => isSound_assignElements env es ps
  | .item e :: es, none :: ps => by
    rw [assignElements]
    · exact isSound_assignElements env es ps
    · simp
  | .hole :: es, p :: ps => by
    rw [assignElements]
    · exact isSound_assignElements env es ps
    · simp
  | .spread n e :: es, p :: ps => by
    rw [assignElements]
    · exact isSound_assignElements env es ps
    · simp
  | [], _ => by
    rw [assignElements]
    exact isSound_pure ()
    all_goals simp
  | _ :: _, [] => by
    rw [assignElements]
    exact isSound_pure ()
    all_goals simp

theorem isSound_assignProps (env : CheckEnv) (source : List Property) :
    (ps : List PatternProp) → (assignProps env source ps).IsSound env
  | [] => by
    rw [assignProps]
    exact isSound_pure ()
  | .prop key p :: ps => by
    rw [assignProps]
    split
    · exact isSound_bind (isSound_assign env none _ p) fun _ => isSound_assignProps env source ps
    · exact isSound_assignProps env source ps
  | .rest _ :: ps => by
    rw [assignProps]
    exact isSound_assignProps env source ps

end

theorem isSound_rest (env : CheckEnv) (n : NodeId) (argument : Pattern) :
    (rest env n argument).IsSound env := by
  refine isSound_bind (isSound_markType_node n rfl) fun _ => ?_
  split
  · split
    · exact isSound_report _ _ _ _
    · refine isSound_bind isSound_look fun found => ?_
      split
      · exact fun s => (ensures_typeBinding rfl).imp fun _ _ _ => trivial
      · intro s
        simp [sound, Write.Sound]
  · exact isSound_pure ()

theorem isSound_tagIdentifier {t : Tag} (h : t ≠ .unknown) (i : Ident) (role : Role) :
    (tagIdentifier t i role).IsSound env := by
  unfold tagIdentifier
  split
  · exact isSound_markType_node _ (by simpa using h)
  · exact isSound_markType_node _ (by simpa using h)
  · exact isSound_markType_node _ rfl

theorem globalTag?_ne_unknown {name : String} {t : Tag} (h : globalTag? name = some t) :
    t ≠ .unknown := by
  unfold globalTag? at h
  split at h <;> cases h <;> decide

theorem isSound_readIdentifier (env : CheckEnv) (i : Ident) (role : Role) :
    (readIdentifier env i role).IsSound env := by
  intro s
  cases hb : env.bindingOf? i with
  | none =>
    cases hg : globalTag? i.name with
    | none => simp [readIdentifier.eq_def, hb, hg]
    | some t => simp [readIdentifier.eq_def, hb, hg, sound, Write.Sound, globalTag?_ne_unknown hg]
  | some b =>
    cases hty : (s.store.ty? (.binding b)).filter Ty.isKnown with
    | some ty => simp [readIdentifier.eq_def, hb, hty, sound, Write.Sound, isKnown_of_filter hty]
    | none =>
      cases hg : globalTag? i.name with
      | some t =>
        simp [readIdentifier.eq_def, hb, hty, hg, sound, Write.Sound, globalTag?_ne_unknown hg]
      | none =>
        have huntyped := Store.isUntyped_iff.2 hty
        simp [readIdentifier.eq_def, hb, hty, hg, sound, Write.Sound, huntyped]

theorem isSound_identifier (env : CheckEnv) (i : Ident) (role : Role) :
    (identifier env i role).IsSound env := by
  unfold identifier
  split
  · rename_i t _ htag
    refine isSound_tagIdentifier ?_ i _
    rintro rfl
    simpa [Tag.recognized] using List.mem_of_find?_eq_some htag
  · exact isSound_assignIdent _ _ _ _ _
  · exact isSound_readIdentifier env i _

/-! Functions. -/

theorem isSound_modifyFunc (id : FuncShapeId) {f : FuncShape → FuncShape}
    (h : ∀ g : FuncShape, g.Keeps (f g)) : (modifyFunc id f).IsSound env := by
  intro s
  simpa [sound, Write.Sound] using h

theorem isSound_modifyReturn (id : FuncShapeId) {f : ReturnSlot → ReturnSlot}
    (h : ∀ r : ReturnSlot, r.shape.isSome = true → (f r).shape.isSome = true) :
    (modifyReturn id f).IsSound env :=
  isSound_modifyFunc id fun g => FuncShape.keeps_ret (h g.ret)

theorem isSound_enterFunction (n : NodeId) (f : FuncId) : (enterFunction n f).IsSound env := by
  intro s
  simp only [enterFunction, markType, functionShape, modifyReturn, modifyFunc, markShape,
    ensures_bind, ensures_put, ensures_getStore, ensures_pure, ensures_ite]
  refine ⟨fun _ => rfl, trivial, fun _ => ⟨trivial, trivial, trivial⟩, fun _ => ?_⟩
  exact ⟨fun g => FuncShape.keeps_ret id, trivial, trivial, trivial⟩

theorem isSound_markKnown_ret (id : FuncShapeId) : (markKnown (.ret id)).IsSound env :=
  fun _ => ⟨trivial, trivial⟩

theorem isSound_settleResult (id : FuncShapeId) (result : Option NodeId) :
    (settleResult id result).IsSound env := by
  cases result with
  | none =>
    rw [settleResult]
    refine isSound_modifyReturn id fun r hr => ?_
    split <;> exact hr
  | some n =>
    rw [settleResult]
    refine isSound_bind isSound_look fun ty => isSound_bind isSound_look fun shape => ?_
    refine isSound_bind (isSound_modifyReturn id fun r => FuncShape.isSome_orElse) fun _ => ?_
    split
    · exact isSound_markKnown_ret id
    · exact isSound_pure ()

theorem isSound_leaveFunction (pos : Position) (name : String) (result : Option NodeId) :
    (leaveFunction pos name result).IsSound env := by
  refine isSound_bind isSound_look fun frame => ?_
  split
  · refine isSound_bind (isSound_settleResult _ result) fun _ => ?_
    refine isSound_bind isSound_look fun description => ?_
    exact isSound_bind (isSound_report _ _ _ _) fun _ _ => ⟨trivial, trivial⟩
  · exact isSound_pure ()

theorem isSound_meetResult (id : FuncShapeId) (ty : Ty) (shape : Option Shape) (pos : Position) :
    (meetResult id ty shape pos).IsSound env := by
  refine isSound_bind isSound_look fun found => ?_
  split
  · split
    · split
      · exact isSound_modifyReturn id fun r => FuncShape.isSome_orElse
      · exact isSound_pure ()
    · split
      · exact isSound_report _ _ _ _
      · refine isSound_bind isSound_look fun fits => ?_
        split
        · exact isSound_mismatched _ _ _ _ _
        · exact isSound_pure ()
  · exact isSound_pure ()

theorem isSound_return (env : CheckEnv) (pos : Position) (argument : Option Expr) :
    (return_ env pos argument).IsSound env := by
  refine isSound_bind isSound_look fun frame => ?_
  split
  · refine isSound_bind isSound_look fun store => ?_
    split
    · exact isSound_pure ()
    · refine isSound_bind (isSound_modifyReturn _ fun r => id) fun _ => ?_
      split
      · refine isSound_bind isSound_look fun ty => ?_
        refine isSound_bind isSound_look fun shape => ?_
        split
        · exact isSound_bind (isSound_markKnown_ret _) fun _ => isSound_meetResult _ _ _ _
        · exact isSound_meetResult _ _ _ _
      · exact isSound_bind (isSound_markKnown_ret _) fun _ => isSound_meetResult _ _ _ _
  · exact isSound_pure ()

/-! Calls. -/

theorem nativeResult?_ne_unknown {name : String} {t : Tag} (h : nativeResult? name = some t) :
    t ≠ .unknown := by
  unfold nativeResult? at h
  split at h <;> cases h <;> decide

/-- If no shape is found for a name, its binding has none of a function. -/
theorem ensures_calleeShape? (env : CheckEnv) (n : NodeId) (callee : Expr) (s : CheckState) :
    (calleeShape? env n callee).Ensures (sound env) (fun id? s' => id? = none → ∀ i b,
      callee.asIdent? = some i → env.bindingOf? i = some b →
        (s'.store.shape? (.binding b)).bind Shape.asFunc? = none) s := by
  unfold calleeShape?
  split
  · rename_i i
    split
    · rename_i hnative
      have hknown := nativeResult?_ne_unknown hnative
      simp [sound, Write.Sound, hknown]
    · intro hnone j b hj hb
      obtain rfl : i = j := by simpa [Expr.asIdent?] using hj
      simpa [hb] using hnone
  · intro _ i b hi
    cases hi
  · rename_i hident _
    intro _ i b hi
    exact absurd (Expr.eq_ident_of_asIdent? hi) (hident i)

theorem isSound_implyParam (env : CheckEnv) (id : FuncShapeId) (origin : FuncId) (idx : Nat)
    {ty : Ty} (shape : Option Shape) (pos : Position) (h : ty.isKnown = true) :
    (implyParam env id origin idx ty shape pos).IsSound env := by
  intro s
  cases hparam : (env.resolution.function? origin).bind (·.params[idx]?) with
  | none => simp [implyParam, hparam]
  | some param =>
    cases himplied : Parameter.implied? param with
    | none => simp [implyParam, hparam, himplied]
    | some x =>
      obtain ⟨i, inner⟩ := x
      cases hb : env.bindingOf? i with
      | none => cases inner <;> simp [implyParam, hparam, himplied, hb, sound, Write.Sound, h]
      | some b =>
        have hname : ∃ j, env.bindingOf? j = some b := ⟨i, hb⟩
        have hkeeps (f : FuncShape) : f.Keeps (f.implyParam idx ty shape) :=
          f.keeps_implyParam idx shape h
        have htyped (s' : Store) (hhas : s'.Has (.binding b)) :
            ((Write.type (.binding b) ty).onStore s').isUntyped (.binding b) = false :=
          Store.isUntyped_of_hasTypeThisPass (Write.hasTypeThisPass_onStore_type hhas h)
        cases inner <;> cases shape <;>
          simp +contextual [implyParam, hparam, himplied, hb, sound, Write.Sound, h, hname, hkeeps,
            htyped]

theorem isSound_argument (env : CheckEnv) (id : FuncShapeId) (origin : Option FuncId) (idx : Nat)
    (param : Slot) (arg : Expr) : (argument env id origin idx param arg).IsSound env := by
  refine isSound_bind isSound_look fun ty => isSound_bind isSound_look fun shape => ?_
  split
  · split
    · exact isSound_report _ _ _ _
    · refine isSound_bind isSound_look fun fits => ?_
      split
      · exact isSound_mismatched _ _ _ _ _
      · exact isSound_pure ()
  split
  · rename_i hknown
    split
    · exact isSound_implyParam env id _ idx shape _ hknown
    · exact isSound_pure ()
  · exact isSound_pure ()

theorem isSound_argumentsFrom (env : CheckEnv) (pos : Position) (id : FuncShapeId)
    (origin : Option FuncId) (idx : Nat) (args : List Element) (params : List Slot) :
    (argumentsFrom env pos id origin idx args params).IsSound env := by
  fun_induction argumentsFrom with
  | case1 => exact isSound_report _ _ _ _
  | case2 idx e es p ps ih =>
    exact isSound_bind (isSound_argument env id origin idx p e) fun _ => ih
  | case3 => exact isSound_pure ()

theorem isSound_argumentCount (pos : Position) (f : FuncShape) (args : List Element) :
    (argumentCount pos f args).IsSound env := by
  intro s
  simp [argumentCount, sound, Write.Sound]

end Check

/-- The writes of a rule that are not sound: types that the visit names, results of callees, and
what is noted as unknown or known whether or not there is a type for it. -/
inductive Visit.Excuses (env : CheckEnv) (s : Store) : Visit → Write → Prop
  | infer {n : NodeId} : Excuses env s (.infer n .unknown) (.type (.node n) (.inferred .unknown))
  | result {n : Node} {callee : Expr} {args : List Element} {tail : Bool} {ty : Ty} :
    Excuses env s (.call n callee args tail) (.type (.node n.id) ty)
  | openResult {n : Node} {callee : Expr} {args : List Element} {tail : Bool} {id : FuncShapeId}
    (h : s.isUnknown (.ret id) = true) :
    Excuses env s (.call n callee args tail) (.touch (.ret id))
  | callee {n : Node} {i : Ident} {args : List Element} {tail : Bool} {b : BindingId}
    (hb : env.bindingOf? i = some b) (h : (s.shape? (.binding b)).bind Shape.asFunc? = none) :
    Excuses env s (.call n (.ident i) args tail) (.touch (.binding b))
  | default {n : NodeId} {target : Pattern} {value : Expr} {b : BindingId}
    (hb : target.asIdent?.bind env.bindingOf? = some b) (h : s.isUntyped (.node value.id) = true) :
    Excuses env s (.assignDefault n target value) (.touch (.binding b))
  | parameter {params : List Pattern} {p : Pattern} {b : BindingId} (hp : p ∈ params)
    (hb : p.simpleName?.bind env.bindingOf? = some b) (h : s.isUntyped (.node p.id) = true) :
    Excuses env s (.parameters params) (.touch (.binding b))
  | declare {i : Ident} {b : BindingId} (hb : env.bindingOf? i = some b)
    (h : s.isTouched (.binding b) = true) : Excuses env s (.declare i) (.known (.binding b))

def Visit.Permits (env : CheckEnv) (v : Visit) (s : CheckState) (w : Write) : Prop :=
  w.Sound env s.store ∨ v.Excuses env s.store w

namespace Check

theorem IsSound.permits {env : CheckEnv} {v : Visit} {m : Check α} (h : m.IsSound env)
    (s : CheckState) : m.Ensures (v.Permits env) (fun _ _ => True) s :=
  (h s).mono (fun _ _ hw => Or.inl hw) fun _ _ h => h

/-- What is declared has a type in the end. -/
theorem permits_declare (env : CheckEnv) (i : Ident) (s : CheckState) :
    (declare env i).Ensures ((Visit.declare i).Permits env) (fun _ s' => ∀ b,
      env.bindingOf? i = some b → s'.store.Has (.binding b) →
        s'.store.isUntyped (.binding b) = false) s := by
  cases hb : env.bindingOf? i with
  | none => simp [declare, hb]
  | some b =>
    have htype (s' : CheckState) : (typeBinding b i.name (.inferred .undef) i.node.pos).Ensures
        ((Visit.declare i).Permits env) (fun _ s'' => ∀ b', some b = some b' →
          s''.store.Has (.binding b') → s''.store.isUntyped (.binding b') = false) s' :=
      (ensures_typeBinding rfl).mono (fun _ _ hG => Or.inl hG)
        fun _ s'' h b' hb' hhas => by cases hb'; exact h hhas
    simp only [declare, hb, ensures_bind, ensures_getStore, ensures_ite, markKnown, ensures_put]
    exact ⟨fun htouched => ⟨Or.inr (.declare hb htouched), htype _⟩, fun _ => htype s⟩

theorem permits_parametersFrom {env : CheckEnv} {params : List Pattern} {id : FuncShapeId}
    {idx : Nat} {ps : List Pattern} (hps : ∀ p ∈ ps, p ∈ params) (s : CheckState) :
    (parametersFrom env id idx ps).Ensures ((Visit.parameters params).Permits env)
      (fun _ _ => True) s := by
  induction ps generalizing idx s with
  | nil => trivial
  | cons p ps ih =>
    have ih (idx : Nat) (s : CheckState) : (parametersFrom env id idx ps).Ensures
        ((Visit.parameters params).Permits env) (fun _ _ => True) s :=
      ih (fun q hq => hps q (List.mem_cons_of_mem p hq)) s
    cases hty : (s.store.ty? (.node p.id)).filter Ty.isKnown with
    | some ty =>
      have hsound (f : FuncShape → FuncShape) (h : ∀ g : FuncShape, g.Keeps (f g)) :
          (Visit.parameters params).Permits env s (.func id f) := Or.inl h
      have hknown := isKnown_of_filter hty
      simp only [parametersFrom, knownType?, ty?, shape?, modifyFunc, ensures_bind,
        ensures_getStore, ensures_pure, hty, ensures_ite, ensures_put]
      exact ⟨fun _ => ⟨hsound _ FuncShape.keeps_hasRest, trivial⟩, fun _ =>
        ⟨hsound _ fun f => f.keeps_setParam idx _ hknown, ih _ _⟩⟩
    | none =>
      have hnew : (Visit.parameters params).Permits env s
          (.func id fun f => { f with params := f.params ++ [⟨.unknown, none⟩] }) :=
        Or.inl fun f => f.keeps_append _
      have huntyped := Store.isUntyped_iff.2 hty
      cases hb : p.simpleName?.bind env.bindingOf? with
      | none =>
        simp only [parametersFrom, knownType?, ty?, func?, modifyFunc, ensures_bind,
          ensures_getStore, ensures_pure, hty, hb, ensures_ite, ensures_put]
        exact ⟨fun _ => ih _ _, fun _ => ⟨hnew, ih _ _⟩⟩
      | some b =>
        simp only [parametersFrom, knownType?, ty?, func?, modifyFunc, touch, ensures_bind,
          ensures_getStore, ensures_pure, hty, hb, ensures_ite, ensures_put]
        exact ⟨fun _ => ih _ _, fun _ =>
          ⟨hnew, Or.inr (.parameter (hps p (List.mem_cons_self ..)) hb huntyped), ih _ _⟩⟩

theorem permits_callResult {env : CheckEnv} {n : Node} {callee : Expr} {args : List Element}
    {tail selfTail : Bool} {id : FuncShapeId} {f : FuncShape} {s : CheckState}
    (hf : s.store.arena.get? id = some f) :
    (callResult n.id id f.ret selfTail).Ensures ((Visit.call n callee args tail).Permits env)
      (fun _ _ => True) s := by
  have hopen {s' : CheckState} (hs' : s'.store.arena.get? id = some f)
      (h : f.ret.isDefault = true ∨ f.ret.ty.isKnown = false) :
      (Visit.call n callee args tail).Permits env s' (.touch (.ret id)) :=
    Or.inr (.openResult (by simpa [Store.isUnknown, hs'] using h))
  have htyped : ((Write.type (.node n.id) f.ret.ty).apply s).store.arena.get? id = some f := by
    simpa using Write.get?_onStore (w := .type (.node n.id) f.ret.ty) hf
  have hshape {s' : CheckState} :
      (Visit.call n callee args tail).Permits env s' (.shape (.node n.id) f.ret.shape) :=
    Or.inl trivial
  cases hdefault : f.ret.isDefault with
  | true => simpa [callResult, hdefault] using fun _ => hopen hf (Or.inl hdefault)
  | false =>
    simp only [callResult, hdefault, markType, markShape, touch, ensures_bind, ensures_put,
      ensures_ite, ensures_pure]
    refine ⟨fun h => absurd h (by simp), fun _ => ⟨Or.inr .result, fun _ => ⟨hshape, trivial⟩,
      fun hunknown => ⟨fun _ => trivial, fun _ => ⟨hopen htyped (Or.inr ?_), trivial⟩⟩⟩⟩
    simpa using hunknown

theorem permits_call (env : CheckEnv) (n : Node) (callee : Expr) (args : List Element) (tail : Bool)
    (s : CheckState) : (call env n callee args tail).Ensures
      ((Visit.call n callee args tail).Permits env) (fun _ _ => True) s := by
  simp only [call, ensures_bind, ensures_getStore, ensures_frame?]
  refine (ensures_calleeShape? env n.id callee s).mono (fun _ _ hw => Or.inl hw) ?_
  intro id? s' hnone
  cases id? with
  | none =>
    cases hi : callee.asIdent? with
    | none => trivial
    | some i =>
      obtain rfl := Expr.eq_ident_of_asIdent? hi
      cases hb : env.bindingOf? i with
      | none =>
        simp only [error, report, ensures_bind, ensures_put, hb]
        exact ⟨Or.inl trivial, trivial⟩
      | some b =>
        simp only [error, report, touch, ensures_bind, ensures_put, hb]
        exact ⟨Or.inl trivial, Or.inr (.callee hb (hnone rfl i b hi hb)), trivial⟩
  | some id =>
    cases hf : s'.store.arena.get? id with
    | none => simp [hf]
    | some f =>
      simp only [func?, ensures_bind, ensures_getStore, ensures_pure, hf]
      refine (permits_callResult hf).imp fun _ s₁ _ => ?_
      refine ((isSound_argumentCount n.pos f args).permits s₁).imp fun _ s₂ _ => ?_
      exact (isSound_argumentsFrom env n.pos id f.origin 0 args f.params).permits s₂

end Check

/-- Every write of every rule is sound or excused. -/
theorem Visit.permits_apply (env : CheckEnv) (v : Visit) (s : CheckState) :
    (v.apply env).Ensures (v.Permits env) (fun _ _ => True) s := by
  cases v with
  | infer n t =>
    refine ⟨?_, trivial⟩
    by_cases ht : t = .unknown
    · subst ht
      exact Or.inr .infer
    · exact Or.inl fun _ => by simpa using ht
  | identifier i role => exact (Check.isSound_identifier env i role).permits s
  | enterFunction n f => exact (Check.isSound_enterFunction n f).permits s
  | parameters params =>
    change (Check.parameters env params).Ensures _ _ s
    cases hframe : s.frames.head? with
    | none => simp [Check.parameters, hframe]
    | some id =>
      simp only [Check.parameters, Check.ensures_bind, Check.ensures_frame?, hframe]
      exact Check.permits_parametersFrom (fun p hp => hp) s
  | leaveFunction pos name result => exact (Check.isSound_leaveFunction pos name result).permits s
  | return_ pos argument => exact (Check.isSound_return env pos argument).permits s
  | condition code label n => exact (Check.isSound_condition code label n).permits s
  | declare i => exact (Check.permits_declare env i s).imp fun _ _ _ => trivial
  | assign n value target => exact (Check.isSound_assign env n value target).permits s
  | assignDefault n target value =>
    change (Check.assignDefault env n target value).Ensures _ _ s
    have hassign (s' : CheckState) : (Check.assign env (some n) value target).Ensures
        ((assignDefault n target value).Permits env) (fun _ _ => True) s' :=
      (Check.isSound_assign env (some n) value target).permits s'
    cases hb : target.asIdent?.bind env.bindingOf? with
    | none => simpa [Check.assignDefault, hb] using hassign s
    | some b =>
      simp only [Check.assignDefault, hb, Check.ensures_bind, Check.ensures_getStore,
        Check.ensures_ite, Check.touch, Check.ensures_put]
      exact ⟨fun huntyped => ⟨Or.inr (.default hb huntyped), hassign _⟩, fun _ => hassign s⟩
  | rest n argument => exact (Check.isSound_rest env n argument).permits s
  | spread pos argument expected => exact (Check.isSound_spread pos argument expected).permits s
  | arrayLiteral n elements => exact (Check.isSound_arrayLiteral n elements).permits s
  | unary n op argument => exact (Check.isSound_unary n op argument).permits s
  | update n op argument => exact (Check.isSound_update n op argument).permits s
  | binary n op left right => exact (Check.isSound_binary env n op left right).permits s
  | select n a b => exact (Check.isSound_select n a b).permits s
  | inherit n source => exact (Check.isSound_inherit n source).permits s
  | call n callee args tail => exact Check.permits_call env n callee args tail s
  | annotate n text outer => exact (Check.isSound_annotate n text outer).permits s
  | template n tag label quasi chained =>
    exact (Check.isSound_template n tag label quasi chained).permits s

namespace Visit.Permits

variable {env : CheckEnv} {v : Visit} {s : CheckState}

theorem of_type {b : BindingId} {ty : Ty} (h : v.Permits env s (.type (.binding b) ty)) :
    ty.isKnown = true := by
  rcases h with h | h
  · exact h
  · cases h

theorem of_reimply {b : BindingId} {ty : Ty} (h : v.Permits env s (.reimply b ty)) :
    s.store.hasTypeThisPass (.binding b) = true ∧ s.store.tag (.binding b) = .undef ∧
      ty.isKnown = true ∧ ty.tag ≠ .undef := by
  rcases h with h | h
  · exact h
  · cases h

theorem of_func {id : FuncShapeId} {f : FuncShape → FuncShape}
    (h : v.Permits env s (.func id f)) (g : FuncShape) : g.Keeps (f g) := by
  rcases h with h | h
  · exact h g
  · cases h

theorem of_known {b : BindingId} (h : v.Permits env s (.known (.binding b))) :
    ((∃ i, env.bindingOf? i = some b) ∧
      (s.store.Has (.binding b) → s.store.isUntyped (.binding b) = false)) ∨
    ((∃ i, v = .declare i ∧ env.bindingOf? i = some b) ∧ .binding b ∈ s.store.touched) := by
  rcases h with h | h
  · exact Or.inl h
  · cases h with
    | declare hb h => exact Or.inr ⟨⟨_, rfl, hb⟩, by simpa [Store.isTouched] using h⟩

theorem of_touch_ret {id : FuncShapeId} (h : v.Permits env s (.touch (.ret id))) :
    s.store.isUnknown (.ret id) = true := by
  rcases h with h | h
  · cases h
  · cases h with
    | openResult h => exact h

end Visit.Permits
end TagCheck
