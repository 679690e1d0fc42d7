import TagCheck.Proofs.Check.Logic
import TagCheck.Proofs.Renaming.Parts
import TagCheck.Proofs.Renaming.Scope

/-! The rules under other names. A rule applied to a part of a program and to its counterpart looks
at the same things and writes the same, but for the names in its reports. -/
namespace TagCheck

/-- A name that means nothing to the checker unless it is declared. -/
def IsPlainName (name : String) : Prop := Tag.ofName? name = none ∧ isGlobalName name = false

/-- Two environments that differ in names only. The identifiers that a visit may meet are as `P`
says. -/
structure CheckEnv.Counterpart (P : Ident → Prop) (f : Ident → Ident) (N : Naming)
    (env env' : CheckEnv) : Prop where
  node (i : Ident) : (f i).node = i.node
  strictEquality : env'.strictEquality = env.strictEquality
  reference? (n : NodeId) : env'.resolution.reference? n = env.resolution.reference? n
  function? (k : FuncId) :
    env'.resolution.function? k = (env.resolution.function? k).map (Func.rename f)
  plain (i : Ident) : P i → (f i).name = i.name ∨ IsPlainName i.name ∧ IsPlainName (f i).name
  named (i : Ident) (b : BindingId) : P i → env.bindingOf? i = some b →
    N.binding i.name (f i).name
  /-- The parameters that arguments can give types to. -/
  parameter (k : FuncId) (g : Func) : env.resolution.function? k = some g → ∀ p ∈ g.params,
    ∀ i inner, Check.Parameter.implied? p = some (i, inner) →
      P i ∧ ' ' ∉ i.name.toList ∧ ' ' ∉ (f i).name.toList

namespace Check

variable {N : Naming}

section

attribute [local instance] lawful

attribute [local simp] Naming.rewords_error Code.subject_eq_fault_iff

theorem alike_condition {code : Code} (h : code.subject = .fault) (label : String) (n : Node) :
    Alike N.Rewords (condition code label n) (condition code label n) := by
  simp [condition, Naming.rewords_error h]

theorem alike_unary (n : NodeId) (op : UnaryOp) (argument : Node) :
    Alike N.Rewords (unary n op argument) (unary n op argument) := by
  cases op <;> simp [unary, checkNumericOperand]

theorem alike_update (n : NodeId) (op : UpdateOp) (argument : Node) :
    Alike N.Rewords (update n op argument) (update n op argument) := by
  have hoperand : Alike N.Rewords (checkNumericOperand op.text argument)
      (checkNumericOperand op.text argument) := by simp [checkNumericOperand]
  refine .bind (.look _) fun ty => ?_
  split
  · exact .bind (by simp) fun _ => hoperand
  · exact hoperand

theorem alike_rejectOperands {code : Code} (h : code.subject = .fault) (label expected : String)
    (accepts : Tag → Bool) (operands : List (Node × Tag)) :
    Alike N.Rewords (rejectOperands code label expected accepts operands)
      (rejectOperands code label expected accepts operands) :=
  .forM (List.forall₂_same.2 fun _ _ => by simp [Naming.rewords_error h])

theorem alike_arithmetic (n : Node) (op : BinaryOp) (left right : Node) :
    Alike N.Rewords (arithmetic n op left right) (arithmetic n op left right) := by
  simp [arithmetic, modulus, alike_rejectOperands]

theorem alike_addition (n left right : Node) :
    Alike N.Rewords (addition n left right) (addition n left right) := by
  simp [addition, alike_arithmetic]

theorem alike_relational (n : Node) (op : BinaryOp) (left right : Node) :
    Alike N.Rewords (relational n op left right) (relational n op left right) := by
  simp [relational, alike_rejectOperands]

theorem alike_looseEquality (n : Node) (op : BinaryOp) (left right : Node) :
    Alike N.Rewords (looseEquality n op left right) (looseEquality n op left right) := by
  refine .bind (.look _) fun l => .bind (.look _) fun r => .bind (by simp) fun _ => ?_
  split <;> simp

theorem alike_strictEquality {env env' : CheckEnv} (h : env'.strictEquality = env.strictEquality)
    (n : Node) (op : BinaryOp) (left right : Node) :
    Alike N.Rewords (strictEquality env n op left right) (strictEquality env' n op left right) := by
  simp [strictEquality, h, Naming.rewords_comparison]

theorem alike_binary {env env' : CheckEnv} (h : env'.strictEquality = env.strictEquality)
    (n : Node) (op : BinaryOp) (left right : Node) :
    Alike N.Rewords (binary env n op left right) (binary env' n op left right) := by
  cases op with
  | add => exact alike_addition n left right
  | lt | le | gt | ge => exact alike_relational n _ left right
  | eq | notEq => exact alike_looseEquality n _ left right
  | strictEq | strictNotEq => exact alike_strictEquality h n _ left right
  | in_ | instanceof => simp [binary, membership, instanceOf]
  | _ => exact alike_arithmetic n _ left right

theorem alike_select (n a b : NodeId) : Alike N.Rewords (select n a b) (select n a b) := by
  simp [select]

theorem alike_inherit (n source : NodeId) :
    Alike N.Rewords (inherit n source) (inherit n source) := by
  refine .bind (.look _) fun ty => ?_
  split <;> simp

theorem alike_spread (pos : Position) (argument : NodeId) (expected : Tag) :
    Alike N.Rewords (spread pos argument expected) (spread pos argument expected) := by
  simp [spread]

theorem alike_annotate (n : Node) (text : String) (outer : Option NodeId) :
    Alike N.Rewords (annotate n text outer) (annotate n text outer) := by
  unfold annotate
  split
  · cases outer <;> simp
  · simp

theorem alike_enterFunction (n : NodeId) (k : FuncId) :
    Alike N.Rewords (enterFunction n k) (enterFunction n k) := by
  simp [enterFunction]

variable {P : Ident → Prop} {f : Ident → Ident} {env env' : CheckEnv}
  (h : env.Counterpart P f N env')

include h

theorem alike_arrayLiteral (n : Node) (es : List Element) :
    Alike N.Rewords (arrayLiteral n es) (arrayLiteral n (Element.rename f es)) := by
  simp [arrayLiteral, Store.inferArrayShape_rename h.node, Naming.rewords_arrayShape]

theorem alike_interpolated (tag : Tag) (label : String) (shape : Option ArrayShape) (e : Expr) :
    Alike N.Rewords (interpolated tag label shape e)
      (interpolated tag label shape (e.rename f)) := by
  have hfits (store : Store) (shape : ArrayShape) := store.valueFits_rename h.node shape e
  unfold interpolated
  simp only [e.id_rename h.node, e.pos_rename h.node]
  cases shape with
  | none => simp
  | some shape =>
    by_cases hobject : ∃ n ps, e = .object n ps
    · obtain ⟨n, ps, rfl⟩ := hobject
      simp [Expr.rename]
    · have hold : ∀ n ps, e ≠ .object n ps := fun n ps he => hobject ⟨n, ps, he⟩
      have hnew := rename_ne_object f hold
      simp [hfits]

theorem alike_contents (n : Node) (tag : Tag) (label : String) (quasi : Template)
    (shape : Option ArrayShape) :
    Alike N.Rewords (contents n tag label quasi shape)
      (contents n tag label (quasi.rename f) shape) := by
  have hparts : Alike N.Rewords (quasi.parts.forM (interpolated tag label shape))
      (forM quasi.parts fun e => interpolated tag label shape (e.rename f)) :=
    .forM (List.forall₂_same.2 fun e _ => alike_interpolated h tag label shape e)
  simp only [contents, Template.loneText?_rename]
  split
  · split <;> simp
  · simpa [Template.rename] using fun _ => hparts

theorem alike_template (n : Node) (tag : Tag) (label : String) (quasi : Template)
    (chained : Bool) : Alike N.Rewords (template n tag label quasi chained)
      (template n tag label (quasi.rename f) chained) := by
  unfold template
  split
  · refine .bind (.look _) fun shape => ?_
    split
    · exact alike_contents h n tag label quasi _
    · exact .pure ()
  · exact alike_contents h n tag label quasi none

omit h in
theorem alike_typeBinding {name name' : String} (hname : N.binding name name') (b : BindingId)
    (ty : Ty) (pos : Position) :
    Alike N.Rewords (typeBinding b name ty pos) (typeBinding b name' ty pos) := by
  simp [typeBinding, Naming.rewords_imply hname]

omit h in
theorem alike_reimply {i i' : Ident} (hname : N.binding i.name i'.name) (hnode : i'.node = i.node)
    (b : BindingId) (ty : Ty) : Alike N.Rewords (reimply b i ty) (reimply b i' ty) := by
  have hwords := Naming.rewords_reimply hname ty i.node.pos
  simp [reimply, hnode, hwords]

theorem alike_checkAssignedShape (b : BindingId) (source : Node) (literal : Option (List Element)) :
    Alike N.Rewords (checkAssignedShape b source literal)
      (checkAssignedShape b source (literal.map (Element.rename f))) := by
  refine .bind (.look _) fun store => ?_
  split
  · exact .pure ()
  · rename_i target htarget
    have hadmits (shape : ArrayShape) := shape.admits_rename h.node store
    cases literal with
    | none => simp
    | some es => cases target <;> simp [hadmits]

theorem alike_unifyType {i : Ident} (hname : N.binding i.name (f i).name) (b : BindingId)
    (source : Node) (literal : Option (List Element)) (ty : Ty) :
    Alike N.Rewords (unifyType b i source literal ty)
      (unifyType b (f i) source (literal.map (Element.rename f)) ty) := by
  have htype : Alike N.Rewords
      (do typeBinding b i.name ty i.node.pos; markKnown (.binding b))
      (do typeBinding b (f i).name ty i.node.pos; markKnown (.binding b)) :=
    .bind (alike_typeBinding hname b ty _) fun _ => by simp
  simpa [unifyType, h.node, alike_checkAssignedShape h, alike_reimply hname (h.node i)]
    using fun _ _ => htype

omit h in
theorem alike_unifyShape (node : Option NodeId) (b : BindingId) (shape : Option Shape) :
    Alike N.Rewords (unifyShape node b shape) (unifyShape node b shape) := by
  cases node <;> simp [unifyShape]

theorem bindingOf?_eq (i : Ident) : env'.bindingOf? (f i) = env.bindingOf? i := by
  rw [CheckEnv.bindingOf?, CheckEnv.bindingOf?, h.node, Resolution.bindingOf?,
    Resolution.bindingOf?, h.reference?]

theorem bind_bindingOf?_eq (i? : Option Ident) :
    (i?.map f).bind env'.bindingOf? = i?.bind env.bindingOf? := by
  rw [Option.bind_map]
  congr 1
  funext i
  exact bindingOf?_eq h i

theorem alike_assignIdent (node : Option NodeId) (source : Node) (literal : Option (List Element))
    {i : Ident} (hi : P i) :
    Alike N.Rewords (assignIdent env node source literal i)
      (assignIdent env' node source (literal.map (Element.rename f)) (f i)) := by
  simp only [assignIdent, bindingOf?_eq h]
  cases hb : env.bindingOf? i with
  | none => simp [h.node]
  | some b =>
    have hname := h.named i b hi hb
    refine .bind (.look _) fun ty? => ?_
    cases ty? with
    | none => simp
    | some ty =>
      refine .bind (.look _) fun shape => ?_
      have hunify : Alike N.Rewords
          (do unifyType b i source literal ty; unifyShape node b shape)
          (do unifyType b (f i) source (literal.map (Element.rename f)) ty
              unifyShape node b shape) :=
        .bind (alike_unifyType h hname b source literal ty) fun _ => alike_unifyShape node b shape
      cases node with
      | none => exact hunify
      | some n => exact .bind (by simp) fun _ => hunify

theorem alike_markDestructured (node : Option NodeId) (value : Expr) (otherwise : Tag) :
    Alike N.Rewords (markDestructured node value otherwise)
      (markDestructured node (value.rename f) otherwise) := by
  cases node <;> simp [markDestructured, value.id_rename h.node]

omit h

mutual

theorem alike_assign (h : env.Counterpart P f N env') (node : Option NodeId) (value : Expr) :
    (target : Pattern) → (∀ i ∈ target.idents, P i) →
    Alike N.Rewords (assign env node value target)
      (assign env' node (value.rename f) (target.rename f))
  | .ident i, hP => by
    rw [Pattern.rename, assign, assign, value.node_rename h.node, arrayElements?_rename]
    exact alike_assignIdent h node value.node _ (hP i (by simp [Pattern.idents]))
  | .array _ targets, hP => by
    rw [Pattern.rename, assign, assign, arrayElements?_rename]
    refine .bind (alike_markDestructured h node value .array) fun _ => ?_
    have helements := alike_assignElements h ((arrayElements? value).getD []) targets hP
    cases hes : arrayElements? value <;> simpa [hes, Element.rename] using helements
  | .object _ props, hP => by
    rw [Pattern.rename, assign, assign, objectProps?_rename]
    refine .bind (alike_markDestructured h node value .object) fun _ => ?_
    have hprops := alike_assignProps h ((objectProps? value).getD []) props hP
    cases hps : objectProps? value <;> simpa [hps, Property.rename] using hprops
  | .withDefault _ target _, hP => by
    rw [Pattern.rename, assign, assign]
    exact alike_assign h node value target hP
  | .rest _ _, _ => by
    rw [Pattern.rename, assign, assign]
    exact .pure ()

theorem alike_assignElements (h : env.Counterpart P f N env') :
    (es : List Element) → (ps : List (Option Pattern)) →
    (∀ i ∈ Pattern.identsOfElements ps, P i) → Alike N.Rewords (assignElements env es ps)
      (assignElements env' (Element.rename f es) (Pattern.renameElements f ps))
  | [], _, _ => by
    simp only [Element.rename, assignElements]
    exact .pure ()
  | e :: es, [], _ => by
    simp [Element.rename_eq_map, Pattern.renameElements, assignElements]
  | .item e :: es, some p :: ps, hP => by
    rw [Element.rename, Pattern.renameElements, assignElements, assignElements]
    rw [Pattern.identsOfElements, List.forall_mem_append] at hP
    exact .bind (alike_assign h none e p hP.1) fun _ => alike_assignElements h es ps hP.2
  | .item e :: es, none :: ps, hP | .hole :: es, none :: ps, hP
  | .spread _ _ :: es, none :: ps, hP => by
    simp only [Element.rename, Pattern.renameElements, assignElements]
    exact alike_assignElements h es ps hP
  | .hole :: es, some p :: ps, hP | .spread _ _ :: es, some p :: ps, hP => by
    simp only [Element.rename, Pattern.renameElements, assignElements]
    rw [Pattern.identsOfElements, List.forall_mem_append] at hP
    exact alike_assignElements h es ps hP.2

theorem alike_assignProps (h : env.Counterpart P f N env') (source : List Property) :
    (ps : List PatternProp) → (∀ i ∈ PatternProp.identsOfProps ps, P i) →
    Alike N.Rewords (assignProps env source ps)
      (assignProps env' (Property.rename f source) (PatternProp.rename f ps))
  | [], _ => by
    rw [PatternProp.rename, assignProps, assignProps]
    exact .pure ()
  | .prop key p :: ps, hP => by
    rw [PatternProp.rename, assignProps, assignProps, Property.find?_rename]
    rw [PatternProp.identsOfProps, List.forall_mem_append] at hP
    cases Property.find? key source with
    | none => exact alike_assignProps h source ps hP.2
    | some e => exact .bind (alike_assign h none e p hP.1) fun _ => alike_assignProps h source ps hP.2
  | .rest p :: ps, hP => by
    rw [PatternProp.rename, assignProps, assignProps]
    rw [PatternProp.identsOfProps, List.forall_mem_append] at hP
    exact alike_assignProps h source ps hP.2

end

include h

theorem alike_declare {i : Ident} (hi : P i) :
    Alike N.Rewords (declare env i) (declare env' (f i)) := by
  simp only [declare, bindingOf?_eq h, h.node]
  cases hb : env.bindingOf? i with
  | none => exact .pure ()
  | some b =>
    have htype := alike_typeBinding (h.named i b hi hb) b (.inferred .undef) i.node.pos
    refine .bind (.look _) fun store => ?_
    split
    · exact .bind (by simp) fun _ => htype
    · exact htype

theorem alike_assignDefault (n : NodeId) {target : Pattern} (value : Expr)
    (hP : ∀ i ∈ target.idents, P i) : Alike N.Rewords (assignDefault env n target value)
      (assignDefault env' n (target.rename f) (value.rename f)) := by
  have hassign := alike_assign h (some n) value target hP
  simp only [assignDefault, target.asIdent?_rename, bind_bindingOf?_eq h, value.id_rename h.node]
  cases target.asIdent?.bind env.bindingOf? with
  | none => exact hassign
  | some b =>
    refine .bind (.look _) fun store => ?_
    split
    · exact .bind (by simp) fun _ => hassign
    · exact hassign

theorem alike_rest (n : NodeId) {argument : Pattern} (hP : ∀ i, argument.asIdent? = some i → P i) :
    Alike N.Rewords (rest env n argument) (rest env' n (argument.rename f)) := by
  simp only [rest, argument.asIdent?_rename]
  refine .bind (by simp) fun _ => ?_
  cases hi : argument.asIdent? with
  | none => exact .pure ()
  | some i =>
    simp only [Option.map_some, bindingOf?_eq h, h.node]
    cases hb : env.bindingOf? i with
    | none => simp
    | some b =>
      have htype := alike_typeBinding (h.named i b (hP i hi) hb) b (.inferred .array) i.node.pos
      simp [htype]

theorem ofName?_eq {i : Ident} (hi : P i) : Tag.ofName? (f i).name = Tag.ofName? i.name := by
  rcases h.plain i hi with hsame | ⟨hold, hnew⟩
  · rw [hsame]
  · rw [hold.1, hnew.1]

omit h in
theorem eq_none_of_isPlainName {name : String} (hname : IsPlainName name) :
    nativeResult? name = none ∧ globalTag? name = none := by
  simpa [isGlobalName] using hname.2

theorem globalTag?_eq {i : Ident} (hi : P i) : globalTag? (f i).name = globalTag? i.name := by
  rcases h.plain i hi with hsame | ⟨hold, hnew⟩
  · rw [hsame]
  · rw [(eq_none_of_isPlainName hold).2, (eq_none_of_isPlainName hnew).2]

theorem alike_readIdentifier {i : Ident} (hi : P i) (role : Role) :
    Alike N.Rewords (readIdentifier env i role) (readIdentifier env' (f i) role) := by
  have hlocal : env'.resolution.isLocalNonParam i.node.id =
      env.resolution.isLocalNonParam i.node.id := by
    rw [Resolution.isLocalNonParam, Resolution.isLocalNonParam, h.reference?]
  simp only [readIdentifier.eq_def, bindingOf?_eq h, globalTag?_eq h hi, h.node, hlocal]
  cases env.bindingOf? i with
  | none => cases globalTag? i.name <;> simp
  | some b =>
    refine .bind (.look _) fun ty? => ?_
    cases ty? <;> cases globalTag? i.name <;> simp

theorem alike_identifier {i : Ident} (hi : P i) (role : Role) :
    Alike N.Rewords (identifier env i role) (identifier env' (f i) role) := by
  have hread := alike_readIdentifier h hi
  simp only [identifier, ofName?_eq h hi]
  cases Tag.ofName? i.name with
  | some t => cases role <;> simp [tagIdentifier, h.node]
  | none =>
    cases role with
    | functionName n => exact alike_assignIdent h (some n.id) n none hi
    | _ => exact hread _

theorem alike_parametersFrom (id : FuncShapeId) (idx : Nat) (ps : List Pattern) :
    Alike N.Rewords (parametersFrom env id idx ps)
      (parametersFrom env' id idx (Pattern.renameList f ps)) := by
  induction ps generalizing idx with
  | nil => exact .pure ()
  | cons p ps ih =>
    simp only [Pattern.renameList, parametersFrom, p.id_rename h.node, p.simpleName?_rename,
      bind_bindingOf?_eq h]
    refine .bind (.look _) fun ty? => ?_
    cases ty? with
    | some ty => simp [ih]
    | none => cases p.simpleName?.bind env.bindingOf? <;> simp [ih]

theorem alike_parameters (ps : List Pattern) :
    Alike N.Rewords (parameters env ps) (parameters env' (Pattern.renameList f ps)) := by
  refine .bind (.look _) fun id? => ?_
  cases id? with
  | none => exact .pure ()
  | some id => exact alike_parametersFrom h id 0 ps

omit h in
theorem alike_settleResult (id : FuncShapeId) (result : Option NodeId) :
    Alike N.Rewords (settleResult id result) (settleResult id result) := by
  cases result <;> simp [settleResult]

omit h in
theorem alike_leaveFunction {pos : Position} {name name' : String}
    (hname : N.function pos name name') (result : Option NodeId) :
    Alike N.Rewords (leaveFunction pos name result) (leaveFunction pos name' result) := by
  refine .bind (.look _) fun id? => ?_
  cases id? with
  | none => exact .pure ()
  | some id =>
    refine .bind (alike_settleResult id result) fun _ => ?_
    simp [Naming.rewords_function hname]

theorem isSelfCall_rename (store : Store) (id : FuncShapeId) (e : Expr) :
    isSelfCall env' store id (e.rename f) = isSelfCall env store id e := by
  cases e with
  | call n callee args =>
    cases callee with
    | ident i => simp [isSelfCall, Expr.rename, bindingOf?_eq h]
    | template m t | tagged m tag t => cases t; rfl
    | _ => rfl
  | template m t | tagged m tag t => cases t; rfl
  | _ => rfl

omit h in
theorem alike_meetResult (id : FuncShapeId) (ty : Ty) (shape : Option Shape) (pos : Position) :
    Alike N.Rewords (meetResult id ty shape pos) (meetResult id ty shape pos) := by
  refine .bind (.look _) fun g? => ?_
  cases g? with
  | none => exact .pure ()
  | some g => simp

theorem alike_return (pos : Position) (argument : Option Expr) :
    Alike N.Rewords (return_ env pos argument)
      (return_ env' pos (Expr.renameOption f argument)) := by
  refine .bind (.look _) fun id? => ?_
  cases id? with
  | none => exact .pure ()
  | some id =>
    refine .bind (.look _) fun store => ?_
    cases argument with
    | none => simp [Expr.renameOption, alike_meetResult]
    | some e =>
      simp [Expr.renameOption, isSelfCall_rename h, e.id_rename h.node, e.pos_rename h.node,
        alike_meetResult]

theorem alike_calleeShape? (n : NodeId) {callee : Expr}
    (hP : ∀ i, callee.asIdent? = some i → P i) :
    Alike N.Rewords (calleeShape? env n callee) (calleeShape? env' n (callee.rename f)) := by
  cases callee with
  | ident i =>
    rcases h.plain i (hP i rfl) with hsame | ⟨hold, hnew⟩
    · simp only [Expr.rename, calleeShape?, hsame, bindingOf?_eq h]
      cases nativeResult? i.name <;> simp
    · simp [Expr.rename, calleeShape?, eq_none_of_isPlainName hold, eq_none_of_isPlainName hnew,
        bindingOf?_eq h]
  | function g =>
    obtain ⟨node, func, form, name, params, body⟩ := g
    simp [Expr.rename, Func.rename, calleeShape?]
  | template m t | tagged m tag t => cases t; exact .pure none
  | _ => exact .pure none

theorem alike_implyParam (id : FuncShapeId) (origin : FuncId) (idx : Nat) (ty : Ty)
    (shape : Option Shape) (pos : Position) :
    Alike N.Rewords (implyParam env id origin idx ty shape pos)
      (implyParam env' id origin idx ty shape pos) := by
  have hparam : (env'.resolution.function? origin).bind (·.params[idx]?) =
      ((env.resolution.function? origin).bind (·.params[idx]?)).map (Pattern.rename f) := by
    rw [h.function?]
    cases env.resolution.function? origin with
    | none => rfl
    | some g =>
      obtain ⟨node, func, form, name, params, body⟩ := g
      simp [Func.rename, Pattern.renameList_eq]
  simp only [implyParam, hparam]
  cases hfound : (env.resolution.function? origin).bind (·.params[idx]?) with
  | none => exact .pure ()
  | some p =>
    obtain ⟨g, hg, hp⟩ := Option.bind_eq_some_iff.1 hfound
    simp only [Option.map_some, Option.bind_some, Check.implied?_rename h.node]
    cases himplied : Parameter.implied? p with
    | none => exact .pure ()
    | some x =>
      obtain ⟨i, inner⟩ := x
      obtain ⟨hi, hold, hnew⟩ :=
        h.parameter origin g hg p (List.mem_of_getElem? hp) i inner himplied
      simp only [Option.map_some, bindingOf?_eq h]
      cases hb : env.bindingOf? i with
      | none => cases inner <;> simp
      | some b =>
        have hwords := Naming.rewords_parameter (h.named i b hi hb) hold hnew ty
        have hbrief := hwords ""
        rw [String.append_empty, String.append_empty] at hbrief
        cases inner <;> cases shape <;> simp [p.id_rename h.node, hwords, hbrief]

theorem alike_argument (id : FuncShapeId) (origin : Option FuncId) (idx : Nat) (param : Slot)
    (arg : Expr) : Alike N.Rewords (argument env id origin idx param arg)
      (argument env' id origin idx param (arg.rename f)) := by
  have himply (k : FuncId) := alike_implyParam h id k idx
  cases origin <;> simp [argument, arg.id_rename h.node, arg.pos_rename h.node, himply]

theorem alike_argumentsFrom (pos : Position) (id : FuncShapeId) (origin : Option FuncId) (idx : Nat)
    (args : List Element) (params : List Slot) :
    Alike N.Rewords (argumentsFrom env pos id origin idx args params)
      (argumentsFrom env' pos id origin idx (Element.rename f args) params) := by
  induction args generalizing idx params with
  | nil => simp [Element.rename, argumentsFrom]
  | cons arg args ih =>
    cases arg with
    | hole => simp [Element.rename, argumentsFrom]
    | spread n e => simp [Element.rename, argumentsFrom]
    | item e =>
      cases params with
      | nil => simp [Element.rename, argumentsFrom]
      | cons p ps =>
        simp only [Element.rename, argumentsFrom]
        exact .bind (alike_argument h id origin idx p e) fun _ => ih (idx + 1) ps

omit h in
theorem alike_argumentCount (pos : Position) (g : FuncShape) (args : List Element) :
    Alike N.Rewords (argumentCount pos g args) (argumentCount pos g (Element.rename f args)) := by
  simp [argumentCount, Element.length_rename, Element.any_isSpread_rename]

omit h in
theorem alike_callResult (n : NodeId) (id : FuncShapeId) (ret : ReturnSlot) (selfTail : Bool) :
    Alike N.Rewords (callResult n id ret selfTail) (callResult n id ret selfTail) := by
  simp [callResult]

theorem alike_call (n : Node) {callee : Expr} (args : List Element) (tail : Bool)
    (hP : ∀ i, callee.asIdent? = some i → P i) :
    Alike N.Rewords (call env n callee args tail)
      (call env' n (callee.rename f) (Element.rename f args) tail) := by
  refine .bind (.look _) fun store => .bind (.look _) fun frame => ?_
  have hself (id : FuncShapeId) : isSelfCall env' store id
      (.call n (callee.rename f) (Element.rename f args)) =
        isSelfCall env store id (.call n callee args) :=
    isSelfCall_rename h store id (.call n callee args)
  simp only [hself]
  refine .bind (alike_calleeShape? h n.id hP) fun id? => ?_
  cases id? with
  | none =>
    simp only [callee.asIdent?_rename]
    cases hi : callee.asIdent? with
    | none => exact .pure ()
    | some i =>
      simp only [Option.map_some, bindingOf?_eq h]
      cases env.bindingOf? i <;> simp
  | some id =>
    refine .bind (.look _) fun g? => ?_
    cases g? with
    | none => exact .pure ()
    | some g =>
      refine .bind (alike_callResult n.id id g.ret _) fun _ => ?_
      refine .bind (alike_argumentCount n.pos g args) fun _ => ?_
      exact alike_argumentsFrom h n.pos id g.origin 0 args g.params

end
end Check

/-- A visit and its counterpart do the same, but for the names in reports. -/
theorem Visit.Follows.alike {P : Ident → Prop} {f : Ident → Ident} {N : Naming}
    {env env' : CheckEnv} {v v' : Visit} (hv : v.Follows P f v')
    (h : env.Counterpart P f N env')
    (hleave : ∀ pos name name' result result', v = .leaveFunction pos name result →
      v' = .leaveFunction pos name' result' → N.function pos name name') :
    Check.Alike N.Rewords (v.apply env) (v'.apply env') := by
  cases hv with
  | leave pos name name' result =>
    exact Check.alike_leaveFunction (hleave pos name name' result result rfl rfl) result
  | rename hsuits =>
    cases v with
    | infer n t => exact .put (.same _ (by simp))
    | identifier i role => exact Check.alike_identifier h hsuits role
    | enterFunction n k => exact Check.alike_enterFunction n k
    | parameters params => exact Check.alike_parameters h params
    | leaveFunction pos name result =>
      exact Check.alike_leaveFunction (hleave pos name name result result rfl rfl) result
    | return_ pos argument => exact Check.alike_return h pos argument
    | condition code label n => exact Check.alike_condition hsuits label n
    | declare i => exact Check.alike_declare h hsuits
    | assign n value target => exact Check.alike_assign h n value target hsuits
    | assignDefault n target value => exact Check.alike_assignDefault h n value hsuits
    | rest n argument => exact Check.alike_rest h n hsuits
    | spread pos argument expected => exact Check.alike_spread pos argument expected
    | arrayLiteral n elements => exact Check.alike_arrayLiteral h n elements
    | unary n op argument => exact Check.alike_unary n op argument
    | update n op argument => exact Check.alike_update n op argument
    | binary n op left right => exact Check.alike_binary h.strictEquality n op left right
    | select n a b => exact Check.alike_select n a b
    | inherit n source => exact Check.alike_inherit n source
    | call n callee args tail => exact Check.alike_call h n args tail hsuits
    | annotate n text outer => exact Check.alike_annotate n text outer
    | template n tag label quasi chained => exact Check.alike_template h n tag label quasi chained

end TagCheck
