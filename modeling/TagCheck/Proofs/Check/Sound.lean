import TagCheck.Check.Run
import TagCheck.Proofs.Check.Logic
import TagCheck.Proofs.Check.Writes

/-! What the rules owe at each write, said of the store that the write meets, and the rules for
operators, literals and templates, which owe little: they write to their own nodes and report. -/
namespace TagCheck

@[simp] theorem Tag.isKnown_iff {t : Tag} : t.isKnown = true ↔ t ≠ .unknown := by
  simp [Tag.isKnown]

namespace Ty

@[simp] theorem isKnown_inferred (t : Tag) : (inferred t).isKnown = t.isKnown := rfl

@[simp] theorem isKnown_tagged (t : Tag) : (tagged t).isKnown = t.isKnown := rfl

@[simp] theorem isKnown_derived (t : Tag) (b : Bool) : (derived t b).isKnown = t.isKnown := by
  cases b <;> rfl

end Ty

structure Slot.Keeps (p q : Slot) : Prop where
  ty : p.ty.isKnown = true → q.ty.isKnown = true
  shape : p.shape.isSome = true → q.shape.isSome = true

structure FuncShape.Keeps (f g : FuncShape) : Prop where
  length_le : f.params.length ≤ g.params.length
  params (i : Nat) (p q : Slot) : f.params[i]? = some p → g.params[i]? = some q → p.Keeps q
  rest : f.hasRest = true → g.hasRest = true
  result : f.ret.shape.isSome = true → g.ret.shape.isSome = true

namespace FuncShape

theorem Keeps.refl (f : FuncShape) : f.Keeps f where
  length_le := Nat.le_refl _
  params i p q hp hq := by
    obtain rfl : p = q := Option.some.inj (hp.symm.trans hq)
    exact ⟨id, id⟩
  rest := id
  result := id

theorem keeps_ret {f : FuncShape} {r : ReturnSlot}
    (h : f.ret.shape.isSome = true → r.shape.isSome = true) : f.Keeps { f with ret := r } :=
  { Keeps.refl f with result := h }

theorem keeps_hasRest (f : FuncShape) : f.Keeps { f with hasRest := true } :=
  { Keeps.refl f with rest := fun _ => rfl }

/-- The parameters after the last one are new. -/
theorem keeps_append (f : FuncShape) (p : Slot) : f.Keeps { f with params := f.params ++ [p] } where
  length_le := by simp
  params i p q hp hq := by
    obtain ⟨hi, -⟩ := List.getElem?_eq_some_iff.1 hp
    rw [List.getElem?_append_left hi, hp] at hq
    obtain rfl := Option.some.inj hq
    exact ⟨id, id⟩
  rest := id
  result := id

theorem keeps_modify (f : FuncShape) (idx : Nat) {write : Slot → Slot}
    (h : ∀ p : Slot, p.Keeps (write p)) :
    f.Keeps { f with params := f.params.modify idx write } where
  length_le := by simp
  params i p q hp hq := by
    rw [List.getElem?_modify, hp] at hq
    split at hq
    · obtain rfl := Option.some.inj hq
      exact h p
    · obtain rfl := Option.some.inj hq
      exact ⟨id, id⟩
  rest := id
  result := id

theorem isSome_orElse {x y : Option Shape} (h : y.isSome = true) : (x <|> y).isSome = true := by
  cases x
  · simpa using h
  · rfl

theorem keeps_setParam (f : FuncShape) (idx : Nat) {ty : Ty} (shape : Option Shape)
    (h : ty.isKnown = true) : f.Keeps (f.setParam idx ty shape) := by
  unfold setParam
  split
  · refine keeps_modify f idx fun p => ⟨fun hp => ?_, isSome_orElse⟩
    split
    · exact hp
    · exact h
  · exact keeps_append f _

theorem keeps_implyParam (f : FuncShape) (idx : Nat) {ty : Ty} (shape : Option Shape)
    (h : ty.isKnown = true) : f.Keeps (f.implyParam idx ty shape) :=
  keeps_modify f idx fun _ => ⟨fun _ => h, isSome_orElse⟩

end FuncShape

namespace Store

/-- Nothing is known of it: of a binding no type, of a function no result in this pass. -/
def isUnknown (s : Store) : Tracked → Bool
  | .binding b => s.isUntyped (.binding b)
  | .ret id => (s.arena.get? id).all fun f => f.ret.isDefault || !f.ret.ty.isKnown

def NodesKnown (s : Store) : Prop := ∀ n ty, s.ty? (.node n) = some ty → ty.isKnown = true

end Store

/-- What the rules owe: bindings get known types only, a type gives way only if it is `undef` and of
this pass, notes are true, and function shapes keep what is known. -/
def Write.Sound (env : CheckEnv) (s : Store) : Write → Prop
  | .type (.node _) ty => s.NodesKnown → ty.isKnown = true
  | .type (.binding _) ty => ty.isKnown = true
  | .reimply b ty => s.hasTypeThisPass (.binding b) = true ∧ s.tag (.binding b) = .undef ∧
      ty.isKnown = true ∧ ty.tag ≠ .undef
  | .touch (.binding b) => s.isUntyped (.binding b) = true
  | .touch (.ret _) => False
  | .known (.binding b) => (∃ i, env.bindingOf? i = some b) ∧
      (s.Has (.binding b) → s.isUntyped (.binding b) = false)
  | .func _ f => ∀ g : FuncShape, g.Keeps (f g)
  | _ => True

/-- A sound write leaves a typed binding typed. -/
theorem Write.Sound.isUntyped_onStore {env : CheckEnv} {w : Write} {s : Store} {b : BindingId}
    (h : w.Sound env s)
    (hb : s.isUntyped (.binding b) = false) : (w.onStore s).isUntyped (.binding b) = false := by
  rcases w.ty_cell_onStore s (.binding b) with hty | ⟨ty, rfl, -, hty⟩ | ⟨b', ty, rfl, -, hty⟩
  · rw [Store.isUntyped_eq_false_iff] at hb ⊢
    rwa [hty]
  · exact Store.isUntyped_eq_false_iff.2 ⟨_, hty, h⟩
  · exact Store.isUntyped_eq_false_iff.2 ⟨_, hty, h.2.2.1⟩

namespace Check

def sound (env : CheckEnv) (s : CheckState) (w : Write) : Prop := w.Sound env s.store

def IsSound (env : CheckEnv) (m : Check α) : Prop := ∀ s, m.Ensures (sound env) (fun _ _ => True) s

variable {env : CheckEnv}

theorem isSound_pure (a : α) : (pure a : Check α).IsSound env := fun _ => trivial

theorem isSound_bind {m : Check α} {f : α → Check β} (hm : m.IsSound env)
    (hf : ∀ a, (f a).IsSound env) : (m >>= f).IsSound env :=
  fun s => ensures_bind.2 ((hm s).imp fun a s' _ => hf a s')

/-- A look at the state writes nothing. -/
theorem isSound_look {f : Store → List FuncShapeId → α} :
    (read fun store frames => done (f store frames)).IsSound env :=
  fun _ => trivial

theorem isSound_forM {f : α → Check PUnit} {l : List α} (hf : ∀ a, (f a).IsSound env) :
    (l.forM f).IsSound env :=
  fun _ => ensures_forM (fun a _ s' _ => hf a s') trivial

/-- A binding that is typed before a rule with sound writes is typed after it. -/
theorem Ensures.typed {Q : α → CheckState → Prop} {m : Check α} {s : CheckState} {b : BindingId}
    (h : m.Ensures (sound env) Q s) (hb : s.store.isUntyped (.binding b) = false) :
    m.Ensures (sound env) (fun _ s' => s'.store.isUntyped (.binding b) = false) s := by
  have hinv := h.invariant (I := fun s => s.store.isUntyped (.binding b) = false) hb
    fun s' w hs' hw => by simpa using hw.isUntyped_onStore hs'
  exact hinv.mono (fun _ _ hG => hG.2) fun _ _ hQ => hQ.1

theorem isSound_markType_node (n : NodeId) {ty : Ty} (h : ty.isKnown = true) :
    (markType (.node n) ty).IsSound env := by
  intro s
  simp [sound, Write.Sound, h]

theorem isSound_report (severity : Severity) (code : Code) (message : String) (pos : Position) :
    (report severity code message pos).IsSound env := by
  intro s
  simp [sound, Write.Sound]

theorem isSound_mismatched (code : Code) (label : String) (expected found : Option Shape)
    (pos : Position) : (mismatched code label expected found pos).IsSound env :=
  isSound_bind isSound_look fun _ => isSound_bind isSound_look fun _ =>
    isSound_report _ _ _ _

/-! Operators and conditions. -/

theorem isSound_condition (code : Code) (label : String) (n : Node) :
    (condition code label n).IsSound env := by
  intro s
  simp [condition, sound, Write.Sound]

theorem isSound_checkNumericOperand (op : String) (argument : Node) :
    (checkNumericOperand op argument).IsSound env := by
  intro s
  simp [checkNumericOperand, sound, Write.Sound]

theorem isSound_unary (n : NodeId) (op : UnaryOp) (argument : Node) :
    (unary n op argument).IsSound env := by
  unfold unary
  split
  iterate 4 exact isSound_markType_node n rfl
  all_goals
    exact isSound_bind (isSound_markType_node n rfl) fun _ => isSound_checkNumericOperand _ argument

theorem isSound_update (n : NodeId) (op : UpdateOp) (argument : Node) :
    (update n op argument).IsSound env := by
  intro s
  cases hty : s.store.ty? (.node argument.id) with
  | none => simpa [update, hty] using isSound_checkNumericOperand op.text argument s
  | some ty =>
    simp only [update, ty?, ensures_bind, ensures_getStore, ensures_pure, hty, markType,
      ensures_put]
    refine ⟨fun hnodes => ?_, isSound_checkNumericOperand op.text argument _⟩
    split
    · exact hnodes argument.id ty hty
    · rfl

theorem isSound_rejectOperands (code : Code) (label expected : String) (accepts : Tag → Bool)
    (operands : List (Node × Tag)) :
    (rejectOperands code label expected accepts operands).IsSound env := by
  refine isSound_forM fun x s => ?_
  simp [sound, Write.Sound]

theorem isSound_modulus (n left right : Node) (l r : Ty) :
    (modulus n left right l r).IsSound env := by
  refine isSound_bind (isSound_markType_node _ (by simp)) fun _ => ?_
  split
  · exact isSound_pure ()
  · split
    · exact isSound_report _ _ _ _
    · exact isSound_rejectOperands _ _ _ _ _

theorem isSound_arithmetic (n : Node) (op : BinaryOp) (left right : Node) :
    (arithmetic n op left right).IsSound env := by
  refine isSound_bind isSound_look fun l => isSound_bind isSound_look fun r => ?_
  dsimp only
  split
  · exact isSound_markType_node _ (by simp)
  split
  · exact isSound_modulus n left right l r
  split
  · exact isSound_markType_node _ (by simp)
  · refine isSound_bind (isSound_markType_node _ rfl) fun _ => ?_
    exact isSound_rejectOperands _ _ _ _ _

theorem isSound_addition (n left right : Node) : (addition n left right).IsSound env := by
  refine isSound_bind isSound_look fun l => isSound_bind isSound_look fun r => ?_
  split
  · exact isSound_arithmetic n .add left right
  split
  · exact isSound_markType_node _ (by simp)
  · exact isSound_bind (isSound_markType_node _ rfl) fun _ => isSound_report _ _ _ _

theorem isSound_relational (n : Node) (op : BinaryOp) (left right : Node) :
    (relational n op left right).IsSound env := by
  refine isSound_bind isSound_look fun l => isSound_bind isSound_look fun r => ?_
  refine isSound_bind (isSound_markType_node _ rfl) fun _ => ?_
  split
  · intro s
    simp [sound, Write.Sound]
  split
  · intro s
    simp [sound, Write.Sound]
  · exact isSound_rejectOperands _ _ _ _ _

theorem isSound_looseEquality (n : Node) (op : BinaryOp) (left right : Node) :
    (looseEquality n op left right).IsSound env := by
  refine isSound_bind isSound_look fun l => isSound_bind isSound_look fun r => ?_
  refine isSound_bind (isSound_markType_node _ rfl) fun _ => ?_
  dsimp only
  split
  iterate 3 exact isSound_report _ _ _ _
  intro s
  simp [sound, Write.Sound]

theorem isSound_strictEquality (env : CheckEnv) (n : Node) (op : BinaryOp) (left right : Node) :
    (strictEquality env n op left right).IsSound env := by
  intro s
  simp [strictEquality, sound, Write.Sound]

theorem isSound_membership (n left right : Node) : (membership n left right).IsSound env := by
  intro s
  simp [membership, sound, Write.Sound]

theorem isSound_instanceOf (n left right : Node) : (instanceOf n left right).IsSound env := by
  intro s
  simp [instanceOf, sound, Write.Sound]

theorem isSound_binary (env : CheckEnv) (n : Node) (op : BinaryOp) (left right : Node) :
    (binary env n op left right).IsSound env := by
  cases op with
  | add => exact isSound_addition n left right
  | lt | le | gt | ge => exact isSound_relational n _ left right
  | eq | notEq => exact isSound_looseEquality n _ left right
  | strictEq | strictNotEq => exact isSound_strictEquality env n _ left right
  | in_ => exact isSound_membership n left right
  | instanceof => exact isSound_instanceOf n left right
  | _ => exact isSound_arithmetic n _ left right

theorem isSound_select (n a b : NodeId) : (select n a b).IsSound env := by
  refine isSound_bind isSound_look fun l => isSound_bind isSound_look fun r => ?_
  split
  · rename_i hagree
    refine isSound_markType_node _ ?_
    simp only [Tag.agrees, Bool.and_eq_true] at hagree
    simpa using hagree.1.1
  · exact isSound_pure ()

theorem isSound_inherit (n source : NodeId) : (inherit n source).IsSound env := by
  intro s
  cases hty : s.store.ty? (.node source) with
  | none => simp [inherit, hty]
  | some ty =>
    simp only [inherit, ty?, ensures_bind, ensures_getStore, ensures_pure, hty, markType,
      ensures_put]
    exact ⟨fun hnodes => hnodes source ty hty, trivial⟩

/-! Array literals and templates. -/

theorem isSound_arrayLiteral (n : Node) (es : List Element) : (arrayLiteral n es).IsSound env := by
  intro s
  simp [arrayLiteral, sound, Write.Sound]

theorem isSound_spread (pos : Position) (argument : NodeId) (expected : Tag) :
    (spread pos argument expected).IsSound env := by
  intro s
  simp [spread, sound, Write.Sound]

theorem isSound_annotate (n : Node) (text : String) (outer : Option NodeId) :
    (annotate n text outer).IsSound env := by
  intro s
  unfold annotate
  split
  · cases outer <;> simp [sound, Write.Sound]
  · exact isSound_report _ _ _ _ s

theorem isSound_interpolated (tag : Tag) (label : String) (shape : Option ArrayShape)
    (value : Expr) : (interpolated tag label shape value).IsSound env := by
  refine isSound_bind isSound_look fun found => ?_
  split
  · exact isSound_report _ _ _ _
  cases shape with
  | none => exact isSound_pure ()
  | some shape =>
    refine isSound_bind isSound_look fun store => ?_
    extract_lets ok
    split
    · exact isSound_pure ()
    · exact isSound_mismatched _ _ _ _ _

theorem isSound_contents (n : Node) (tag : Tag) (label : String) (quasi : Template)
    (shape : Option ArrayShape) : (contents n tag label quasi shape).IsSound env := by
  unfold contents
  split
  · split
    · exact isSound_report _ _ _ _
    · exact isSound_pure ()
  · dsimp only
    split
    · exact isSound_forM (isSound_interpolated tag label shape)
    split
    · exact isSound_report _ _ _ _
    · exact isSound_pure ()

theorem isSound_template (n : Node) (tag : Tag) (label : String) (quasi : Template)
    (chained : Bool) : (template n tag label quasi chained).IsSound env := by
  intro s
  cases chained with
  | false => simpa [template] using isSound_contents n tag label quasi none s
  | true =>
    cases hshape : (s.store.shape? (.node n.id)).bind Shape.asArray? with
    | none => simp [template, hshape]
    | some shape => simpa [template, hshape] using isSound_contents n tag label quasi (some shape) s

end Check
end TagCheck
