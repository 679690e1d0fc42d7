import TagCheck.Proofs.Check.Permits
import TagCheck.Proofs.Check.Provenance
import TagCheck.Proofs.Program.Nodes

/-! What most rules leave alone. Only a function that is entered or left changes which functions are
open, and apart from the types and shapes of parameters a function shape changes only while its
function is the innermost one. A rule writes to the nodes and bindings that its visit is about, and
marks as the rest of the parameters only the patterns that take it. -/
namespace TagCheck

theorem Pattern.identsOfElements_subset (p : Option Pattern) (ps : List (Option Pattern)) :
    Pattern.identsOfElements ps ⊆ Pattern.identsOfElements (p :: ps) := by
  intro i hi
  cases p <;> simp [Pattern.identsOfElements, hi]

def Code.isReturn (c : Code) : Bool := c == .returnType || c == .returnShape

/-- Apart from the types and the shapes of the parameters the two are the same. -/
structure FuncShape.Agrees (f g : FuncShape) : Prop where
  length : g.params.length = f.params.length
  hasRest : g.hasRest = f.hasRest
  ret : g.ret = f.ret
  origin : g.origin = f.origin

namespace FuncShape.Agrees

variable {f g h : FuncShape}

theorem refl (f : FuncShape) : f.Agrees f := ⟨rfl, rfl, rfl, rfl⟩

theorem trans (hfg : f.Agrees g) (hgh : g.Agrees h) : f.Agrees h where
  length := hgh.length.trans hfg.length
  hasRest := hgh.hasRest.trans hfg.hasRest
  ret := hgh.ret.trans hfg.ret
  origin := hgh.origin.trans hfg.origin

theorem implyParam (f : FuncShape) (idx : Nat) (ty : Ty) (shape : Option Shape) :
    f.Agrees (f.implyParam idx ty shape) where
  length := by simp [FuncShape.implyParam]
  hasRest := rfl
  ret := rfl
  origin := rfl

end FuncShape.Agrees

/-- A `return` as it is written: where it stands, and what it returns. -/
abbrev Return := Position × Option Expr

structure FuncShape.SameParams (f g : FuncShape) : Prop where
  params : g.params = f.params
  hasRest : g.hasRest = f.hasRest

/-- A parameter to which an argument can give a type, and the name in it. -/
def CheckEnv.ImpliesAt (env : CheckEnv) (param : Pattern) (i : Ident) : Prop :=
  ∃ origin f inner, env.resolution.function? origin = some f ∧ param ∈ f.params ∧
    Check.Parameter.implied? param = some (i, inner)

section

variable (C : Prop) (P : NodeId → Prop)

/-- The nodes for which `P` holds are not marked as the rest, and the others only so. -/
def Ty.Suits (n : NodeId) (ty : Ty) : Prop :=
  (P n → ty.isRest = false) ∧ (¬ P n → ty = (Ty.inferred .array).rest)

/-- The types in the store tell the nodes for which `P` holds from the others. -/
structure Store.Tells (s : Store) : Prop where
  node (n : NodeId) : ∀ ty ∈ s.ty? (.node n), ty.Suits P n
  binding (b : BindingId) : ∀ ty ∈ s.ty? (.binding b), ty.isRest = false
  result (id : FuncShapeId) : ∀ f ∈ s.arena.get? id, f.ret.ty.isRest = false

/-- A write that keeps the store so, and a function shape that of its function. -/
def Write.Steady : Write → Prop
  | type (.node n) ty => ty.Suits P n
  | type (.binding _) ty | reimply _ ty => ty.isRest = false
  | func _ f => ∀ g : FuncShape, (f g).origin = g.origin ∧
      (g.ret.ty.isRest = false → (f g).ret.ty.isRest = false)
  | shape _ _ | forceShape _ _ | touch _ | known _ | function _ | native _ _ | report _ _ _ _
  | enter _ | leave => True

/-- How a rule may write: to the bindings `B`, to function shapes as `own` says or so that only
parameters change, and to nodes that keep what `C` and `P` say of types. -/
def Write.Ordinary (B : BindingId → Prop) (own : FuncShapeId → FuncShape → FuncShape → Prop)
    (R : Prop) : Write → Prop
  | type (.node n) ty => (C ∨ P n) ∧ (C → ty.Suits P n)
  | type (.binding b) ty | reimply b ty => B b ∧ (C → ty.isRest = false)
  | shape (.node n) _ | forceShape n _ => C ∨ P n
  | shape (.binding b) _ => B b
  | func id f => ∀ g : FuncShape, ((f g).origin = g.origin ∧
      (C → g.ret.ty.isRest = false → (f g).ret.ty.isRest = false)) ∧
      (g.Agrees (f g) ∨ own id g (f g))
  | report _ code _ _ => code.isReturn = true → R
  | touch _ | known _ | native _ _ => True
  | function _ | enter _ | leave => False

def SyntaxNode.Draws (ns : List SyntaxNode) : Prop := ∀ e, SyntaxNode.expr e ∈ ns → P e.id

def Role.Regular : Role → Prop
  | templateTag n => P n
  | functionName n => P n.id
  | plain | defaultValue | defaultTarget => True

/-- A visit takes types from and gives them to nodes for which `P` holds. The patterns that take the
rest are the others. -/
def Visit.Regular : Visit → Prop
  | infer n _ | enterFunction n _ | unary n _ _ | select n _ _ => P n
  | identifier i role => P i.node.id ∧ role.Regular P
  | leaveFunction _ _ result => ∀ n ∈ result, P n
  | return_ _ argument => ∀ e ∈ argument, P e.id
  | assign n value target =>
    (∀ k ∈ n, P k) ∧ SyntaxNode.Draws P value.nodes ∧ ∀ i ∈ target.idents, P i.node.id
  | assignDefault n target value =>
    P n ∧ SyntaxNode.Draws P value.nodes ∧ ∀ i ∈ target.idents, P i.node.id
  | rest n _ => ¬ P n
  | arrayLiteral n _ | binary n _ _ _ => P n.id
  | update n _ argument => P n ∧ P argument.id
  | inherit n source => P n ∧ P source
  | call n _ args _ => P n.id ∧ SyntaxNode.Draws P (Element.nodes args)
  | condition code _ _ => code.isReturn = false
  | parameters _ | declare _ | spread _ _ _ | annotate _ _ _ | template _ _ _ _ _ => True

end

def Visit.Binds (env : CheckEnv) (b : BindingId) : Visit → Prop
  | identifier i (.functionName _) | declare i => env.bindingOf? i = some b
  | assign _ _ target | assignDefault _ target _ =>
    ∃ i ∈ target.idents, env.bindingOf? i = some b
  | rest _ argument => ∃ i ∈ argument.asIdent?, env.bindingOf? i = some b
  | call _ _ _ _ => ∃ param i, env.ImpliesAt param i ∧ env.bindingOf? i = some b
  | identifier _ _ | infer _ _ | enterFunction _ _ | parameters _ | leaveFunction _ _ _
  | return_ _ _ | condition _ _ _ | spread _ _ _ | arrayLiteral _ _ | unary _ _ _ | update _ _ _
  | binary _ _ _ _ | select _ _ _ | inherit _ _ | annotate _ _ _ | template _ _ _ _ _ => False

variable {C : Prop} {P : NodeId → Prop} {B : BindingId → Prop}
  {own : FuncShapeId → FuncShape → FuncShape → Prop} {R : Prop}

namespace Ty

theorem Suits.isRest {n : NodeId} {ty : Ty} (h : ty.Suits P n) (hn : P n) : ty.isRest = false :=
  h.1 hn

theorem suits_of_isRest {n : NodeId} {ty : Ty} (hn : P n) (h : ty.isRest = false) :
    ty.Suits P n :=
  ⟨fun _ => h, fun hnot => absurd hn hnot⟩

@[simp] theorem isRest_inferred (t : Tag) : (inferred t).isRest = false := rfl

@[simp] theorem isRest_derived (t : Tag) (b : Bool) : (derived t b).isRest = false := by
  cases b <;> rfl

end Ty

namespace SyntaxNode

@[simp] theorem draws_append {ns ns' : List SyntaxNode} :
    Draws P (ns ++ ns') ↔ Draws P ns ∧ Draws P ns' := by
  simp only [Draws, List.mem_append, or_imp, forall_and]

theorem Draws.mono {ns ns' : List SyntaxNode} (h : Draws P ns') (hns : ns ⊆ ns') : Draws P ns :=
  fun e he => h e (hns he)

end SyntaxNode

theorem Expr.of_draws {e : Expr} (h : SyntaxNode.Draws P e.nodes) : P e.id := h e e.mem_nodes

theorem Write.Ordinary.steady {w : Write} (h : w.Ordinary C P B own R) (hC : C) :
    w.Steady P := by
  cases w with
  | type t ty =>
    cases t with
    | node n => exact h.2 hC
    | binding b => exact h.2 hC
  | reimply b ty => exact h.2 hC
  | func id f => exact fun g => ⟨(h g).1.1, (h g).1.2 hC⟩
  | _ => trivial

namespace Store.Tells

variable {s : Store}

theorem ty? (h : s.Tells P) {n : NodeId} (hn : P n) : ∀ ty ∈ s.ty? (.node n), ty.isRest = false :=
  fun ty hty => (h.node n ty hty).isRest hn

theorem onStore (h : s.Tells P) {w : Write} (hw : w.Steady P) :
    (w.onStore s).Tells P where
  node n ty hty := by
    rw [Option.mem_def, Store.ty?] at hty
    rcases w.ty_cell_onStore s (.node n) with hkeep | ⟨ty', rfl, -, hnew⟩ | ⟨b, ty', -, hb, -⟩
    · exact h.node n ty (by rwa [hkeep] at hty)
    · rw [hnew] at hty
      obtain rfl : ty' = ty := Option.some.inj hty
      exact hw
    · cases hb
  binding b ty hty := by
    rw [Option.mem_def, Store.ty?] at hty
    rcases w.ty_cell_onStore s (.binding b) with
      hkeep | ⟨ty', rfl, -, hnew⟩ | ⟨b', ty', rfl, -, hnew⟩
    · exact h.binding b ty (by rwa [hkeep] at hty)
    · rw [hnew] at hty
      obtain rfl : ty' = ty := Option.some.inj hty
      exact hw
    · rw [hnew] at hty
      obtain rfl : ty' = ty := Option.some.inj hty
      exact hw
  result id f hf := by
    rcases Write.of_get?_onStore hf with hf | ⟨g, k, rfl, hk, rfl⟩ | ⟨k, rfl⟩ | ⟨result, rfl⟩
    · exact h.result id f hf
    · exact (hw k).2 (h.result id k hk)
    · rfl
    · rfl

end Store.Tells

namespace Check

/-- From a store that tells the nodes apart, a rule writes only as it may. -/
def Ordinary (C : Prop) (P : NodeId → Prop) (B : BindingId → Prop)
    (own : FuncShapeId → FuncShape → FuncShape → Prop) (R : Prop) (m : Check α) : Prop :=
  ∀ s, (C → s.store.Tells P) → m.Ensures (fun _ w => w.Ordinary C P B own R) (fun _ _ => True) s

theorem Ordinary.ensures {m : Check α} (h : m.Ordinary C P B own R) {s : CheckState}
    (hs : C → s.store.Tells P) :
    m.Ensures (fun s w => (C → s.store.Tells P) ∧ w.Ordinary C P B own R)
      (fun _ s => C → s.store.Tells P) s := by
  refine ((h s hs).invariant hs fun s w hs hw hC => ?_).imp fun _ _ h => h.1
  rw [Write.store_apply]
  exact (hs hC).onStore (hw.steady hC)

section

/-! The steps of a rule. -/

theorem ordinary_pure (a : α) : (pure a : Check α).Ordinary C P B own R := fun _ _ => trivial

theorem ordinary_bind {m : Check α} {f : α → Check β} (hm : m.Ordinary C P B own R)
    (hf : ∀ a, (f a).Ordinary C P B own R) : (m >>= f).Ordinary C P B own R := by
  intro s hs
  have hfirst := hm.ensures hs
  exact ensures_bind.2 (hfirst.mono (fun _ _ h => h.2) fun a s hs => hf a s hs)

theorem ordinary_look {f : Store → List FuncShapeId → α} :
    (read fun store frames => done (f store frames)).Ordinary C P B own R :=
  fun _ _ => trivial

theorem ordinary_ty? {n : NodeId} (hn : C → P n) {f : Option Ty → Check α}
    (hf : ∀ x, (∀ ty ∈ x, C → ty.isRest = false) → (f x).Ordinary C P B own R) :
    (ty? (.node n) >>= f).Ordinary C P B own R :=
  fun s hs => ensures_bind.2 (hf _ (fun ty hty hC => (hs hC).ty? (hn hC) ty hty) s hs)

theorem ordinary_knownType? {n : NodeId} (hn : C → P n) {f : Option Ty → Check α}
    (hf : ∀ x, (∀ ty ∈ x, C → ty.isRest = false) → (f x).Ordinary C P B own R) :
    (knownType? (.node n) >>= f).Ordinary C P B own R := by
  refine fun s hs => ensures_bind.2 (hf _ (fun ty hty hC => ?_) s hs)
  exact (hs hC).ty? (hn hC) ty (Option.filter_eq_some_iff.1 hty).1

theorem ordinary_tyOf {n : NodeId} (hn : C → P n) {f : Ty → Check α}
    (hf : ∀ ty, (C → ty.isRest = false) → (f ty).Ordinary C P B own R) :
    (tyOf n >>= f).Ordinary C P B own R := by
  intro s hs
  refine ensures_bind.2 (hf _ (fun hC => ?_) s hs)
  cases hty : s.store.ty? (.node n) with
  | none => rfl
  | some ty => exact (hs hC).ty? (hn hC) ty hty

theorem ordinary_func? {id : FuncShapeId} {f : Option FuncShape → Check α}
    (hf : ∀ x, (∀ g ∈ x, C → g.ret.ty.isRest = false) → (f x).Ordinary C P B own R) :
    (func? id >>= f).Ordinary C P B own R :=
  fun s hs => ensures_bind.2 (hf _ (fun g hg hC => (hs hC).result id g hg) s hs)

theorem ordinary_put {w : Write} (h : w.Ordinary C P B own R) : (put w).Ordinary C P B own R :=
  fun _ _ => ⟨h, trivial⟩

theorem ordinary_forM {f : α → Check PUnit} {l : List α} (hf : ∀ a, (f a).Ordinary C P B own R) :
    (l.forM f).Ordinary C P B own R := by
  induction l with
  | nil => exact ordinary_pure _
  | cons a l ih => exact ordinary_bind (hf a) fun _ => ih

theorem ordinary_markType {n : NodeId} (hn : P n) {ty : Ty} (hty : C → ty.isRest = false) :
    (markType (.node n) ty).Ordinary C P B own R :=
  ordinary_put ⟨.inr hn, fun hC => Ty.suits_of_isRest hn (hty hC)⟩

theorem ordinary_markShape {n : NodeId} (hn : C ∨ P n) (x : Option Shape) :
    (markShape (.node n) x).Ordinary C P B own R := ordinary_put hn

theorem ordinary_touch (x : Tracked) : (touch x).Ordinary C P B own R := ordinary_put trivial

theorem ordinary_markKnown (x : Tracked) : (markKnown x).Ordinary C P B own R := ordinary_put trivial

theorem ordinary_report (severity : Severity) {code : Code} (message : String) (pos : Position)
    (hcode : code.isReturn = false) : (report severity code message pos).Ordinary C P B own R :=
  ordinary_put fun h => absurd h (by simp [hcode])

theorem ordinary_mismatched {code : Code} (label : String) (expected found : Option Shape)
    (pos : Position) (hcode : code.isReturn = false) :
    (mismatched code label expected found pos).Ordinary C P B own R :=
  ordinary_bind ordinary_look fun _ => ordinary_bind ordinary_look fun _ =>
    ordinary_report _ _ _ hcode

end

/-! Operators and conditions. -/

theorem ordinary_condition {code : Code} (hcode : code.isReturn = false) (label : String)
    (n : Node) : (condition code label n).Ordinary C P B own R := by
  intro s _
  simp [condition, Write.Ordinary, hcode]

theorem ordinary_checkNumericOperand (op : String) (argument : Node) :
    (checkNumericOperand op argument).Ordinary C P B own R := by
  intro s _
  simp [checkNumericOperand, Write.Ordinary, Code.isReturn]

theorem ordinary_unary {n : NodeId} (hn : P n) (op : UnaryOp) (argument : Node) :
    (unary n op argument).Ordinary C P B own R := by
  unfold unary
  split
  iterate 4 exact ordinary_markType hn fun _ => rfl
  all_goals
    exact ordinary_bind (ordinary_markType hn fun _ => rfl) fun _ =>
      ordinary_checkNumericOperand _ argument

theorem ordinary_update {n : NodeId} (hn : P n) (op : UpdateOp) {argument : Node}
    (hargument : C → P argument.id) : (update n op argument).Ordinary C P B own R := by
  refine ordinary_ty? hargument fun ty? hty => ?_
  split
  · next ty =>
    have hty (hC : C) : (if ty.tag.isNumberLike then ty else .inferred .number).isRest = false := by
      split
      · exact hty ty rfl hC
      · rfl
    exact ordinary_bind (ordinary_markType hn hty) fun _ => ordinary_checkNumericOperand _ argument
  · exact ordinary_checkNumericOperand _ argument

theorem ordinary_rejectOperands {code : Code} (hcode : code.isReturn = false)
    (label expected : String) (accepts : Tag → Bool) (operands : List (Node × Tag)) :
    (rejectOperands code label expected accepts operands).Ordinary C P B own R := by
  refine ordinary_forM fun x s _ => ?_
  simp [Write.Ordinary, hcode]

theorem ordinary_arithmetic {n : Node} (hn : P n.id) (op : BinaryOp) (left right : Node) :
    (arithmetic n op left right).Ordinary C P B own R := by
  refine ordinary_bind ordinary_look fun l => ordinary_bind ordinary_look fun r => ?_
  dsimp only
  split
  · exact ordinary_markType hn (by simp)
  split
  · refine ordinary_bind (ordinary_markType hn (by simp)) fun _ => ?_
    split
    · exact ordinary_pure _
    split
    · exact ordinary_report _ _ _ rfl
    · exact ordinary_rejectOperands rfl _ _ _ _
  split
  · exact ordinary_markType hn (by simp)
  · exact ordinary_bind (ordinary_markType hn fun _ => rfl) fun _ =>
      ordinary_rejectOperands rfl _ _ _ _

theorem ordinary_addition {n : Node} (hn : P n.id) (left right : Node) :
    (addition n left right).Ordinary C P B own R := by
  refine ordinary_bind ordinary_look fun l => ordinary_bind ordinary_look fun r => ?_
  split
  · exact ordinary_arithmetic hn .add left right
  split
  · exact ordinary_markType hn (by simp)
  · exact ordinary_bind (ordinary_markType hn fun _ => rfl) fun _ => ordinary_report _ _ _ rfl

theorem ordinary_relational {n : Node} (hn : P n.id) (op : BinaryOp) (left right : Node) :
    (relational n op left right).Ordinary C P B own R := by
  refine ordinary_bind ordinary_look fun l => ordinary_bind ordinary_look fun r => ?_
  refine ordinary_bind (ordinary_markType hn fun _ => rfl) fun _ => ?_
  split
  · intro s _
    simp [Write.Ordinary, Code.isReturn]
  split
  · intro s _
    simp [Write.Ordinary, Code.isReturn]
  · exact ordinary_rejectOperands rfl _ _ _ _

theorem ordinary_looseEquality {n : Node} (hn : P n.id) (op : BinaryOp) (left right : Node) :
    (looseEquality n op left right).Ordinary C P B own R := by
  refine ordinary_bind ordinary_look fun l => ordinary_bind ordinary_look fun r => ?_
  refine ordinary_bind (ordinary_markType hn fun _ => rfl) fun _ => ?_
  dsimp only
  split
  iterate 3 exact ordinary_report _ _ _ rfl
  intro s _
  simp [Write.Ordinary, Code.isReturn]

theorem ordinary_binary {n : Node} (hn : P n.id) (env : CheckEnv) (op : BinaryOp)
    (left right : Node) : (binary env n op left right).Ordinary C P B own R := by
  have htype := Ty.suits_of_isRest hn (Ty.isRest_inferred .bool)
  cases op with
  | add => exact ordinary_addition hn left right
  | lt | le | gt | ge => exact ordinary_relational hn _ left right
  | eq | notEq => exact ordinary_looseEquality hn _ left right
  | strictEq | strictNotEq =>
    intro s _
    simp [binary, strictEquality, Write.Ordinary, Code.isReturn, htype, hn]
  | in_ =>
    intro s _
    simp [binary, membership, Write.Ordinary, Code.isReturn, htype, hn]
  | instanceof =>
    intro s _
    simp [binary, instanceOf, Write.Ordinary, Code.isReturn, htype, hn]
  | _ => exact ordinary_arithmetic hn _ left right

theorem ordinary_select {n : NodeId} (hn : P n) (a b : NodeId) :
    (select n a b).Ordinary C P B own R := by
  refine ordinary_bind ordinary_look fun l => ordinary_bind ordinary_look fun r => ?_
  split
  · exact ordinary_markType hn (by simp)
  · exact ordinary_pure ()

theorem ordinary_inherit {n source : NodeId} (hn : P n) (hsource : C → P source) :
    (inherit n source).Ordinary C P B own R := by
  refine ordinary_ty? hsource fun ty? hty => ?_
  split
  · exact ordinary_markType hn (hty _ rfl)
  · exact ordinary_pure ()

/-! Array literals and templates. -/

theorem ordinary_arrayLiteral {n : Node} (hn : P n.id) (es : List Element) :
    (arrayLiteral n es).Ordinary C P B own R := by
  refine ordinary_bind (ordinary_markType hn fun _ => rfl) fun _ => ?_
  refine ordinary_bind ordinary_look fun store => ?_
  exact ordinary_bind (ordinary_report _ _ _ rfl) fun _ => ordinary_put (.inr hn)

theorem ordinary_spread (pos : Position) (argument : NodeId) (expected : Tag) :
    (spread pos argument expected).Ordinary C P B own R := by
  intro s _
  simp [spread, Write.Ordinary, Code.isReturn]

theorem ordinary_annotate {n : Node} (hn : C ∨ P n.id) (text : String) {outer : Option NodeId}
    (houter : ∀ m ∈ outer, C ∨ P m) : (annotate n text outer).Ordinary C P B own R := by
  unfold annotate
  split
  · split
    · exact ordinary_bind (ordinary_markShape (houter _ rfl) _) fun _ => ordinary_markShape hn _
    · exact ordinary_markShape hn _
  · exact ordinary_report _ _ _ rfl

theorem ordinary_interpolated (tag : Tag) (label : String) (shape : Option ArrayShape)
    (value : Expr) : (interpolated tag label shape value).Ordinary C P B own R := by
  refine ordinary_bind ordinary_look fun found => ?_
  split
  · exact ordinary_report _ _ _ rfl
  cases shape with
  | none => exact ordinary_pure ()
  | some shape =>
    refine ordinary_bind ordinary_look fun store => ?_
    extract_lets ok
    split
    · exact ordinary_pure ()
    · exact ordinary_mismatched _ _ _ _ rfl

theorem ordinary_contents (n : Node) (tag : Tag) (label : String) (quasi : Template)
    (shape : Option ArrayShape) : (contents n tag label quasi shape).Ordinary C P B own R := by
  unfold contents
  split
  · split
    · exact ordinary_report _ _ _ rfl
    · exact ordinary_pure ()
  · dsimp only
    split
    · exact ordinary_forM (ordinary_interpolated tag label shape)
    split
    · exact ordinary_report _ _ _ rfl
    · exact ordinary_pure ()

theorem ordinary_template (n : Node) (tag : Tag) (label : String) (quasi : Template)
    (chained : Bool) : (template n tag label quasi chained).Ordinary C P B own R := by
  unfold template
  split
  · refine ordinary_bind ordinary_look fun x => ?_
    split
    · exact ordinary_contents n tag label quasi _
    · exact ordinary_pure ()
  · exact ordinary_contents n tag label quasi none

/-! Assignments, declarations and identifiers. -/

theorem ordinary_typeBinding {b : BindingId} (hb : B b) (name : String) {ty : Ty}
    (hty : C → ty.isRest = false) (pos : Position) :
    (typeBinding b name ty pos).Ordinary C P B own R := by
  intro s _
  have hcode : (if ty.isTagged then Code.implyVarTagged
      else .implyVarInferred).isReturn = false := by
    split <;> rfl
  simpa [typeBinding, Write.Ordinary, hcode, hb] using fun _ => hty

theorem ordinary_checkAssignedShape (b : BindingId) (source : Node)
    (literal : Option (List Element)) :
    (checkAssignedShape b source literal).Ordinary C P B own R := by
  refine ordinary_bind ordinary_look fun store => ?_
  split
  · exact ordinary_pure ()
  · extract_lets found ok
    split
    · exact ordinary_pure ()
    · exact ordinary_mismatched _ _ _ _ rfl

theorem ordinary_unifyType {b : BindingId} (hb : B b) {i : Ident} (hi : P i.node.id) (source : Node)
    (literal : Option (List Element)) {ty : Ty} (hty : C → ty.isRest = false) :
    (unifyType b i source literal ty).Ordinary C P B own R := by
  refine ordinary_bind ordinary_look fun store => ?_
  split
  · refine ordinary_bind (ordinary_markType hi hty) fun _ => ?_
    exact ordinary_bind (ordinary_typeBinding hb _ hty _) fun _ => ordinary_markKnown _
  · refine ordinary_bind ordinary_look fun target => ?_
    split
    · exact ordinary_checkAssignedShape b source literal
    split
    · refine ordinary_bind (ordinary_put ⟨hb, hty⟩) fun _ => ordinary_report _ _ _ ?_
      split <;> rfl
    · exact ordinary_report _ _ _ rfl

theorem ordinary_unifyShape {node : Option NodeId} (hnode : ∀ n ∈ node, P n) {b : BindingId}
    (hb : B b) (x : Option Shape) : (unifyShape node b x).Ordinary C P B own R := by
  refine ordinary_bind ordinary_look fun store => ?_
  split
  · refine ordinary_bind (ordinary_markKnown _) fun _ => ?_
    refine ordinary_bind (ordinary_put hb) fun _ => ?_
    split
    · exact ordinary_markShape (.inr (hnode _ rfl)) _
    · exact ordinary_pure ()
  · exact ordinary_pure ()

theorem ordinary_assignIdent {env : CheckEnv} {node : Option NodeId} (hnode : ∀ n ∈ node, P n)
    {source : Node} (hsource : C → P source.id) (literal : Option (List Element)) {i : Ident}
    (hi : P i.node.id) (hB : ∀ b, env.bindingOf? i = some b → B b) :
    (assignIdent env node source literal i).Ordinary C P B own R := by
  unfold assignIdent
  split
  · exact ordinary_report _ _ _ rfl
  · next b hb =>
    refine ordinary_knownType? hsource fun ty? hty => ?_
    split
    · intro s _
      simp [Write.Ordinary, Code.isReturn]
    · next ty =>
      refine ordinary_bind ordinary_look fun x => ?_
      have hunify : (do
          unifyType b i source literal ty
          unifyShape node b x : Check Unit).Ordinary C P B own R :=
        ordinary_bind (ordinary_unifyType (hB b hb) hi _ _ (hty ty rfl)) fun _ =>
          ordinary_unifyShape hnode (hB b hb) _
      split
      · exact ordinary_bind (ordinary_markType (hnode _ rfl) (hty ty rfl)) fun _ => hunify
      · exact hunify

theorem ordinary_markDestructured {node : Option NodeId} (hnode : ∀ n ∈ node, P n) {value : Expr}
    (hvalue : C → P value.id) (otherwise : Tag) :
    (markDestructured node value otherwise).Ordinary C P B own R := by
  unfold markDestructured
  split
  · refine ordinary_knownType? hvalue fun ty? hty => ordinary_markType (hnode _ rfl) ?_
    cases ty? with
    | none => exact fun _ => rfl
    | some ty => exact hty ty rfl
  · exact ordinary_pure ()

theorem draws_arrayElements? {value : Expr} (h : SyntaxNode.Draws P value.nodes) :
    SyntaxNode.Draws P (Element.nodes ((arrayElements? value).getD [])) := by
  unfold arrayElements?
  split
  · exact h.mono (by simp [Expr.nodes])
  · intro e he
    simp [Element.nodes] at he

theorem draws_objectProps? {value : Expr} (h : SyntaxNode.Draws P value.nodes) :
    SyntaxNode.Draws P (Property.nodes ((objectProps? value).getD [])) := by
  unfold objectProps?
  split
  · exact h.mono (by simp [Expr.nodes])
  · intro e he
    simp [Property.nodes] at he

theorem draws_find? {key : String} {source : List Property} {e : Expr}
    (h : SyntaxNode.Draws P (Property.nodes source)) (he : Property.find? key source = some e) :
    SyntaxNode.Draws P e.nodes := by
  fun_induction Property.find? key source with
  | case1 => cases he
  | case2 k value short ps hk =>
    obtain rfl := Option.some.inj he
    exact h.mono (by simp [Property.nodes])
  | case3 k value short ps hk ih => exact ih (h.mono (by simp [Property.nodes])) he
  | case4 x ps hx ih =>
    refine ih (h.mono fun y hy => ?_) he
    cases x <;> simp [Property.nodes, hy]

mutual

theorem ordinary_assign {env : CheckEnv} {node : Option NodeId} (hnode : ∀ n ∈ node, P n)
    {value : Expr} (hvalue : SyntaxNode.Draws (C → P ·) value.nodes) : (target : Pattern) →
    (∀ i ∈ target.idents, P i.node.id ∧ ∀ b, env.bindingOf? i = some b → B b) →
    (assign env node value target).Ordinary C P B own R
  | .ident i, hi => by
    have hi := hi i (List.mem_singleton_self i)
    rw [assign]
    exact ordinary_assignIdent hnode (Expr.of_draws hvalue) _ hi.1 hi.2
  | .array _ targets, hi => by
    rw [assign]
    refine ordinary_bind (ordinary_markDestructured hnode (Expr.of_draws hvalue) _) fun _ => ?_
    exact ordinary_assignElements _ targets (draws_arrayElements? hvalue) hi
  | .object _ props, hi => by
    rw [assign]
    refine ordinary_bind (ordinary_markDestructured hnode (Expr.of_draws hvalue) _) fun _ => ?_
    exact ordinary_assignProps (draws_objectProps? hvalue) props hi
  | .withDefault _ target _, hi => by
    rw [assign]
    exact ordinary_assign hnode hvalue target hi
  | .rest _ _, _ => by
    rw [assign]
    exact ordinary_pure ()

theorem ordinary_assignElements {env : CheckEnv} : (es : List Element) →
    (ps : List (Option Pattern)) → SyntaxNode.Draws (C → P ·) (Element.nodes es) →
    (∀ i ∈ Pattern.identsOfElements ps, P i.node.id ∧ ∀ b, env.bindingOf? i = some b → B b) →
    (assignElements env es ps).Ordinary C P B own R
  | .item e :: es, some p :: ps, hes, hi => by
    simp only [Pattern.identsOfElements, List.forall_mem_append] at hi
    simp only [Element.nodes, SyntaxNode.draws_append] at hes
    rw [assignElements]
    exact ordinary_bind (ordinary_assign (by simp) hes.1 p hi.1) fun _ =>
      ordinary_assignElements es ps hes.2 hi.2
  | .item e :: es, none :: ps, hes, hi => by
    simp only [Element.nodes, SyntaxNode.draws_append] at hes
    rw [assignElements]
    · exact ordinary_assignElements es ps hes.2 hi
    · simp
  | .hole :: es, p :: ps, hes, hi => by
    rw [assignElements]
    · exact ordinary_assignElements es ps hes fun i h =>
        hi i (Pattern.identsOfElements_subset p ps h)
    · simp
  | .spread n e :: es, p :: ps, hes, hi => by
    rw [assignElements]
    · refine ordinary_assignElements es ps (hes.mono ?_) fun i h =>
        hi i (Pattern.identsOfElements_subset p ps h)
      simp [Element.nodes]
    · simp
  | [], _, _, _ => by
    rw [assignElements]
    exact ordinary_pure ()
    all_goals simp
  | _ :: _, [], _, _ => by
    rw [assignElements]
    exact ordinary_pure ()
    all_goals simp

theorem ordinary_assignProps {env : CheckEnv} {source : List Property}
    (hsource : SyntaxNode.Draws (C → P ·) (Property.nodes source)) : (ps : List PatternProp) →
    (∀ i ∈ PatternProp.identsOfProps ps, P i.node.id ∧ ∀ b, env.bindingOf? i = some b → B b) →
    (assignProps env source ps).Ordinary C P B own R
  | [], _ => by
    rw [assignProps]
    exact ordinary_pure ()
  | .prop key p :: ps, hi => by
    simp only [PatternProp.identsOfProps, List.forall_mem_append] at hi
    rw [assignProps]
    split
    · next e he =>
      exact ordinary_bind (ordinary_assign (by simp) (draws_find? hsource he) p hi.1) fun _ =>
        ordinary_assignProps hsource ps hi.2
    · exact ordinary_assignProps hsource ps hi.2
  | .rest p :: ps, hi => by
    simp only [PatternProp.identsOfProps, List.forall_mem_append] at hi
    rw [assignProps]
    exact ordinary_assignProps hsource ps hi.2

end

theorem ordinary_declare {env : CheckEnv} {i : Ident} (hB : ∀ b, env.bindingOf? i = some b → B b) :
    (declare env i).Ordinary C P B own R := by
  unfold declare
  split
  · next b hb =>
    refine ordinary_bind ordinary_look fun store => ?_
    have htype : (typeBinding b i.name (.inferred .undef) i.node.pos).Ordinary C P B own R :=
      ordinary_typeBinding (hB b hb) i.name (fun _ => rfl) i.node.pos
    split
    · exact ordinary_bind (ordinary_markKnown _) fun _ => htype
    · exact htype
  · exact ordinary_pure ()

theorem ordinary_assignDefault {env : CheckEnv} {n : NodeId} (hn : P n) {target : Pattern}
    (hi : ∀ i ∈ target.idents, P i.node.id ∧ ∀ b, env.bindingOf? i = some b → B b) {value : Expr}
    (hvalue : SyntaxNode.Draws (C → P ·) value.nodes) :
    (assignDefault env n target value).Ordinary C P B own R := by
  have hassign : (assign env (some n) value target).Ordinary C P B own R :=
    ordinary_assign (by simpa using hn) hvalue target hi
  unfold assignDefault
  split
  · refine ordinary_bind ordinary_look fun store => ?_
    split
    · exact ordinary_bind (ordinary_touch _) fun _ => hassign
    · exact hassign
  · exact hassign

theorem ordinary_rest {env : CheckEnv} {n : NodeId} (hn : (C ∨ P n) ∧ (C → ¬ P n)) {argument : Pattern}
    (hB : ∀ i ∈ argument.asIdent?, ∀ b, env.bindingOf? i = some b → B b) :
    (rest env n argument).Ordinary C P B own R := by
  have hsuits (hC : C) : ((Ty.inferred .array).rest).Suits P n :=
    ⟨fun h => absurd h (hn.2 hC), fun _ => rfl⟩
  refine ordinary_bind (ordinary_put ⟨hn.1, hsuits⟩) fun _ => ?_
  split
  · next i hi =>
    split
    · exact ordinary_report _ _ _ rfl
    · next b hb =>
      refine ordinary_bind ordinary_look fun found => ?_
      split
      · exact ordinary_typeBinding (hB i hi b hb) _ (fun _ => rfl) _
      · intro s _
        simp [Write.Ordinary, Code.isReturn]
  · exact ordinary_pure ()

theorem ordinary_readIdentifier {env : CheckEnv} {i : Ident} (hi : P i.node.id) (role : Role) :
    (readIdentifier env i role).Ordinary C P B own R := by
  intro s hs
  have htype (t : Tag) := Ty.suits_of_isRest hi (Ty.isRest_inferred t)
  cases hb : env.bindingOf? i with
  | none =>
    cases hg : globalTag? i.name <;>
      simp [readIdentifier.eq_def, hb, hg, Write.Ordinary, Code.isReturn, htype, hi]
  | some b =>
    cases hty : (s.store.ty? (.binding b)).filter Ty.isKnown with
    | none =>
      cases hg : globalTag? i.name <;>
        simp [readIdentifier.eq_def, hb, hty, hg, Write.Ordinary, Code.isReturn, htype, hi]
    | some ty =>
      have hsuits (hC : C) :=
        Ty.suits_of_isRest hi ((hs hC).binding b ty (Option.filter_eq_some_iff.1 hty).1)
      simpa [readIdentifier.eq_def, hb, hty, Write.Ordinary, Code.isReturn, hi] using hsuits

theorem ordinary_identifier {env : CheckEnv} {i : Ident} (hi : P i.node.id) {role : Role}
    (hrole : role.Regular P) (hB : ∀ b, (Visit.identifier i role).Binds env b → B b) :
    (identifier env i role).Ordinary C P B own R := by
  unfold identifier
  split
  · unfold tagIdentifier
    split
    · exact ordinary_markType hrole fun _ => rfl
    · exact ordinary_markType hi fun _ => rfl
    · exact ordinary_markType hi fun _ => rfl
  · next n _ =>
    have hn : P n.id := hrole
    exact ordinary_assignIdent (by simpa using hn) (fun _ => hn) _ hi hB
  · exact ordinary_readIdentifier hi _

/-! Functions and calls. -/

theorem ordinary_modifyReturn {id : FuncShapeId}
    (hid : ∀ (g : FuncShape) (r : ReturnSlot), own id g { g with ret := r })
    {f : ReturnSlot → ReturnSlot}
    (h : ∀ r : ReturnSlot, C → r.ty.isRest = false → (f r).ty.isRest = false) :
    (modifyReturn id f).Ordinary C P B own R :=
  ordinary_put fun g => ⟨⟨rfl, h g.ret⟩, .inr (hid g (f g.ret))⟩

theorem setParam_origin_ret (f : FuncShape) (idx : Nat) (ty : Ty) (shape : Option Shape) :
    (f.setParam idx ty shape).origin = f.origin ∧ (f.setParam idx ty shape).ret = f.ret := by
  unfold FuncShape.setParam
  split <;> exact ⟨rfl, rfl⟩

theorem ordinary_parametersFrom (env : CheckEnv) {id : FuncShapeId}
    (hid : ∀ g g' : FuncShape, g'.ret = g.ret → own id g g') (idx : Nat) (ps : List Pattern) :
    (parametersFrom env id idx ps).Ordinary C P B own R := by
  induction ps generalizing idx with
  | nil => exact ordinary_pure ()
  | cons p ps ih =>
    refine ordinary_bind ordinary_look fun found => ?_
    split
    · split
      · exact ordinary_put fun g => ⟨⟨rfl, fun _ h => h⟩, .inr (hid g _ rfl)⟩
      · refine ordinary_bind ordinary_look fun x => ?_
        refine ordinary_bind (ordinary_put fun g => ?_) fun _ => ih _
        obtain ⟨horigin, hret⟩ := setParam_origin_ret g idx _ x
        exact ⟨⟨horigin, fun _ h => hret ▸ h⟩, .inr (hid g _ hret)⟩
    · refine ordinary_bind ordinary_look fun f => ?_
      dsimp only
      split
      · exact ih _
      · refine ordinary_bind (ordinary_put fun g => ?_) fun _ => ?_
        · exact ⟨⟨rfl, fun _ h => h⟩, .inr (hid g _ rfl)⟩
        split
        · exact ordinary_bind (ordinary_touch _) fun _ => ih _
        · exact ih _

theorem ordinary_settleResult {id : FuncShapeId}
    (hid : ∀ (g : FuncShape) (r : ReturnSlot), own id g { g with ret := r })
    {result : Option NodeId} (hresult : ∀ n ∈ result, C → P n) :
    (settleResult id result).Ordinary C P B own R := by
  cases result with
  | none =>
    rw [settleResult]
    refine ordinary_modifyReturn hid fun r _ hr => ?_
    split <;> exact hr
  | some n =>
    rw [settleResult]
    refine ordinary_knownType? (hresult n rfl) fun ty? hty => ?_
    refine ordinary_bind ordinary_look fun x => ?_
    refine ordinary_bind (ordinary_modifyReturn hid fun r hC _ => ?_) fun _ => ?_
    · cases ty? with
      | none => rfl
      | some ty => exact hty ty rfl hC
    split
    · exact ordinary_markKnown _
    · exact ordinary_pure ()

theorem ordinary_meetResult {id : FuncShapeId}
    (hid : ∀ (g : FuncShape) (r : ReturnSlot), own id g { g with ret := r }) {ty : Ty}
    (hty : C → ty.isRest = false) (hR : R) (x : Option Shape) (pos : Position) :
    (meetResult id ty x pos).Ordinary C P B own R := by
  refine ordinary_bind ordinary_look fun found => ?_
  split
  · split
    · split
      · exact ordinary_modifyReturn hid fun r hC _ => hty hC
      · exact ordinary_pure ()
    split
    · exact ordinary_put fun _ => hR
    · refine ordinary_bind ordinary_look fun fits => ?_
      split
      · exact ordinary_bind ordinary_look fun _ => ordinary_bind ordinary_look fun _ =>
          ordinary_put fun _ => hR
      · exact ordinary_pure ()
  · exact ordinary_pure ()

/-- What happens to the innermost function, if there is one. -/
theorem ordinary_frame? {f : Option FuncShapeId → Check α} {s : CheckState}
    (hf : (f s.frames.head?).Ordinary C P B own R) (hs : C → s.store.Tells P) :
    (frame? >>= f).Ensures (fun _ w => w.Ordinary C P B own R) (fun _ _ => True) s :=
  ensures_bind.2 (hf s hs)

theorem ensures_ordinary_parameters (env : CheckEnv) (params : List Pattern) {s : CheckState}
    (hs : C → s.store.Tells P)
    (hown : ∀ id ∈ s.frames.head?, ∀ g g' : FuncShape, g'.ret = g.ret → own id g g') :
    (parameters env params).Ensures (fun _ w => w.Ordinary C P B own R) (fun _ _ => True) s := by
  refine ordinary_frame? ?_ hs
  cases hid : s.frames.head? with
  | none => exact ordinary_pure ()
  | some id => exact ordinary_parametersFrom env (hown id hid) 0 params

theorem ensures_ordinary_return (env : CheckEnv) (pos : Position) {argument : Option Expr}
    (hargument : ∀ e ∈ argument, C → P e.id) (hR : R) {s : CheckState} (hs : C → s.store.Tells P)
    (hown : ∀ id ∈ s.frames.head?, ∀ (g : FuncShape) (r : ReturnSlot), own id g { g with ret := r }) :
    (return_ env pos argument).Ensures (fun _ w => w.Ordinary C P B own R) (fun _ _ => True) s := by
  refine ordinary_frame? ?_ hs
  cases hid : s.frames.head? with
  | none => exact ordinary_pure ()
  | some id =>
    refine ordinary_bind ordinary_look fun store => ?_
    dsimp only
    split
    · exact ordinary_pure ()
    have hown := hown id hid
    refine ordinary_bind (ordinary_modifyReturn hown fun r _ hr => hr) fun _ => ?_
    split
    · next e _ =>
      refine ordinary_knownType? (hargument e rfl) fun ty? hty =>
        ordinary_bind ordinary_look fun x => ?_
      have hmeet : (meetResult id (ty?.getD .unknown) x e.pos).Ordinary C P B own R := by
        refine ordinary_meetResult hown ?_ hR x e.pos
        cases ty? with
        | none => exact fun _ => rfl
        | some ty => exact hty ty rfl
      split
      · exact ordinary_bind (ordinary_markKnown _) fun _ => hmeet
      · exact hmeet
    · exact ordinary_bind (ordinary_markKnown _) fun _ =>
        ordinary_meetResult hown (fun _ => rfl) hR _ _

theorem ordinary_calleeShape? (env : CheckEnv) {n : NodeId} (hn : P n) (callee : Expr) :
    (calleeShape? env n callee).Ordinary C P B own R := by
  unfold calleeShape?
  split
  · split
    · refine ordinary_bind ?_ fun _ => ordinary_bind (ordinary_markType hn fun _ => rfl) fun _ =>
        ordinary_pure _
      exact ordinary_bind ordinary_look fun _ => ordinary_bind (ordinary_put trivial) fun _ =>
        ordinary_pure _
    · exact ordinary_look
  · exact ordinary_look
  · exact ordinary_pure _

section

variable {env : CheckEnv}
  (himplies : ∀ param i, env.ImpliesAt param i → P param.id ∧ P i.node.id ∧
    ∀ b, env.bindingOf? i = some b → B b)

include himplies

theorem ordinary_implyParam (id : FuncShapeId) (origin : FuncId) (idx : Nat) {ty : Ty}
    (hty : C → ty.isRest = false) (shape : Option Shape) (pos : Position) :
    (implyParam env id origin idx ty shape pos).Ordinary C P B own R := by
  intro s _
  cases hparam : (env.resolution.function? origin).bind (·.params[idx]?) with
  | none => simp [implyParam, hparam]
  | some param =>
    cases himplied : Parameter.implied? param with
    | none => simp [implyParam, hparam, himplied]
    | some x =>
      obtain ⟨i, inner⟩ := x
      obtain ⟨f, hf, hget⟩ := Option.bind_eq_some_iff.1 hparam
      obtain ⟨hparamId, hi, hB⟩ :=
        himplies param i ⟨origin, f, inner, hf, List.mem_of_getElem? hget, himplied⟩
      have hinner (n : NodeId) (hn : inner = some n) : P n := by
        unfold Parameter.implied? at himplied
        split at himplied <;> cases himplied
        · cases hn
        · cases hn
          exact hi
      have hsuits (n : NodeId) (hn : P n) (hC : C) : ty.Suits P n :=
        Ty.suits_of_isRest hn (hty hC)
      have hagrees (g : FuncShape) : ((g.implyParam idx ty shape).origin = g.origin ∧
          (C → g.ret.ty.isRest = false → (g.implyParam idx ty shape).ret.ty.isRest = false)) ∧
          (g.Agrees (g.implyParam idx ty shape) ∨ own id g (g.implyParam idx ty shape)) :=
        ⟨⟨rfl, fun _ h => h⟩, .inl (.implyParam g idx ty shape)⟩
      have hcode : (if ty.isTagged then Code.implyParamFromArgTagged
          else .implyParamFromArgInferred).isReturn = false := by
        split <;> rfl
      cases hb : env.bindingOf? i with
      | none =>
        cases inner <;>
          simp +contextual [implyParam, hparam, himplied, hb, Write.Ordinary, hinner, hsuits]
      | some b =>
        have hb' := hB b hb
        cases inner <;> cases shape <;>
          simpa +contextual [implyParam, hparam, himplied, hb, Write.Ordinary, hinner, hparamId,
            hsuits, hb', hty, hcode] using hagrees

theorem ordinary_argument (id : FuncShapeId) (origin : Option FuncId) (idx : Nat) (param : Slot)
    {arg : Expr} (harg : C → P arg.id) :
    (argument env id origin idx param arg).Ordinary C P B own R := by
  refine ordinary_tyOf harg fun ty hty => ordinary_bind ordinary_look fun shape => ?_
  split
  · split
    · exact ordinary_report _ _ _ rfl
    · refine ordinary_bind ordinary_look fun fits => ?_
      split
      · exact ordinary_mismatched _ _ _ _ rfl
      · exact ordinary_pure ()
  split
  · split
    · exact ordinary_implyParam himplies id _ idx hty shape _
    · exact ordinary_pure ()
  · exact ordinary_pure ()

theorem ordinary_argumentsFrom (pos : Position) (id : FuncShapeId) (origin : Option FuncId)
    (idx : Nat) {args : List Element} (hargs : SyntaxNode.Draws (C → P ·) (Element.nodes args))
    (params : List Slot) :
    (argumentsFrom env pos id origin idx args params).Ordinary C P B own R := by
  fun_induction argumentsFrom with
  | case1 => exact ordinary_report _ _ _ rfl
  | case2 idx e es p ps ih =>
    rw [Element.nodes, SyntaxNode.draws_append] at hargs
    have he := Expr.of_draws hargs.1
    exact ordinary_bind (ordinary_argument himplies id origin idx p he) fun _ => ih hargs.2
  | case3 => exact ordinary_pure ()

theorem ordinary_call {n : Node} (hn : P n.id) (callee : Expr) {args : List Element}
    (hargs : SyntaxNode.Draws (C → P ·) (Element.nodes args)) (tail : Bool) :
    (call env n callee args tail).Ordinary C P B own R := by
  refine ordinary_bind ordinary_look fun store => ordinary_bind ordinary_look fun frame => ?_
  refine ordinary_bind (ordinary_calleeShape? env hn callee) fun id? => ?_
  split
  · split
    · refine ordinary_bind (ordinary_report _ _ _ rfl) fun _ => ?_
      split
      · exact ordinary_touch _
      · exact ordinary_pure ()
    · exact ordinary_pure ()
  · next id =>
    refine ordinary_func? fun f? hf => ?_
    split
    · next f =>
      have hresult : (callResult n.id id f.ret (tail && frame.any fun id =>
          isSelfCall env store id (.call n callee args))).Ordinary C P B own R := by
        have hsuits (hC : C) := Ty.suits_of_isRest hn (hf f rfl hC)
        intro s _
        simpa [callResult, Write.Ordinary, Code.isReturn, hn] using fun _ => hsuits
      refine ordinary_bind hresult fun _ => ordinary_bind (fun s _ => ?_) fun _ => ?_
      · simp [argumentCount, Write.Ordinary, Code.isReturn]
      · exact ordinary_argumentsFrom himplies n.pos id f.origin 0 hargs f.params
    · exact ordinary_pure ()

end

end Check

namespace Visit

def isBracket : Visit → Bool
  | enterFunction _ _ | leaveFunction _ _ _ => true
  | infer _ _ | identifier _ _ | parameters _ | return_ _ _ | condition _ _ _ | declare _
  | assign _ _ _ | assignDefault _ _ _ | rest _ _ | spread _ _ _ | arrayLiteral _ _ | unary _ _ _
  | update _ _ _ | binary _ _ _ _ | select _ _ _ | inherit _ _ | call _ _ _ _ | annotate _ _ _
  | template _ _ _ _ _ => false

def isOwn : Visit → Bool
  | parameters _ | return_ _ _ => true
  | enterFunction _ _ | leaveFunction _ _ _ | infer _ _ | identifier _ _ | condition _ _ _
  | declare _ | assign _ _ _ | assignDefault _ _ _ | rest _ _ | spread _ _ _ | arrayLiteral _ _
  | unary _ _ _ | update _ _ _ | binary _ _ _ _ | select _ _ _ | inherit _ _ | call _ _ _ _
  | annotate _ _ _ | template _ _ _ _ _ => false

def return? : Visit → Option Return
  | return_ pos argument => some (pos, argument)
  | enterFunction _ _ | leaveFunction _ _ _ | infer _ _ | identifier _ _ | parameters _
  | condition _ _ _ | declare _ | assign _ _ _ | assignDefault _ _ _ | rest _ _ | spread _ _ _
  | arrayLiteral _ _ | unary _ _ _ | update _ _ _ | binary _ _ _ _ | select _ _ _ | inherit _ _
  | call _ _ _ _ | annotate _ _ _ | template _ _ _ _ _ => none

/-- What a visit changes of the shape of the innermost function: its parameters or its result. -/
def Alters (f g : FuncShape) : Visit → Prop
  | parameters _ => g.ret = f.ret
  | return_ _ _ => f.SameParams g
  | enterFunction _ _ | leaveFunction _ _ _ | infer _ _ | identifier _ _ | condition _ _ _
  | declare _ | assign _ _ _ | assignDefault _ _ _ | rest _ _ | spread _ _ _ | arrayLiteral _ _
  | unary _ _ _ | update _ _ _ | binary _ _ _ _ | select _ _ _ | inherit _ _ | call _ _ _ _
  | annotate _ _ _ | template _ _ _ _ _ => False

theorem isOwn_of_alters {v : Visit} {f g : FuncShape} (h : v.Alters f g) : v.isOwn = true := by
  cases v with
  | parameters _ => rfl
  | return_ _ _ => rfl
  | _ => exact h.elim

/-- What a visit may write, unless a function begins or ends with it. -/
theorem ensures_ordinary {env : CheckEnv} {v : Visit} (hv : v.Regular P)
    (hbracket : v.isBracket = false)
    (himplies : ∀ param i, env.ImpliesAt param i → P param.id ∧ P i.node.id) {s : CheckState}
    (hs : s.store.Tells P) :
    (v.apply env).Ensures (fun _ w => w.Ordinary True P (v.Binds env ·)
      (fun id g g' => s.frames.head? = some id ∧ v.Alters g g') (v.return?.isSome = true))
      (fun _ _ => True) s := by
  have hplain {m : Check Unit} (h : m.Ordinary True P (v.Binds env ·)
      (fun id g g' => s.frames.head? = some id ∧ v.Alters g g') (v.return?.isSome = true)) :
      m.Ensures (fun _ w => w.Ordinary True P (v.Binds env ·)
        (fun id g g' => s.frames.head? = some id ∧ v.Alters g g') (v.return?.isSome = true))
        (fun _ _ => True) s := h s fun _ => hs
  cases v with
  | enterFunction n f => cases hbracket
  | leaveFunction pos name result => cases hbracket
  | parameters params =>
    exact Check.ensures_ordinary_parameters env params (fun _ => hs) fun _ hid _ _ hret => ⟨hid, hret⟩
  | return_ pos argument =>
    exact Check.ensures_ordinary_return env pos (fun e he _ => hv e he) rfl (fun _ => hs)
      fun _ hid _ _ => ⟨hid, rfl, rfl⟩
  | infer n t => exact hplain (Check.ordinary_markType hv fun _ => rfl)
  | identifier i role => exact hplain (Check.ordinary_identifier hv.1 hv.2 fun b hb => hb)
  | condition code label n => exact hplain (Check.ordinary_condition hv label n)
  | declare i => exact hplain (Check.ordinary_declare fun b hb => hb)
  | assign n value target =>
    exact hplain (Check.ordinary_assign hv.1 (fun e he _ => hv.2.1 e he) target fun i hi =>
      ⟨hv.2.2 i hi, fun b hb => ⟨i, hi, hb⟩⟩)
  | assignDefault n target value =>
    exact hplain (Check.ordinary_assignDefault hv.1 (fun i hi =>
      ⟨hv.2.2 i hi, fun b hb => ⟨i, hi, hb⟩⟩) fun e he _ => hv.2.1 e he)
  | rest n argument =>
    exact hplain (Check.ordinary_rest ⟨.inl trivial, fun _ => hv⟩ fun i hi b hb => ⟨i, hi, hb⟩)
  | spread pos argument expected => exact hplain (Check.ordinary_spread pos argument expected)
  | arrayLiteral n elements => exact hplain (Check.ordinary_arrayLiteral hv elements)
  | unary n op argument => exact hplain (Check.ordinary_unary hv op argument)
  | update n op argument => exact hplain (Check.ordinary_update hv.1 op fun _ => hv.2)
  | binary n op left right => exact hplain (Check.ordinary_binary hv env op left right)
  | select n a b => exact hplain (Check.ordinary_select hv a b)
  | inherit n source => exact hplain (Check.ordinary_inherit hv.1 fun _ => hv.2)
  | call n callee args tail =>
    refine hplain (Check.ordinary_call (fun param i hi => ?_) hv.1 callee
      (fun e he _ => hv.2 e he) tail)
    exact ⟨(himplies param i hi).1, (himplies param i hi).2, fun b hb => ⟨param, i, hi, hb⟩⟩
  | annotate n text outer =>
    exact hplain (Check.ordinary_annotate (.inl trivial) text fun _ _ => .inl trivial)
  | template n tag label quasi chained =>
    exact hplain (Check.ordinary_template n tag label quasi chained)

end Visit
end TagCheck
