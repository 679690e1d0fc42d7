import TagCheck.Proofs.Check.Moments
import TagCheck.Proofs.Check.Window
import TagCheck.Proofs.Diagnostic.FaultTexts

/-! What the rules refer to when they look, write and report. Function shapes are referred to by
places that the arena has, array shapes are read from their descriptions, bindings are those that
identifiers mean, nodes are looked up within the part that the visit is about, and a report stands
at a place of it, with the severity of its code. It is one line if the names and labels in it
are. -/
namespace TagCheck

open Text

/-- How a code is reported, given how a strict comparison of operands of one type is. -/
def Code.severity (strict : Severity) : Code → Severity
  | funcShape | arrayShape | objectShape | reimplyUndefTagged | reimplyUndefInferred
  | implyParamFromArgTagged | implyParamFromArgInferred | implyVarTagged | implyVarInferred => .info
  | strictEqualityKnownMatchingTypes => strict
  | _ => .error

def Target.IsBound (env : CheckEnv) : Target → Prop
  | node _ => True
  | binding b => env.Binds b

/-- What may be noted: a binding that an identifier means, or the result of a function whose shape
is in the arena. -/
def Tracked.IsBound (env : CheckEnv) (bound : Nat) : Tracked → Prop
  | binding b => env.Binds b
  | ret id => id < bound

/-- The names of parameters that can take a type from an argument are of one line. -/
def CheckEnv.OneLineParams (env : CheckEnv) : Prop :=
  ∀ origin f, env.resolution.function? origin = some f → ∀ param ∈ f.params, ∀ i inner,
    Check.Parameter.implied? param = some (i, inner) → OneLine i.name

/-- A region, and whether the texts of the source that are shown in reports are of one line. -/
structure Scene (env : CheckEnv) extends Region where
  plain : Prop
  params : plain → env.OneLineParams

instance {env : CheckEnv} : CoeOut (Scene env) Region := ⟨Scene.toRegion⟩

def Region.scene (r : Region) (env : CheckEnv) : Scene env := ⟨r, False, False.elim⟩

/-- The identifier is of the region, and of one line if texts are. -/
def Scene.ident {env : CheckEnv} (r : Scene env) (i : Ident) : Prop :=
  r.node i.node ∧ (r.plain → OneLine i.name)

/-- The write refers to what there is, within a region. -/
def Write.Orderly (env : CheckEnv) (r : Scene env) (s : CheckState) : Write → Prop
  | type t _ => t.IsBound env
  | reimply b _ => env.Binds b
  | shape t x => t.IsBound env ∧ ∀ y ∈ x, y.Proper s.store.arena.size
  | forceShape _ x => x.Proper s.store.arena.size
  | touch x | known x => x.IsBound env s.store.arena.size
  | function f => r.func f
  | native _ _ | leave => True
  | func id f => id < s.store.arena.size ∧ ∀ g : FuncShape,
    g.AllShapes (Shape.Proper s.store.arena.size) →
      (f g).AllShapes (Shape.Proper s.store.arena.size)
  | report severity code message pos =>
    (severity = code.severity env.strictEquality ∧ code ≠ .tooManyPasses) ∧ r.pos pos ∧
      (r.plain → OneLine message)
  | enter id => id < s.store.arena.size

theorem Write.Orderly.proper {env : CheckEnv} {r : Scene env} {s : CheckState} {w : Write}
    (h : w.Orderly env r s) (hs : s.Proper) : (w.apply s).Proper := by
  have hsize := w.size_arena_le s.store
  have hcarries : w.Carries (Shape.Proper s.store.arena.size) := by
    cases w with
    | shape t x => exact h.2
    | forceShape n x => exact h
    | func id f => exact h.2
    | _ => trivial
  constructor
  · rw [Write.store_apply]
    exact fun x hx => (hcarries.allShapes hs.shapes x hx).mono hsize
  · intro k id hk
    rw [Write.store_apply] at hk ⊢
    by_cases hnot : ∀ f, w ≠ .function f
    · rw [Write.functionShape?_onStore hnot] at hk
      exact Nat.lt_of_lt_of_le (hs.functions k id hk) hsize
    · simp only [ne_eq, not_forall, not_not] at hnot
      obtain ⟨f, rfl⟩ := hnot
      rcases Store.of_functionShape?_makeFunction hk with hk | ⟨-, hnone, rfl⟩
      · exact Nat.lt_of_lt_of_le (hs.functions k id hk) hsize
      · simp [Write.onStore, Store.makeFunction, hnone]
  · rw [Write.store_apply]
    rcases w.arena_cases s.store with ⟨ha, -, hn⟩ | ⟨id, f, rfl⟩ | ⟨f, -, hnew⟩ | ⟨_, _, -, hnew⟩
    · rw [ha, hn]
      exact hs.natives
    · exact fun x hx => Nat.lt_of_lt_of_le (hs.natives x hx) hsize
    · exact fun x hx => Nat.lt_of_lt_of_le (hs.natives x (by simpa [hnew] using hx)) hsize
    · rw [hnew] at hsize ⊢
      exact List.forall_mem_cons.2 ⟨by simp, fun x hx => Nat.lt_of_lt_of_le (hs.natives x hx) hsize⟩
  · rw [Write.store_apply]
    cases w with
    | enter id => exact List.forall_mem_cons.2 ⟨h, hs.frames⟩
    | leave => exact fun id hid => hs.frames id (List.mem_of_mem_tail hid)
    | _ => exact fun id hid => Nat.lt_of_lt_of_le (hs.frames id hid) hsize

namespace Check

/-- From proper states on, all writes of a rule are orderly, it looks at nothing out of the region,
and its value is as asked for. -/
def Yields (env : CheckEnv) (r : Scene env) (bound : Nat) (Q : Nat → α → Prop) (m : Check α) :
    Prop :=
  ∀ s, s.Proper → bound ≤ s.store.arena.size →
    m.Ensures (fun s w => w.Orderly env r s) (fun a s => Q s.store.arena.size a) s ∧
      m.LooksWithin env r s

def Orderly (env : CheckEnv) (r : Scene env) (bound : Nat) (m : Check α) : Prop :=
  m.Yields env r bound fun _ _ => True

section

variable {env : CheckEnv} {r : Scene env} {bound : Nat}

theorem orderly_pure (a : α) : (pure a : Check α).Orderly env r bound :=
  fun _ _ _ => ⟨trivial, trivial⟩

theorem yields_pure {Q : Nat → α → Prop} {a : α} (h : ∀ bound', bound ≤ bound' → Q bound' a) :
    (pure a : Check α).Yields env r bound Q :=
  fun _ _ hbound => ⟨h _ hbound, trivial⟩

theorem Yields.bind {Q : Nat → α → Prop} {R : Nat → β → Prop} {m : Check α} {f : α → Check β}
    (hm : m.Yields env r bound Q)
    (hf : ∀ bound' a, bound ≤ bound' → Q bound' a → (f a).Yields env r bound' R) :
    (m >>= f).Yields env r bound R := by
  intro s hs hbound
  obtain ⟨hwrites, hlooks⟩ := hm s hs hbound
  have hkeep := hwrites.invariant
    (I := fun s => s.Proper ∧ bound ≤ s.store.arena.size) ⟨hs, hbound⟩
    fun s w hs hw => ⟨hw.proper hs.1, Nat.le_trans hs.2 (by
      rw [Write.store_apply]
      exact w.size_arena_le s.store)⟩
  have hnext := hkeep.imp fun a s h => hf _ a h.1.2 h.2 s h.1.1 (Nat.le_refl _)
  exact ⟨ensures_bind.2 (hnext.mono (fun _ _ h => h.2) fun _ _ h => h.1),
    looksWithin_bind hlooks (hnext.imp fun _ _ h => h.2)⟩

theorem Yields.mono {Q : Nat → α → Prop} {m : Check α} {bound' : Nat}
    (h : m.Yields env r bound Q) (hle : bound ≤ bound') : m.Yields env r bound' Q :=
  fun s hs hbound => h s hs (Nat.le_trans hle hbound)

theorem orderly_bind {m : Check α} {f : α → Check β} (hm : m.Orderly env r bound)
    (hf : ∀ a, (f a).Orderly env r bound) : (m >>= f).Orderly env r bound :=
  hm.bind fun _ a hle _ => (hf a).mono hle

/-- What is looked up in a proper state is as the shapes there are. -/
theorem yields_look {Q : Nat → α → Prop} {g : Store → List FuncShapeId → α}
    (hsame : ∀ s : CheckState, s.Proper → bound ≤ s.store.arena.size →
      ∀ store', s.store.SameWithin env r store' → g store' s.frames = g s.store s.frames)
    (h : ∀ s : CheckState, s.Proper → Q s.store.arena.size (g s.store s.frames)) :
    (read fun store frames => done (g store frames)).Yields env r bound Q :=
  fun s hs hbound =>
    ⟨h s hs, .inl fun store' hstore' => congrArg done (hsame s hs hbound store' hstore'), trivial⟩

theorem orderly_look {g : Store → List FuncShapeId → α}
    (hsame : ∀ s : CheckState, s.Proper → bound ≤ s.store.arena.size →
      ∀ store', s.store.SameWithin env r store' → g store' s.frames = g s.store s.frames) :
    (read fun store frames => done (g store frames)).Orderly env r bound :=
  yields_look hsame fun _ _ => trivial

/-- What comes after a look at the whole store. -/
theorem yields_getStore {Q : Nat → α → Prop} {f : Store → Check α}
    (hsame : ∀ s : CheckState, s.Proper → ∀ store', s.store.SameWithin env r store' →
      f store' = f s.store)
    (h : ∀ s : CheckState, s.Proper → bound ≤ s.store.arena.size →
      (f s.store).Yields env r s.store.arena.size Q) :
    (getStore >>= f).Yields env r bound Q := by
  intro s hs hbound
  obtain ⟨hwrites, hlooks⟩ := h s hs hbound s hs (Nat.le_refl _)
  exact ⟨hwrites, .inl (hsame s hs), hlooks⟩

theorem orderly_getStore {f : Store → Check α}
    (hsame : ∀ s : CheckState, s.Proper → ∀ store', s.store.SameWithin env r store' →
      f store' = f s.store)
    (h : ∀ store, (f store).Orderly env r bound) : (getStore >>= f).Orderly env r bound :=
  yields_getStore hsame fun s _ hbound => (h s.store).mono hbound

theorem orderly_put {w : Write}
    (h : ∀ s : CheckState, s.Proper → bound ≤ s.store.arena.size → w.Orderly env r s) :
    (put w).Orderly env r bound :=
  fun s hs hbound => ⟨⟨h s hs hbound, trivial⟩, trivial⟩

theorem orderly_forM {f : α → Check PUnit} {l : List α}
    (hf : ∀ a ∈ l, (f a).Orderly env r bound) : (l.forM f).Orderly env r bound := by
  induction l with
  | nil => exact orderly_pure _
  | cons a l ih =>
    rw [List.forall_mem_cons] at hf
    exact orderly_bind hf.1 fun _ => ih hf.2

theorem orderly_unless {c : Prop} [Decidable c] {m : Check Unit} (h : m.Orderly env r bound) :
    (if c then pure () else m).Orderly env r bound := by
  split
  · exact orderly_pure _
  · exact h

theorem orderly_when {c : Prop} [Decidable c] {m : Check Unit} (h : m.Orderly env r bound) :
    (if c then m else pure ()).Orderly env r bound := by
  split
  · exact h
  · exact orderly_pure _

/-! What is looked up. -/

section

variable {t : Target} (ht : t.Within env r)

include ht

theorem orderly_ty? : (ty? t).Orderly env r bound :=
  orderly_look fun _ _ _ _ hsame => hsame.ty? ht

theorem orderly_knownType? : (knownType? t).Orderly env r bound :=
  orderly_look fun _ _ _ _ hsame => congrArg (·.filter Ty.isKnown) (hsame.ty? ht)

theorem orderly_tagOf : (tagOf t).Orderly env r bound :=
  orderly_look fun _ _ _ _ hsame => hsame.tag ht

theorem yields_shape? : (shape? t).Yields env r bound fun bound' x => ∀ y ∈ x, y.Proper bound' :=
  yields_look (fun _ _ _ _ hsame => hsame.shape? ht) fun _ hs => hs.shapes.shape? t

end

theorem orderly_tyOf {n : NodeId} (hn : r.id n) : (tyOf n).Orderly env r bound :=
  orderly_look fun _ _ _ _ hsame => congrArg (·.getD .unknown) (hsame.ty? (t := .node n) hn)

theorem yields_func? {id : FuncShapeId} (hid : id < bound) :
    (func? id).Yields env r bound fun bound' f => ∀ g ∈ f, g.AllShapes (Shape.Proper bound') :=
  yields_look (fun _ _ hbound _ hsame => hsame.funcs id (Nat.lt_of_lt_of_le hid hbound))
    fun _ hs => hs.shapes.get? id

theorem yields_frame? : frame?.Yields env r bound fun bound' x => ∀ id ∈ x, id < bound' :=
  yields_look (fun _ _ _ _ _ => rfl) fun _ hs id hid => hs.frames id (List.mem_of_mem_head? hid)

theorem yields_functionShape {f : FuncId} (hf : r.func f) :
    (functionShape f).Yields env r bound fun bound' place => place.1 < bound' :=
  fun _ hs _ => ⟨⟨hf, hs.closed.store.functionPlace_lt f⟩, .inr (.function f pure), trivial⟩

theorem yields_nativeShape (name : String) (result : Tag) :
    (nativeShape name result).Yields env r bound fun bound' id => id < bound' :=
  fun _ hs _ =>
    ⟨⟨trivial, hs.closed.store.nativePlace_lt name result⟩, .inr (.native name result pure), trivial⟩

theorem orderly_shapeFits {x y : Option Shape} (hx : ∀ z ∈ x, z.Proper bound)
    (hy : ∀ z ∈ y, z.Proper bound) : (shapeFits x y).Orderly env r bound :=
  orderly_look fun _ hs hbound _ hsame => hsame.fits hs.closed.store
    (fun z hz => (hx z hz).below.mono hbound) fun z hz => (hy z hz).below.mono hbound

theorem yields_describe {x : Option Shape} (hx : ∀ z ∈ x, z.Proper bound) :
    (describe x).Yields env r bound fun _ text => OneLine text :=
  yields_look (fun _ hs hbound _ hsame => hsame.describe hs.closed.store
    fun z hz => (hx z hz).below.mono hbound) fun _ hs => hs.oneLine_describe fun z hz =>
      (hx z hz).isCanonical

/-! What is written. -/

theorem orderly_markType_node (n : NodeId) (ty : Ty) :
    (markType (.node n) ty).Orderly env r bound :=
  orderly_put fun _ _ _ => trivial

theorem orderly_markShape {t : Target} {x : Option Shape} (ht : t.IsBound env)
    (hx : ∀ y ∈ x, y.Proper bound) : (markShape t x).Orderly env r bound :=
  orderly_put fun _ _ hbound => ⟨ht, fun y hy => (hx y hy).mono hbound⟩

theorem orderly_modifyFunc {id : FuncShapeId} (hid : id < bound) {f : FuncShape → FuncShape}
    (hf : ∀ bound' (g : FuncShape), bound ≤ bound' → g.AllShapes (Shape.Proper bound') →
      (f g).AllShapes (Shape.Proper bound')) :
    (modifyFunc id f).Orderly env r bound :=
  orderly_put fun _ _ hbound =>
    ⟨Nat.lt_of_lt_of_le hid hbound, fun g hg => hf _ g hbound hg⟩

theorem orderly_modifyReturn {id : FuncShapeId} (hid : id < bound) {f : ReturnSlot → ReturnSlot}
    (hf : ∀ bound' (ret : ReturnSlot), bound ≤ bound' → (∀ x ∈ ret.shape, x.Proper bound') →
      ∀ x ∈ (f ret).shape, x.Proper bound') : (modifyReturn id f).Orderly env r bound :=
  orderly_modifyFunc hid fun bound' g hle hg => ⟨hg.params, hf bound' g.ret hle hg.ret⟩

theorem orderly_note {b : BindingId} (hb : env.Binds b) :
    (touch (.binding b)).Orderly env r bound ∧ (markKnown (.binding b)).Orderly env r bound :=
  ⟨orderly_put fun _ _ _ => hb, orderly_put fun _ _ _ => hb⟩

theorem orderly_note_ret {id : FuncShapeId} (hid : id < bound) :
    (touch (.ret id)).Orderly env r bound ∧ (markKnown (.ret id)).Orderly env r bound :=
  ⟨orderly_put fun _ _ hbound => Nat.lt_of_lt_of_le hid hbound,
    orderly_put fun _ _ hbound => Nat.lt_of_lt_of_le hid hbound⟩

theorem orderly_report {severity : Severity} {code : Code} {message : String} {pos : Position}
    (hcode : severity = code.severity env.strictEquality ∧ code ≠ .tooManyPasses)
    (hpos : r.pos pos) (hmessage : r.plain → OneLine message) :
    (report severity code message pos).Orderly env r bound :=
  orderly_put fun _ _ _ => ⟨hcode, hpos, hmessage⟩

theorem orderly_unexpected {code : Code} {label : String} (found : Tag) {expected : String}
    {pos : Position} (hcode : .error = code.severity env.strictEquality ∧ code ≠ .tooManyPasses)
    (hpos : r.pos pos) (hlabel : OneLine label) (hexpected : r.plain → OneLine expected) :
    (unexpected code label found expected pos).Orderly env r bound :=
  orderly_report hcode hpos fun h => oneLine_unexpectedType hlabel found (by simpa using hexpected h)

theorem orderly_mismatched {code : Code} {label : String} {expected found : Option Shape}
    {pos : Position} (hcode : .error = code.severity env.strictEquality ∧ code ≠ .tooManyPasses)
    (hexpected : ∀ x ∈ expected, x.Proper bound) (hfound : ∀ x ∈ found, x.Proper bound)
    (hpos : r.pos pos) (hlabel : OneLine label) :
    (mismatched code label expected found pos).Orderly env r bound :=
  (yields_describe hexpected).bind fun _ _ hle htext =>
    ((yields_describe hfound).mono hle).bind fun _ _ _ htext' =>
      orderly_report hcode hpos fun _ => oneLine_unexpectedShape hlabel htext htext'

/-! Operators and conditions. -/

theorem orderly_condition {code : Code} {label : String}
    (h : code.isConditional = true ∧ OneLine label) {n : Node} (hn : r.node n) :
    (condition code label n).Orderly env r bound := by
  refine orderly_bind (orderly_tagOf (Region.id_of_node hn)) fun found => ?_
  split
  · refine orderly_unexpected _ ?_ (Region.pos_of_node hn) h.2 fun _ => Tag.oneLine_name _
    cases code <;> simp_all [Code.isConditional, Code.severity]
  · exact orderly_pure _

theorem orderly_checkNumericOperand {op : String} (hop : OneLine op) {argument : Node}
    (h : r.node argument) : (checkNumericOperand op argument).Orderly env r bound := by
  refine orderly_bind (orderly_tagOf (Region.id_of_node h)) fun found => ?_
  exact orderly_unless (orderly_unexpected _ ⟨rfl, by decide⟩ (Region.pos_of_node h)
    (by simp +decide [hop]) fun _ => Tag.oneLine_name _)

theorem orderly_unary (n : NodeId) (op : UnaryOp) {argument : Node} (h : r.node argument) :
    (unary n op argument).Orderly env r bound := by
  unfold unary
  split
  iterate 4 exact orderly_markType_node _ _
  all_goals
    exact orderly_bind (orderly_markType_node _ _) fun _ =>
      orderly_checkNumericOperand (UnaryOp.oneLine_text _) h

theorem orderly_update (n : NodeId) (op : UpdateOp) {argument : Node} (h : r.node argument) :
    (update n op argument).Orderly env r bound := by
  refine orderly_bind (orderly_ty? (Region.id_of_node h)) fun ty => ?_
  split
  · exact orderly_bind (orderly_markType_node _ _) fun _ =>
      orderly_checkNumericOperand op.oneLine_text h
  · exact orderly_checkNumericOperand op.oneLine_text h

theorem orderly_rejectOperands {code : Code}
    (hcode : .error = code.severity env.strictEquality ∧ code ≠ .tooManyPasses)
    {label expected : String} (hlabel : OneLine label) (hexpected : OneLine expected)
    (accepts : Tag → Bool) {operands : List (Node × Tag)} (h : ∀ x ∈ operands, r.node x.1) :
    (rejectOperands code label expected accepts operands).Orderly env r bound := by
  refine orderly_forM fun x hx => ?_
  dsimp only
  exact orderly_unless (orderly_unexpected _ hcode (Region.pos_of_node (h x hx)) hlabel
    fun _ => hexpected)

/-- The types of two operands are looked at first. -/
theorem orderly_tagsOf {left right : Node} (hl : r.node left) (hr : r.node right)
    {f : Tag → Tag → Check α} (h : ∀ l r', (f l r').Orderly env r bound) :
    (do let l ← tagOf (.node left.id); let r' ← tagOf (.node right.id); f l r').Orderly
      env r bound :=
  orderly_bind (orderly_tagOf (Region.id_of_node hl)) fun l =>
    orderly_bind (orderly_tagOf (Region.id_of_node hr)) fun r' => h l r'

theorem orderly_tysOf {left right : NodeId} (hl : r.id left) (hr : r.id right)
    {f : Ty → Ty → Check α} (h : ∀ l r', (f l r').Orderly env r bound) :
    (do let l ← tyOf left; let r' ← tyOf right; f l r').Orderly env r bound :=
  orderly_bind (orderly_tyOf hl) fun l => orderly_bind (orderly_tyOf hr) fun r' => h l r'

section

variable {n left right : Node} (hn : r.node n) (hl : r.node left) (hr : r.node right)

include hn hl hr

theorem orderly_modulus (l r' : Ty) : (modulus n left right l r').Orderly env r bound := by
  refine orderly_bind (orderly_markType_node _ _) fun _ => ?_
  split
  · exact orderly_pure _
  · split
    · exact orderly_unexpected _ ⟨rfl, by decide⟩ (Region.pos_of_node hn) (by decide)
        fun _ => Tag.oneLine_name _
    · exact orderly_rejectOperands ⟨rfl, by decide⟩ (by decide) (by decide) _ (by simp [hl, hr])

theorem orderly_arithmetic (op : BinaryOp) :
    (arithmetic n op left right).Orderly env r bound := by
  refine orderly_tysOf (Region.id_of_node hl) (Region.id_of_node hr) fun l r' => ?_
  dsimp only
  split
  · exact orderly_markType_node _ _
  split
  · exact orderly_modulus hn hl hr l r'
  split
  · exact orderly_markType_node _ _
  · refine orderly_bind (orderly_markType_node _ _) fun _ => ?_
    exact orderly_rejectOperands ⟨rfl, by decide⟩ (oneLine_binaryLabel _ (by decide)) (by decide) _
      (by simp [hl, hr])

theorem orderly_addition : (addition n left right).Orderly env r bound := by
  refine orderly_tysOf (Region.id_of_node hl) (Region.id_of_node hr) fun l r' => ?_
  split
  · exact orderly_arithmetic hn hl hr .add
  split
  · exact orderly_markType_node _ _
  · refine orderly_bind (orderly_markType_node _ _) fun _ => ?_
    exact orderly_report ⟨rfl, by decide⟩ (Region.pos_of_node hn) fun _ =>
      oneLine_typeMismatch (by decide) _ _

theorem orderly_relational (op : BinaryOp) :
    (relational n op left right).Orderly env r bound := by
  refine orderly_tagsOf hl hr fun l r' => ?_
  refine orderly_bind (orderly_markType_node _ _) fun _ => ?_
  split
  · split
    · exact orderly_pure _
    · exact orderly_unexpected _ ⟨rfl, by decide⟩ (Region.pos_of_node hn)
        (oneLine_binaryLabel _ (by decide)) fun _ => by decide
  split
  · split
    · exact orderly_report ⟨rfl, by decide⟩ (Region.pos_of_node hn) fun _ =>
        oneLine_typeMismatch (oneLine_binaryLabel _ (by decide)) _ _
    · exact orderly_pure _
  · exact orderly_rejectOperands ⟨rfl, by decide⟩ (oneLine_binaryLabel _ (by decide)) (by decide) _
      (by simp [hl, hr])

theorem orderly_looseEquality (op : BinaryOp) :
    (looseEquality n op left right).Orderly env r bound := by
  refine orderly_tagsOf hl hr fun l r' => ?_
  refine orderly_bind (orderly_markType_node _ _) fun _ => ?_
  dsimp only
  split
  · exact orderly_report ⟨rfl, by decide⟩ (Region.pos_of_node hn) fun _ => by simp +decide
  · exact orderly_report ⟨rfl, by decide⟩ (Region.pos_of_node hl) fun _ => by simp +decide
  · exact orderly_report ⟨rfl, by decide⟩ (Region.pos_of_node hr) fun _ => by simp +decide
  · split
    · exact orderly_pure _
    · exact orderly_report ⟨rfl, by decide⟩ (Region.pos_of_node hn) fun _ =>
        oneLine_typeMismatch (by simp +decide) _ _

theorem orderly_strictEquality (op : BinaryOp) :
    (strictEquality env n op left right).Orderly env r bound := by
  refine orderly_tagsOf hl hr fun l r' => ?_
  refine orderly_bind (orderly_markType_node _ _) fun _ => ?_
  split
  · dsimp only
    split
    · exact orderly_report ⟨rfl, by decide⟩ (Region.pos_of_node hn) fun _ =>
        oneLine_unexpectedType (by simp +decide) _ (by simp)
    · exact orderly_report ⟨rfl, by decide⟩ (Region.pos_of_node hn) fun _ =>
        oneLine_typeMismatch (by simp +decide) _ _
  · exact orderly_pure _

omit hn in
theorem orderly_membership : (membership n left right).Orderly env r bound := by
  refine orderly_tagsOf hl hr fun l r' => ?_
  refine orderly_bind (orderly_markType_node _ _) fun _ => ?_
  have hright : (if r' != .object then unexpected .inOpType
      "`in` operation, unexpected operand type" r' Tag.object.name right.pos
      else pure () : Check Unit).Orderly env r bound :=
    orderly_when (orderly_unexpected _ ⟨rfl, by decide⟩ (Region.pos_of_node hr) (by decide)
      fun _ => by decide)
  dsimp only
  split
  · exact hright
  · exact orderly_bind (orderly_unexpected _ ⟨rfl, by decide⟩ (Region.pos_of_node hl) (by decide)
      fun _ => by decide) fun _ => hright

omit hn in
theorem orderly_instanceOf : (instanceOf n left right).Orderly env r bound := by
  refine orderly_tagsOf hl hr fun l r' => ?_
  refine orderly_bind (orderly_markType_node _ _) fun _ => ?_
  have hright : (if r' != .func then unexpected .instanceofOpType
      "`instanceof` operation, unexpected operand type" r' Tag.func.name right.pos
      else pure () : Check Unit).Orderly env r bound :=
    orderly_when (orderly_unexpected _ ⟨rfl, by decide⟩ (Region.pos_of_node hr) (by decide)
      fun _ => by decide)
  dsimp only
  split
  · exact orderly_bind (orderly_unexpected _ ⟨rfl, by decide⟩ (Region.pos_of_node hl) (by decide)
      fun _ => by decide) fun _ => hright
  · exact hright

theorem orderly_binary (op : BinaryOp) : (binary env n op left right).Orderly env r bound := by
  cases op with
  | add => exact orderly_addition hn hl hr
  | lt | le | gt | ge => exact orderly_relational hn hl hr _
  | eq | notEq => exact orderly_looseEquality hn hl hr _
  | strictEq | strictNotEq => exact orderly_strictEquality hn hl hr _
  | in_ => exact orderly_membership hl hr
  | instanceof => exact orderly_instanceOf hl hr
  | _ => exact orderly_arithmetic hn hl hr _

end

theorem orderly_select (n : NodeId) {a b : NodeId} (ha : r.id a) (hb : r.id b) :
    (select n a b).Orderly env r bound := by
  refine orderly_tysOf ha hb fun l r' => ?_
  split
  · exact orderly_markType_node _ _
  · exact orderly_pure _

theorem orderly_inherit (n : NodeId) {source : NodeId} (h : r.id source) :
    (inherit n source).Orderly env r bound := by
  refine orderly_bind (orderly_ty? h) fun ty => ?_
  split
  · exact orderly_markType_node _ _
  · exact orderly_pure _

/-! Array literals and templates. -/

theorem orderly_arrayLiteral {n : Node} (hn : r.node n) {es : List Element}
    (hes : r.Has (Element.nodes es) (Element.returns es)) :
    (arrayLiteral n es).Orderly env r bound := by
  refine orderly_bind (orderly_markType_node _ _) fun _ => yields_getStore ?_ fun s hs _ => ?_
  · intro s _ store' hsame
    rw [hsame.inferArrayShape hes]
  · have hshape := Store.isCanonical_inferArrayShape hs.allShapes es
    refine orderly_bind (orderly_report ⟨rfl, by decide⟩ (Region.pos_of_node hn) fun _ => ?_)
      fun _ => orderly_put fun _ _ _ => ⟨trivial, hshape⟩
    simp +decide [hshape.oneLine]

theorem orderly_spread {pos : Position} (hpos : r.pos pos) {argument : NodeId}
    (h : r.id argument) (expected : Tag) :
    (spread pos argument expected).Orderly env r bound := by
  refine orderly_bind (orderly_tagOf h) fun found => ?_
  dsimp only
  split
  · exact orderly_unexpected _ ⟨rfl, by decide⟩ hpos (by decide) fun _ => expected.oneLine_name
  exact orderly_when (orderly_unexpected _ ⟨rfl, by decide⟩ hpos (by decide)
    fun _ => expected.oneLine_name)

theorem orderly_annotate {n : Node} (hn : r.node n) (text : String) (outer : Option NodeId) :
    (annotate n text outer).Orderly env r bound := by
  unfold annotate
  split
  · next shape hparse =>
    have hshape (m : NodeId) : (markShape (.node m) (some (.array shape))).Orderly env r bound :=
      orderly_markShape trivial (by
        rintro _ ⟨⟩
        exact ⟨trivial, ArrayShape.isCanonical_of_parse hparse⟩)
    cases outer with
    | none => exact hshape _
    | some m => exact orderly_bind (hshape _) fun _ => hshape _
  · next e hparse =>
    exact orderly_report ⟨rfl, by decide⟩ (Region.pos_of_node hn) fun _ =>
      (by decide : OneLine "(Type-Tag) ").append (Descriptor.oneLine_of_parse hparse)

theorem orderly_interpolated (tag : Tag) {label : String} (hlabel : r.plain → OneLine label)
    {shape : Option ArrayShape} (hshape : ∀ x ∈ shape, x.IsCanonical) {value : Expr}
    (h : r.Has value.nodes value.returns) :
    (interpolated tag label shape value).Orderly env r bound := by
  have hnode := Expr.node_of_has h
  have hid : Target.Within env r (.node value.id) := Region.id_of_node hnode
  refine orderly_bind (orderly_tagOf hid) fun found => ?_
  split
  · exact orderly_unexpected _ ⟨rfl, by decide⟩ (Region.pos_of_node hnode) (by decide) hlabel
  split
  · next shape =>
    refine yields_getStore (fun s hs store' hsame => ?_) fun s hs _ => orderly_unless ?_
    · have hfits := hsame.valueFits hs.closed.store shape h
      rw [hsame.shape? hid]
      cases value with
      | object => rfl
      | _ => simp only [hfits]
    · refine orderly_mismatched ⟨rfl, by decide⟩ ?_ (hs.shapes.shape? _)
        (Region.pos_of_node hnode) (by decide)
      rintro _ ⟨⟩
      exact ⟨trivial, hshape shape rfl⟩
  · exact orderly_pure _

theorem orderly_contents {n : Node} (hn : r.node n) (tag : Tag) {label : String}
    (hlabel : r.plain → OneLine label) {quasi : Template}
    (hparts : ∀ e ∈ quasi.parts, r.Has e.nodes e.returns) {shape : Option ArrayShape}
    (hshape : ∀ x ∈ shape, x.IsCanonical) :
    (contents n tag label quasi shape).Orderly env r bound := by
  unfold contents
  split
  · next text _ =>
    split
    · next e he =>
      exact orderly_report ⟨rfl, by decide⟩ (Region.pos_of_node hn) fun _ =>
        (by decide : OneLine "(Type-Tag) ").append (tag.plain_validateLiteral text hshape e he)
    · exact orderly_pure _
  · dsimp only
    split
    · exact orderly_forM fun e he => orderly_interpolated _ hlabel hshape (hparts e he)
    exact orderly_when (orderly_report ⟨rfl, by decide⟩ (Region.pos_of_node hn) fun _ => by decide)

theorem orderly_template {n : Node} (hn : r.node n) (tag : Tag) {label : String}
    (hlabel : r.plain → OneLine label) {quasi : Template}
    (hparts : ∀ e ∈ quasi.parts, r.Has e.nodes e.returns) (chained : Bool) :
    (template n tag label quasi chained).Orderly env r bound := by
  unfold template
  split
  · refine (yields_shape? (t := .node n.id) (Region.id_of_node hn)).bind fun _ x _ hx => ?_
    split
    · next shape hshape =>
      refine orderly_contents hn _ hlabel hparts ?_
      rintro _ ⟨⟩
      obtain ⟨y, hy, hshape⟩ := Option.bind_eq_some_iff.1 hshape
      exact Shape.Proper.isCanonical_of_asArray? (hx y hy) hshape
    · exact orderly_pure _
  · exact orderly_contents hn _ hlabel hparts (by simp)

/-! Assignments. -/

section

variable {b : BindingId} (hb : env.Binds b)

include hb

theorem orderly_typeBinding {name : String} (hname : r.plain → OneLine name) (ty : Ty)
    {pos : Position} (hpos : r.pos pos) : (typeBinding b name ty pos).Orderly env r bound := by
  refine orderly_getStore (fun s _ store' hsame => ?_) fun store => ?_
  · rw [hsame.hasTypeThisPass (t := .binding b) hb]
  split
  · exact orderly_pure _
  · refine orderly_bind (orderly_put fun _ _ _ => hb) fun _ => orderly_report ?_ hpos fun h => ?_
    · split <;> exact ⟨rfl, by decide⟩
    · simp +decide [hname h]

theorem orderly_reimply {i : Ident} (hi : r.ident i) (ty : Ty) :
    (reimply b i ty).Orderly env r bound := by
  refine orderly_bind (orderly_put fun _ _ _ => hb) fun _ =>
    orderly_report ?_ (Region.pos_of_node hi.1) fun h => ?_
  · split <;> exact ⟨rfl, by decide⟩
  · have hword : OneLine (if ty.isTagged then "with " else "to ") := by split <;> decide
    simp +decide only [oneLine_append, hi.2 h, hword, Ty.oneLine_provenance, Tag.oneLine_name]

theorem orderly_checkAssignedShape {source : Node} (hsource : r.node source)
    {literal : Option (List Element)}
    (hliteral : ∀ es ∈ literal, r.Has (Element.nodes es) (Element.returns es)) :
    (checkAssignedShape b source literal).Orderly env r bound := by
  have hid : Target.Within env r (.node source.id) := Region.id_of_node hsource
  refine yields_getStore (fun s hs store' hsame => ?_) fun s hs _ => ?_
  · rw [hsame.shape? (t := .binding b) hb, hsame.shape? hid]
    cases htarget : s.store.shape? (.binding b) with
    | none => rfl
    | some target =>
      have hfits := hsame.fits hs.closed.store (hs.closed.store.shapes (.node source.id))
        (y := some target) (by rintro _ ⟨⟩; exact hs.closed.store.shapes _ _ htarget)
      cases literal with
      | none => simp only [hfits]
      | some es =>
        cases target with
        | func id => simp only [hfits]
        | array x => simp only [ArrayShape.admits_same hsame hs.closed.store x es (hliteral es rfl)]
  · split
    · exact orderly_pure _
    · next target htarget =>
      refine orderly_unless (orderly_mismatched ⟨rfl, by decide⟩ ?_ (hs.shapes.shape? _)
        (Region.pos_of_node hsource) (by decide))
      rintro _ ⟨⟩
      exact hs.shapes.shape? _ _ htarget

theorem orderly_unifyType {i : Ident} (hi : r.ident i) {source : Node}
    (hsource : r.node source) {literal : Option (List Element)}
    (hliteral : ∀ es ∈ literal, r.Has (Element.nodes es) (Element.returns es)) (ty : Ty) :
    (unifyType b i source literal ty).Orderly env r bound := by
  refine orderly_getStore (fun s _ store' hsame => ?_) fun store => ?_
  · rw [hsame.hasTypeThisPass (t := .binding b) hb]
  split
  · refine orderly_bind (orderly_markType_node _ _) fun _ => ?_
    refine orderly_bind (orderly_typeBinding hb hi.2 _ (Region.pos_of_node hi.1)) fun _ => ?_
    exact (orderly_note hb).2
  · refine orderly_bind (orderly_tagOf (t := .binding b) hb) fun target => ?_
    split
    · exact orderly_checkAssignedShape hb hsource hliteral
    split
    · exact orderly_reimply hb hi ty
    · exact orderly_unexpected _ ⟨rfl, by decide⟩ (Region.pos_of_node hsource) (by decide)
        fun _ => Tag.oneLine_name _

theorem orderly_unifyShape (node : Option NodeId) {shape : Option Shape}
    (hshape : ∀ x ∈ shape, x.Proper bound) : (unifyShape node b shape).Orderly env r bound := by
  refine orderly_getStore (fun s _ store' hsame => ?_) fun store => ?_
  · rw [hsame.hasShapeThisPass (t := .binding b) hb]
  split
  · refine orderly_bind (orderly_note hb).2 fun _ => ?_
    refine orderly_bind (orderly_markShape hb hshape) fun _ => ?_
    split
    · exact orderly_markShape trivial hshape
    · exact orderly_pure _
  · exact orderly_pure _

end

theorem orderly_assignIdent (node : Option NodeId) {source : Node} (hsource : r.node source)
    {literal : Option (List Element)}
    (hliteral : ∀ es ∈ literal, r.Has (Element.nodes es) (Element.returns es)) {i : Ident}
    (hi : r.ident i) : (assignIdent env node source literal i).Orderly env r bound := by
  have hid : Target.Within env r (.node source.id) := Region.id_of_node hsource
  unfold assignIdent
  split
  · exact orderly_report ⟨rfl, by decide⟩ (Region.pos_of_node hi.1) fun _ => by decide
  · next b hbind =>
    have hb : env.Binds b := ⟨i, hbind⟩
    refine orderly_bind (orderly_knownType? hid) fun found => ?_
    split
    · refine orderly_getStore (fun s _ store' hsame => ?_) fun store => ?_
      · rw [hsame.isUntyped (t := .binding b) hb]
      split
      · exact (orderly_note hb).1
      · exact orderly_pure _
    · next ty =>
      refine (yields_shape? hid).bind fun bound' shape _ hshape => ?_
      have hunify : (do unifyType b i source literal ty; unifyShape node b shape :
          Check Unit).Orderly env r bound' :=
        orderly_bind (orderly_unifyType hb hi hsource hliteral ty) fun _ =>
          orderly_unifyShape hb node hshape
      split
      · exact orderly_bind (orderly_markType_node _ _) fun _ => hunify
      · exact hunify

theorem orderly_markDestructured (node : Option NodeId) {value : Expr} (h : r.node value.node)
    (otherwise : Tag) : (markDestructured node value otherwise).Orderly env r bound := by
  unfold markDestructured
  split
  · exact orderly_bind (orderly_knownType? (Region.id_of_node h)) fun _ =>
      orderly_markType_node _ _
  · exact orderly_pure _

mutual

theorem orderly_assign (node : Option NodeId) {value : Expr}
    (h : r.Has value.nodes value.returns) : (target : Pattern) →
      (∀ i ∈ target.idents, r.ident i) → (assign env node value target).Orderly env r bound
  | .ident i, hi => by
    rw [assign]
    refine orderly_assignIdent node (Expr.node_of_has h) (fun es hes => ?_)
      (hi i (List.mem_singleton_self i))
    simpa [Option.mem_def.1 hes] using Expr.has_arrayElements? h
  | .array _ targets, hi => by
    rw [assign]
    exact orderly_bind (orderly_markDestructured node (Expr.node_of_has h) _) fun _ =>
      orderly_assignElements _ (Expr.has_arrayElements? h) targets hi
  | .object _ props, hi => by
    rw [assign]
    exact orderly_bind (orderly_markDestructured node (Expr.node_of_has h) _) fun _ =>
      orderly_assignProps (Expr.has_objectProps? h) props hi
  | .withDefault _ target _, hi => by
    rw [assign]
    exact orderly_assign node h target hi
  | .rest _ _, _ => by
    rw [assign]
    exact orderly_pure _

theorem orderly_assignElements : (es : List Element) →
    r.Has (Element.nodes es) (Element.returns es) → (ps : List (Option Pattern)) →
      (∀ i ∈ Pattern.identsOfElements ps, r.ident i) →
      (assignElements env es ps).Orderly env r bound
  | .item e :: es, h, some p :: ps, hi => by
    simp only [Element.nodes, Element.returns, Region.has_append] at h
    simp only [Pattern.identsOfElements, List.forall_mem_append] at hi
    rw [assignElements]
    exact orderly_bind (orderly_assign none h.1 p hi.1) fun _ =>
      orderly_assignElements es h.2 ps hi.2
  | .item e :: es, h, none :: ps, hi => by
    simp only [Element.nodes, Element.returns, Region.has_append] at h
    rw [assignElements]
    · exact orderly_assignElements es h.2 ps hi
    · simp
  | .hole :: es, h, p :: ps, hi => by
    simp only [Element.nodes, Element.returns] at h
    rw [assignElements]
    · exact orderly_assignElements es h ps fun i hi' =>
        hi i (Pattern.identsOfElements_subset p ps hi')
    · simp
  | .spread n e :: es, h, p :: ps, hi => by
    simp only [Element.nodes, Element.returns, Region.has_append, Region.has_cons] at h
    rw [assignElements]
    · exact orderly_assignElements es h.2.2 ps fun i hi' =>
        hi i (Pattern.identsOfElements_subset p ps hi')
    · simp
  | [], _, _, _ => by
    rw [assignElements]
    exact orderly_pure _
    all_goals simp
  | _ :: _, _, [], _ => by
    rw [assignElements]
    exact orderly_pure _
    all_goals simp

theorem orderly_assignProps {source : List Property}
    (h : r.Has (Property.nodes source) (Property.returns source)) : (ps : List PatternProp) →
      (∀ i ∈ PatternProp.identsOfProps ps, r.ident i) →
      (assignProps env source ps).Orderly env r bound
  | [], _ => by
    rw [assignProps]
    exact orderly_pure _
  | .prop key p :: ps, hi => by
    simp only [PatternProp.identsOfProps, List.forall_mem_append] at hi
    rw [assignProps]
    split
    · next e he =>
      exact orderly_bind (orderly_assign none (Property.has_find? h he) p hi.1) fun _ =>
        orderly_assignProps h ps hi.2
    · exact orderly_assignProps h ps hi.2
  | .rest p :: ps, hi => by
    simp only [PatternProp.identsOfProps, List.forall_mem_append] at hi
    rw [assignProps]
    exact orderly_assignProps h ps hi.2

end

theorem orderly_declare {i : Ident} (hi : r.ident i) : (declare env i).Orderly env r bound := by
  unfold declare
  split
  · next b hbind =>
    have hb : env.Binds b := ⟨i, hbind⟩
    have htype : (typeBinding b i.name (.inferred .undef) i.node.pos).Orderly env r bound :=
      orderly_typeBinding hb hi.2 _ (Region.pos_of_node hi.1)
    refine orderly_getStore (fun s _ store' hsame => ?_) fun store => ?_
    · rw [hsame.isTouched]
    split
    · exact orderly_bind (orderly_note hb).2 fun _ => htype
    · exact htype
  · exact orderly_pure _

theorem orderly_assignDefault (n : NodeId) {target : Pattern}
    (hi : ∀ i ∈ target.idents, r.ident i) {value : Expr}
    (h : r.Has value.nodes value.returns) :
    (assignDefault env n target value).Orderly env r bound := by
  have hassign : (assign env (some n) value target).Orderly env r bound :=
    orderly_assign (some n) h target hi
  unfold assignDefault
  split
  · next b hbind =>
    obtain ⟨i, -, hb⟩ := Option.bind_eq_some_iff.1 hbind
    refine orderly_getStore (fun s _ store' hsame => ?_) fun store => ?_
    · rw [hsame.isUntyped (t := .node value.id) (Region.id_of_node (Expr.node_of_has h))]
    split
    · exact orderly_bind (orderly_note ⟨i, hb⟩).1 fun _ => hassign
    · exact hassign
  · exact hassign

theorem orderly_rest (n : NodeId) {argument : Pattern}
    (h : ∀ i ∈ argument.asIdent?, r.ident i) : (rest env n argument).Orderly env r bound := by
  refine orderly_bind (orderly_markType_node _ _) fun _ => ?_
  split
  · next i hi =>
    have hpos := Region.pos_of_node (h i hi).1
    split
    · exact orderly_report ⟨rfl, by decide⟩ hpos fun _ => by decide
    · next b hbind =>
      refine orderly_bind (orderly_tagOf (t := .binding b) ⟨i, hbind⟩) fun found => ?_
      split
      · exact orderly_typeBinding ⟨i, hbind⟩ (h i hi).2 _ hpos
      · exact orderly_when (orderly_unexpected _ ⟨rfl, by decide⟩ hpos (by decide) fun _ => by decide)
  · exact orderly_pure _

theorem orderly_readIdentifier (i : Ident) (role : Role) :
    (readIdentifier env i role).Orderly env r bound := by
  unfold readIdentifier
  dsimp only
  cases hbind : env.bindingOf? i with
  | none =>
    cases globalTag? i.name with
    | none => exact orderly_pure _
    | some t => exact orderly_markType_node _ _
  | some b =>
    have hb : env.Binds b := ⟨i, hbind⟩
    refine orderly_bind (orderly_knownType? (t := .binding b) hb) fun ty? => ?_
    split
    · next hsome =>
      obtain rfl := Option.some.inj hsome
      refine orderly_bind (orderly_markType_node _ _) fun _ => ?_
      exact (yields_shape? (t := .binding b) hb).bind fun _ _ _ hshape =>
        orderly_markShape trivial hshape
    · exact orderly_markType_node _ _
    · next hsome _ _ =>
      obtain rfl := Option.some.inj hsome
      exact orderly_when (orderly_note hb).1
    · exact orderly_pure _

theorem orderly_identifier {i : Ident} (hi : r.ident i) {role : Role} (hrole : role.In r) :
    (identifier env i role).Orderly env r bound := by
  unfold identifier
  split
  · unfold tagIdentifier
    split <;> exact orderly_markType_node _ _
  · exact orderly_assignIdent _ hrole (by simp) hi
  · exact orderly_readIdentifier i _

/-! Functions and calls. -/

theorem orderly_enterFunction (n : NodeId) {f : FuncId} (hf : r.func f) :
    (enterFunction n f).Orderly env r bound := by
  refine orderly_bind (orderly_markType_node _ _) fun _ => ?_
  refine (yields_functionShape hf).bind fun bound' place _ hplace => ?_
  obtain ⟨id, created⟩ := place
  have henter : (do markShape (.node n) (some (.func id)); put (.enter id) :
      Check Unit).Orderly env r bound' := by
    refine orderly_bind (orderly_markShape trivial ?_) fun _ => ?_
    · rintro _ ⟨⟩
      exact ⟨hplace, trivial⟩
    · exact orderly_put fun _ _ hle => Nat.lt_of_lt_of_le hplace hle
  dsimp only
  split
  · exact henter
  · refine orderly_bind (orderly_modifyReturn hplace fun _ _ _ h => h) fun _ => henter

theorem orderly_parametersFrom {id : FuncShapeId} (hid : id < bound) (idx : Nat)
    {ps : List Pattern} (hps : ∀ p ∈ ps, r.node p.node) :
    (parametersFrom env id idx ps).Orderly env r bound := by
  induction ps generalizing idx bound with
  | nil => exact orderly_pure _
  | cons p ps ih =>
    rw [List.forall_mem_cons] at hps
    have hp : Target.Within env r (.node p.id) := Region.id_of_node hps.1
    refine orderly_bind (orderly_knownType? hp) fun found => ?_
    split
    · split
      · exact orderly_modifyFunc hid fun _ _ _ h => ⟨h.params, h.ret⟩
      · refine (yields_shape? hp).bind fun bound' shape hle hshape => ?_
        have hid' := Nat.lt_of_lt_of_le hid hle
        refine orderly_bind (orderly_modifyFunc hid' fun _ _ hle' h => ?_) fun _ => ih hid' _ hps.2
        exact h.setParam idx _ fun x hx => (hshape x hx).mono hle'
    · refine (yields_func? hid).bind fun bound' f hle _ => ?_
      have hid' := Nat.lt_of_lt_of_le hid hle
      dsimp only
      split
      · exact ih hid' _ hps.2
      · refine orderly_bind (orderly_modifyFunc hid' fun _ _ _ h => h.append (by simp)) fun _ => ?_
        split
        · next b hbind =>
          obtain ⟨i, -, hb⟩ := Option.bind_eq_some_iff.1 hbind
          exact orderly_bind (orderly_note ⟨i, hb⟩).1 fun _ => ih hid' _ hps.2
        · exact ih hid' _ hps.2

theorem orderly_parameters {params : List Pattern} (h : ∀ p ∈ params, r.node p.node) :
    (parameters env params).Orderly env r bound := by
  refine yields_frame?.bind fun bound' frame _ hframe => ?_
  split
  · next id => exact orderly_parametersFrom (hframe id rfl) 0 h
  · exact orderly_pure _

theorem orderly_settleResult {id : FuncShapeId} (hid : id < bound) {result : Option NodeId}
    (h : ∀ n ∈ result, r.id n) : (settleResult id result).Orderly env r bound := by
  cases result with
  | none =>
    rw [settleResult]
    refine orderly_modifyReturn hid fun _ ret _ h => ?_
    split <;> exact h
  | some n =>
    have hn : Target.Within env r (.node n) := h n rfl
    rw [settleResult]
    refine orderly_bind (orderly_knownType? hn) fun ty =>
      (yields_shape? hn).bind fun bound' shape hle hshape => ?_
    have hid' := Nat.lt_of_lt_of_le hid hle
    refine orderly_bind (orderly_modifyReturn hid' fun _ ret hle' h => ?_) fun _ =>
      orderly_when (orderly_note_ret hid').2
    exact Shape.forall_orElse (fun x hx => (hshape x hx).mono hle') h

theorem orderly_leaveFunction {pos : Position} (hpos : r.pos pos) {name : String}
    (hname : r.plain → OneLine name) {result : Option NodeId} (h : ∀ n ∈ result, r.id n) :
    (leaveFunction pos name result).Orderly env r bound := by
  refine yields_frame?.bind fun bound' frame _ hframe => ?_
  split
  · next id =>
    have hid := hframe id rfl
    refine orderly_bind (orderly_settleResult hid h) fun _ => ?_
    have hshape : ∀ x ∈ some (Shape.func id), x.Proper bound' := by
      rintro _ ⟨⟩
      exact ⟨hid, trivial⟩
    refine (yields_describe hshape).bind fun _ description _ htext => ?_
    refine orderly_bind (orderly_report ⟨rfl, by decide⟩ hpos fun h => ?_) fun _ =>
      orderly_put fun _ _ _ => trivial
    simp +decide [hname h, htext]
  · exact orderly_pure _

theorem orderly_meetResult {id : FuncShapeId} (hid : id < bound) (ty : Ty) {shape : Option Shape}
    (hshape : ∀ x ∈ shape, x.Proper bound) {pos : Position} (hpos : r.pos pos) :
    (meetResult id ty shape pos).Orderly env r bound := by
  refine (yields_func? hid).bind fun bound' found hle hfound => ?_
  have hid' := Nat.lt_of_lt_of_le hid hle
  have hshape' (x : Shape) (hx : x ∈ shape) := (hshape x hx).mono hle
  split
  · next f =>
    have hret := (hfound f rfl).ret
    split
    · refine orderly_when (orderly_modifyReturn hid' fun _ ret hle' h => ?_)
      exact Shape.forall_orElse (fun x hx => (hshape' x hx).mono hle') h
    split
    · exact orderly_unexpected _ ⟨rfl, by decide⟩ hpos (by decide) fun _ => Tag.oneLine_name _
    · exact orderly_bind (orderly_shapeFits hshape' hret) fun fits =>
        orderly_when (orderly_mismatched ⟨rfl, by decide⟩ hret hshape' hpos (by decide))
  · exact orderly_pure _

theorem orderly_return {pos : Position} (hpos : r.return_ pos) {argument : Option Expr}
    (h : ∀ e ∈ argument, r.node e.node) : (return_ env pos argument).Orderly env r bound := by
  refine yields_frame?.bind fun bound' frame _ hframe => ?_
  split
  · next id =>
    have hid := hframe id rfl
    refine orderly_getStore (fun s _ store' hsame => ?_) fun store => orderly_unless ?_
    · rw [funext (hsame.isSelfCall id)]
    refine orderly_bind (orderly_modifyReturn hid fun _ _ _ h => h) fun _ => ?_
    split
    · next e =>
      have he : Target.Within env r (.node e.id) := Region.id_of_node (h e rfl)
      refine orderly_bind (orderly_knownType? he) fun ty =>
        (yields_shape? he).bind fun bound'' shape hle hshape => ?_
      have hid' := Nat.lt_of_lt_of_le hid hle
      have hmeet : (meetResult id (ty.getD .unknown) shape e.pos).Orderly env r bound'' :=
        orderly_meetResult hid' _ hshape (Region.pos_of_node (h e rfl))
      split
      · exact orderly_bind (orderly_note_ret hid').2 fun _ => hmeet
      · exact hmeet
    · exact orderly_bind (orderly_note_ret hid).2 fun _ =>
        orderly_meetResult hid _ (by simp) (.inl hpos)
  · exact orderly_pure _

theorem yields_calleeShape? (n : NodeId) {callee : Expr} (h : r.Has callee.nodes callee.returns) :
    (calleeShape? env n callee).Yields env r bound fun bound' x => ∀ id ∈ x, id < bound' := by
  unfold calleeShape?
  split
  · next i =>
    split
    · next result _ =>
      refine (yields_nativeShape i.name result).bind fun bound' id _ hid => ?_
      refine (orderly_markType_node _ _).bind fun bound'' _ hle _ => yields_pure fun b hle' => ?_
      simpa using Nat.lt_of_lt_of_le hid (Nat.le_trans hle hle')
    · refine yields_look (fun _ _ _ _ hsame => ?_) fun s hs id hid => ?_
      · exact congrArg (·.bind Shape.asFunc?) (hsame.shapeOfIdent i)
      obtain ⟨x, hx, hid⟩ := Option.bind_eq_some_iff.1 hid
      obtain ⟨b, -, hx⟩ := Option.bind_eq_some_iff.1 hx
      have hbelow := hs.closed.store.shapes (.binding b) x hx
      cases x with
      | func k =>
        cases hid
        exact hbelow
      | array a => cases hid
  · next f =>
    simp only [Expr.nodes, Expr.returns, Region.has_cons] at h
    exact yields_look (fun _ _ _ _ hsame => hsame.functions f.func (h.1.2 f rfl))
      fun s hs => hs.functions f.func
  · exact yields_pure (by simp)

theorem orderly_implyParam {id : FuncShapeId} (hid : id < bound) (origin : FuncId) (idx : Nat)
    (ty : Ty) {shape : Option Shape} (hshape : ∀ x ∈ shape, x.Proper bound) {pos : Position}
    (hpos : r.pos pos) : (implyParam env id origin idx ty shape pos).Orderly env r bound := by
  unfold implyParam
  dsimp only
  split
  · next param i inner hparam himplied =>
    have hname (h : r.plain) : OneLine i.name := by
      obtain ⟨f, hf, hparam⟩ := Option.bind_eq_some_iff.1 hparam
      rw [hf, Option.bind_some, hparam] at himplied
      exact r.params h origin f hf param (List.mem_of_getElem? hparam) i inner himplied
    have hcode : .info = (if ty.isTagged then Code.implyParamFromArgTagged
        else .implyParamFromArgInferred).severity env.strictEquality ∧
        (if ty.isTagged then Code.implyParamFromArgTagged else .implyParamFromArgInferred) ≠
          .tooManyPasses := by
      split <;> exact ⟨rfl, by decide⟩
    have hreport {bound' : Nat} (b : BindingId) (described : String) (hb : env.Binds b)
        (hdescribed : OneLine described) (hle : bound ≤ bound') : (do
          markShape (.binding b) shape
          info (if ty.isTagged then Code.implyParamFromArgTagged else .implyParamFromArgInferred)
            ("Implying parameter " ++ i.name ++ " from argument, as " ++ ty.provenance ++ " '"
              ++ ty.tag.name ++ "'" ++ described) pos : Check Unit).Orderly env r bound' := by
      refine orderly_bind (orderly_markShape hb fun x hx => (hshape x hx).mono hle) fun _ =>
        orderly_report hcode hpos fun h => ?_
      simp +decide [hname h, hdescribed]
    split
    refine orderly_bind (orderly_markType_node _ _) fun _ => ?_
    all_goals
      split
      · next b hbind =>
        have hb : env.Binds b := ⟨i, hbind⟩
        refine orderly_bind (orderly_modifyFunc hid fun _ _ hle h =>
          h.implyParam idx ty fun x hx => (hshape x hx).mono hle) fun _ => ?_
        refine orderly_bind (orderly_markType_node _ _) fun _ => ?_
        refine orderly_bind (orderly_put fun _ _ _ => hb) fun _ => ?_
        refine orderly_bind (orderly_note hb).2 fun _ => ?_
        split
        · refine (yields_describe hshape).bind fun _ text hle htext => ?_
          exact (yields_pure fun _ _ => by simp +decide [htext]).bind fun _ text hle' htext =>
            hreport b text hb htext (Nat.le_trans hle hle')
        · exact (yields_pure fun _ _ => by decide).bind fun _ text hle htext =>
            hreport b text hb htext hle
      · exact orderly_pure _
  · exact orderly_pure _

theorem orderly_argument {id : FuncShapeId} (hid : id < bound) (origin : Option FuncId) (idx : Nat)
    {param : Slot} (hparam : ∀ x ∈ param.shape, x.Proper bound) {arg : Expr}
    (harg : r.node arg.node) : (argument env id origin idx param arg).Orderly env r bound := by
  have hpos := Region.pos_of_node harg
  have hnode := Region.id_of_node harg
  refine orderly_bind (orderly_tyOf hnode) fun ty =>
    (yields_shape? (t := .node arg.id) hnode).bind fun bound' shape hle hshape => ?_
  have hparam' (x : Shape) (hx : x ∈ param.shape) := (hparam x hx).mono hle
  split
  · split
    · exact orderly_unexpected _ ⟨rfl, by decide⟩ hpos (by decide) fun _ => Tag.oneLine_name _
    · exact orderly_bind (orderly_shapeFits hshape hparam') fun fits =>
        orderly_when (orderly_mismatched ⟨rfl, by decide⟩ hparam' hshape hpos (by decide))
  split
  · split
    · exact orderly_implyParam (Nat.lt_of_lt_of_le hid hle) _ idx ty hshape hpos
    · exact orderly_pure _
  · exact orderly_pure _

theorem orderly_argumentsFrom {pos : Position} (hpos : r.pos pos) {id : FuncShapeId}
    (hid : id < bound) (origin : Option FuncId) (idx : Nat) {args : List Element}
    (hargs : r.Has (Element.nodes args) (Element.returns args)) {params : List Slot}
    (hparams : ∀ p ∈ params, ∀ x ∈ p.shape, x.Proper bound) :
    (argumentsFrom env pos id origin idx args params).Orderly env r bound := by
  fun_induction argumentsFrom with
  | case1 => exact orderly_report ⟨rfl, by decide⟩ hpos fun _ => by decide
  | case2 idx e es p ps ih =>
    simp only [Element.nodes, Element.returns, Region.has_append] at hargs
    rw [List.forall_mem_cons] at hparams
    exact orderly_bind (orderly_argument hid origin idx hparams.1 (Expr.node_of_has hargs.1))
      fun _ => ih hargs.2 hparams.2
  | case3 => exact orderly_pure _

theorem orderly_argumentCount {pos : Position} (hpos : r.pos pos) (f : FuncShape)
    (args : List Element) : (argumentCount pos f args).Orderly env r bound := by
  refine orderly_when ?_
  split
  · exact orderly_report ⟨rfl, by decide⟩ hpos fun _ => by simp +decide
  · exact orderly_report ⟨rfl, by decide⟩ hpos fun _ => by simp +decide

theorem orderly_callResult (n : NodeId) {id : FuncShapeId} (hid : id < bound) {ret : ReturnSlot}
    (hret : ∀ x ∈ ret.shape, x.Proper bound) (selfTail : Bool) :
    (callResult n id ret selfTail).Orderly env r bound := by
  have htail : (if !ret.isDefault && ret.ty.isKnown then markShape (.node n) ret.shape
      else if selfTail then pure () else touch (.ret id) : Check Unit).Orderly env r bound := by
    split
    · exact orderly_markShape trivial hret
    · exact orderly_unless (orderly_note_ret hid).1
  unfold callResult
  dsimp only
  split
  · exact htail
  · exact orderly_bind (orderly_markType_node _ _) fun _ => htail

theorem orderly_call {n : Node} (hn : r.node n) {callee : Expr}
    (hcallee : r.Has callee.nodes callee.returns)
    (hname : r.plain → ∀ i ∈ callee.asIdent?, OneLine i.name) {args : List Element}
    (hargs : r.Has (Element.nodes args) (Element.returns args)) (tail : Bool) :
    (call env n callee args tail).Orderly env r bound := by
  have hpos := Region.pos_of_node hn
  refine orderly_getStore (fun s _ store' hsame => ?_) fun store => ?_
  · simp only [hsame.isSelfCall]
  refine yields_frame?.bind fun _ frame _ _ => ?_
  refine (yields_calleeShape? n.id hcallee).bind fun bound' id? _ hid? => ?_
  split
  · split
    · next i hi =>
      refine orderly_bind (orderly_report ⟨rfl, by decide⟩ hpos fun h => ?_) fun _ => ?_
      · simp +decide [hname h i hi]
      split
      · next b hb => exact (orderly_note ⟨i, hb⟩).1
      · exact orderly_pure _
    · exact orderly_pure _
  · next id =>
    refine (yields_func? (hid? id rfl)).bind fun bound'' f? hle hf => ?_
    have hid := Nat.lt_of_lt_of_le (hid? id rfl) hle
    split
    · next f =>
      refine orderly_bind (orderly_callResult n.id hid (hf f rfl).ret _) fun _ => ?_
      refine orderly_bind (orderly_argumentCount hpos f args) fun _ => ?_
      exact orderly_argumentsFrom hpos hid f.origin 0 hargs (hf f rfl).params
    · exact orderly_pure _

end

end Check

/-- The names and the label that the rule of a visit may show are of one line. -/
def Visit.OneLine : Visit → Prop
  | identifier i _ | declare i => Text.OneLine i.name
  | assign _ _ target | assignDefault _ target _ => ∀ i ∈ target.idents, Text.OneLine i.name
  | rest _ argument => ∀ i ∈ argument.asIdent?, Text.OneLine i.name
  | call _ callee _ _ => ∀ i ∈ callee.asIdent?, Text.OneLine i.name
  | leaveFunction _ name _ => Text.OneLine name
  | template _ _ label _ _ => Text.OneLine label
  | _ => True

/-- The visit is in the region, and what it shows is of one line if texts are. -/
def Visit.On {env : CheckEnv} (r : Scene env) (v : Visit) : Prop := v.In r ∧ (r.plain → v.OneLine)

theorem Region.on_scene {r : Region} (env : CheckEnv) {v : Visit} (h : v.In r) :
    v.On (r.scene env) :=
  ⟨h, False.elim⟩

/-- The rule of a visit looks, writes and reports within the region that the visit is in. -/
theorem Visit.orderly_apply {env : CheckEnv} {r : Scene env} {bound : Nat} {v : Visit}
    (h : v.On r) : (v.apply env).Orderly env r bound := by
  obtain ⟨h, hplain⟩ := h
  cases v with
  | infer n t => exact Check.orderly_markType_node n _
  | identifier i role => exact Check.orderly_identifier ⟨h.1, hplain⟩ h.2
  | enterFunction n f => exact Check.orderly_enterFunction n h.2
  | parameters params => exact Check.orderly_parameters h
  | leaveFunction pos name result => exact Check.orderly_leaveFunction h.1 hplain h.2
  | return_ pos argument => exact Check.orderly_return h.1 h.2
  | condition code label n => exact Check.orderly_condition h.1 h.2
  | declare i => exact Check.orderly_declare ⟨h, hplain⟩
  | assign n value target =>
    exact Check.orderly_assign n h.2.1 target fun i hi => ⟨h.2.2 i hi, fun hp => hplain hp i hi⟩
  | assignDefault n target value =>
    exact Check.orderly_assignDefault n (fun i hi => ⟨h.2.2 i hi, fun hp => hplain hp i hi⟩) h.2.1
  | rest n argument =>
    exact Check.orderly_rest n fun i hi => ⟨h.2 i hi, fun hp => hplain hp i hi⟩
  | spread pos argument expected => exact Check.orderly_spread h.1 h.2 expected
  | arrayLiteral n es => exact Check.orderly_arrayLiteral h.1 h.2
  | unary n op argument => exact Check.orderly_unary n op h.2
  | update n op argument => exact Check.orderly_update n op h.2
  | binary n op left right => exact Check.orderly_binary h.1 h.2.1 h.2.2 op
  | select n a b => exact Check.orderly_select n h.2.1 h.2.2
  | inherit n source => exact Check.orderly_inherit n h.2
  | call n callee args tail => exact Check.orderly_call h.1 h.2.1 hplain h.2.2 tail
  | annotate n text outer => exact Check.orderly_annotate h.1 text outer
  | template n tag label quasi chained =>
    exact Check.orderly_template h.1 tag hplain (Expr.has_list.1 h.2) chained

theorem Visit.orderly_of_proper {env : CheckEnv} {r : Scene env} {v : Visit} (h : v.On r)
    {s : CheckState} (hs : s.Proper) :
    (v.apply env).Ensures (fun s w => w.Orderly env r s) (fun _ _ => True) s ∧
      (v.apply env).LooksWithin env r s :=
  orderly_apply h s hs (Nat.zero_le _)

/-! From the rules to runs. -/

theorem CheckState.Proper.beginPass {s : CheckState} (h : s.Proper) : s.beginPass.Proper :=
  ⟨Store.allShapes_of h.shapes.shape? h.shapes.get?, h.functions, h.natives,
    by simp [CheckState.beginPass]⟩

namespace Check

variable {env : CheckEnv} {r : Scene env} {visits : List Visit}

theorem orderly_moments (hvisits : ∀ v ∈ visits, v.On r) {s : CheckState} (hs : s.Proper) :
    (∀ m ∈ moments env visits s, m.before.Proper ∧ m.write.Orderly env r m.before) ∧
      (visits.foldl (visit env) s).Proper := by
  refine forall_moments (G := fun s w => s.Proper ∧ w.Orderly env r s) (I := CheckState.Proper)
    (fun v hv s hs => ?_) hs
  have hvisit := (Visit.orderly_of_proper (hvisits v hv) hs).1
  exact (hvisit.invariant hs fun s w hs hw => hw.proper hs).imp fun _ _ h => h.1

theorem proper_pass (hvisits : ∀ v ∈ visits, v.On r) {s : CheckState} (hs : s.Proper) :
    (pass env visits s).Proper :=
  (orderly_moments hvisits hs.beginPass).2

end Check

namespace Program

variable {p : Program} {config : Config} {s : CheckState}

theorem visits_on {r : Region} (h : r.Has p.nodes p.returns) (env : CheckEnv) :
    ∀ v ∈ p.visits, v.On (r.scene env) :=
  fun v hv => Region.on_scene env (visits_in h v hv)

theorem proper_initialState (p : Program) : (p.initialState p.resolve).Proper where
  shapes := Store.allShapes_of (fun t x hx => by simp [initialState, Store.shape?] at hx)
    fun id f hf => by simp [initialState, Store.new, Arena.get?] at hf
  functions f id h := by
    simp only [Store.functionShape?, initialState, Store.new, Array.getElem?_replicate] at h
    split at h <;> cases h
  natives := by simp [initialState, Store.new]
  frames := by simp [initialState]

/-- Every program is in the region of everything. -/
theorem has_everything (p : Program) :
    Region.Has ⟨fun _ => True, fun _ => True, fun _ => True⟩ p.nodes p.returns :=
  ⟨fun _ _ => trivial, fun _ _ _ _ => trivial, fun _ _ => trivial⟩

theorem proper_of_mem_history (hs : s ∈ p.history config) : s.Proper := by
  refine Check.forall_history (I := CheckState.Proper) (fun _ hs => hs.beginPass)
    (fun v hv s hs => ?_) p.proper_initialState s hs
  have hvisit := (Visit.orderly_of_proper (visits_on p.has_everything (p.checkEnv config) v hv) hs).1
  exact (hvisit.invariant hs fun s w hs hw => hw.proper hs).mono
    (fun _ _ h => h.2.proper h.1) fun _ _ h => h.1

theorem proper_of_mem_passStarts (hs : s ∈ p.passStarts config) : s.Proper :=
  Check.forall_starts (P := CheckState.Proper)
    (fun _ hs => Check.proper_pass (visits_on p.has_everything _) hs) p.proper_initialState s hs

end Program

end TagCheck
