import TagCheck.Proofs.Check.FunctionSites
import TagCheck.Proofs.Check.Trace
import TagCheck.Proofs.Check.ValueLiterals
import TagCheck.Proofs.Check.Window
import TagCheck.Proofs.Scope.FreeNames

/-! A variable with the tag `any`. A value of whatever type can be assigned to it. But the variable
keeps the first shape that it meets, and from then on a value that is not of that shape is refused,
also at the start of the next pass. -/
namespace TagCheck

/-! What leaves a binding as it is. -/

variable {P : NodeId → Prop} {env : CheckEnv} {b : BindingId}

theorem Write.Ordinary.of_target? {B : BindingId → Prop}
    {own : FuncShapeId → FuncShape → FuncShape → Prop} {R : Prop} {w : Write}
    (h : w.Ordinary True P B own R) (hw : w.target? = some (.binding b)) : B b := by
  cases w with
  | type t ty =>
    obtain rfl := Option.some.inj hw
    exact h.1
  | shape t x =>
    obtain rfl := Option.some.inj hw
    exact h
  | reimply b' ty =>
    obtain ⟨rfl⟩ : b' = b := by simpa [target?] using hw
    exact h.1
  | _ => simp [target?] at hw

namespace Check

theorem Ensures.cell_binding {m : Check α} {s : CheckState} {Q : α → CheckState → Prop}
    (h : m.Ensures (fun _ w => w.target? ≠ some (.binding b)) Q s) :
    (m.run s).2.store.cell (.binding b) = s.store.cell (.binding b) := by
  have hkeep := h.invariant (I := fun t => t.store.cell (.binding b) = s.store.cell (.binding b))
    rfl fun t w ht hw => by
      rw [Write.store_apply, Write.cell_onStore_of_target?_ne hw, ht]
  exact (ensures_iff_trace.1 hkeep).2.1

/-- Functions are entered and left without a look at the variables. -/
theorem ensures_bracket {v : Visit} (h : v.isBracket = true) (s : CheckState) :
    (v.apply env).Ensures (fun _ w => w.target? ≠ some (.binding b)) (fun _ _ => True) s := by
  cases v with
  | enterFunction n f =>
    change (enterFunction n f).Ensures _ _ s
    simp [enterFunction, Write.target?]
  | leaveFunction pos name result =>
    change (leaveFunction pos name result).Ensures _ _ s
    refine ensures_bind.2 ?_
    rw [ensures_frame?]
    split
    · cases result <;> simp [settleResult, Write.target?]
    · trivial
  | _ => cases h

/-- A visit that does not bind a variable leaves it as it is. -/
theorem cell_binding_visit
    (himplies : ∀ param i, env.ImpliesAt param i → P param.id ∧ P i.node.id) {v : Visit}
    (hv : v.Regular P) {s : CheckState} (hs : s.store.Tells P) (hb : ¬ v.Binds env b) :
    (visit env s v).store.cell (.binding b) = s.store.cell (.binding b) := by
  by_cases hbracket : v.isBracket = true
  · exact (ensures_bracket hbracket s).cell_binding
  · have hordinary := v.ensures_ordinary hv (Bool.not_eq_true _ ▸ hbracket) himplies hs
    refine (hordinary.mono (fun _ w hw htarget => ?_) fun _ _ h => h).cell_binding
    exact hb (hw.of_target? htarget)

end Check

/-- A visit does not bind what nothing in its region means. -/
theorem Visit.In.not_binds {r : Region} {v : Visit} (h : v.In r)
    (hr : ∀ i : Ident, r.node i.node → env.bindingOf? i ≠ some b)
    (himplied : ∀ param i, env.ImpliesAt param i → env.bindingOf? i ≠ some b) :
    ¬ v.Binds env b := by
  cases v with
  | identifier i role =>
    cases role with
    | functionName n => exact hr i h.1
    | _ => exact id
  | declare i => exact hr i h
  | assign n value target | assignDefault n target value =>
    rintro ⟨i, hi, hb⟩
    exact hr i (h.2.2 i hi) hb
  | rest n argument =>
    rintro ⟨i, hi, hb⟩
    exact hr i (h.2 i hi) hb
  | call n callee args tail =>
    rintro ⟨param, i, hi, hb⟩
    exact himplied param i hi hb
  | _ => exact id

namespace Program

variable {p : Program} (config : Config) {s : CheckState}

/-- What holds between the passes holds after each of the visits. -/
theorem WellFormed.between_foldl (hp : p.WellFormed) (hs : p.Between s) {pre post : List Visit}
    (hvisits : p.visits = pre ++ post) :
    p.Between (pre.foldl (Check.visit (p.checkEnv config)) s.beginPass) := by
  have hlocal : ∃ ks own, Check.Local p.Flat ks own (p.checkEnv config) p.visits s.beginPass :=
    hp.local_pass hs
  obtain ⟨ks, own, hlocal⟩ := hlocal
  refine hs.beginPass.foldl fun m hm => hlocal.steady m ?_
  rw [hvisits, Check.moments_append]
  exact List.mem_append_left _ hm

/-- A stretch of a pass that does not bind a variable leaves it as it is. -/
theorem WellFormed.cell_binding_foldl (hp : p.WellFormed) (hs : p.Between s)
    {pre vs post : List Visit} (hvisits : p.visits = pre ++ vs ++ post)
    (hvs : ∀ v ∈ vs, ¬ v.Binds (p.checkEnv config) b) :
    ((pre ++ vs).foldl (Check.visit (p.checkEnv config)) s.beginPass).store.cell (.binding b) =
      (pre.foldl (Check.visit (p.checkEnv config)) s.beginPass).store.cell (.binding b) := by
  induction vs generalizing pre with
  | nil => rw [List.append_nil]
  | cons v vs ih =>
    obtain ⟨hv, hvs⟩ := List.forall_mem_cons.1 hvs
    rw [List.append_cons] at hvisits ⊢
    rw [ih hvisits hvs, List.foldl_append, List.foldl_cons, List.foldl_nil]
    have hsplit : p.visits = pre ++ (v :: (vs ++ post)) := by simp [hvisits]
    have hbefore := hp.between_foldl config hs hsplit
    obtain ⟨fs, hwalk, -⟩ := hp.exists_walk
    refine Check.cell_binding_visit (hp.flat_of_impliesAt config) (hwalk.regular v ?_)
      hbefore.inOrder.tells hv
    simp [hvisits]

end Program

/-! The rule for an assignment to such a variable. -/

/-- Whether the value of an expression is of a shape. The elements of an array literal are looked at
one by one. -/
def Store.valueSuits (s : Store) (e : Expr) : Shape → Bool
  | .array x => s.valueFits x e
  | .func id => s.arena.fits (s.shape? (.node e.id)) (some (.func id))

/-- The type of a node outside of an expression does not count for its value. -/
theorem Store.valueSuits_onStore_type (env : CheckEnv) {s : Store} (hs : s.Closed) {e : Expr}
    {n : NodeId} (hn : n ∉ e.nodes.map SyntaxNode.id) (ty : Ty) :
    ((Write.type (.node n) ty).onStore s).valueSuits e = s.valueSuits e := by
  let r : Region := ⟨fun m => m.id ≠ n, fun _ => True, fun _ => True⟩
  have hhas : r.Has e.nodes e.returns := by
    refine ⟨fun x hx hid => ?_, fun _ _ _ _ => trivial, fun _ _ => trivial⟩
    exact hn (List.mem_map.2 ⟨x, hx, x.id_node ▸ hid⟩)
  have hcells (t : Target) (ht : t.Within env r) :
      ((Write.type (.node n) ty).onStore s).cell t = s.cell t := by
    refine Write.cell_onStore_of_target?_ne (fun heq => ?_) s
    obtain rfl : Target.node n = t := Option.some.inj heq
    obtain ⟨m, hm, hid⟩ := ht
    exact hm hid
  have hsame : s.SameWithin env r ((Write.type (.node n) ty).onStore s) := by
    refine ⟨Write.pass_onStore, hcells, ?_, ?_, ?_, ?_, ?_⟩ <;>
      simp only [Write.onStore, Store.markType, Store.forceType] <;> split <;>
      simp [Store.functionShape?]
  have harena := (Write.functions_onStore s (.inl ⟨.node n, ty, rfl⟩)).1
  funext x
  cases x with
  | array x => exact hsame.valueFits hs x hhas
  | func id =>
    have hnode : Target.Within env r (.node e.id) := Region.id_of_node (Expr.node_of_has hhas)
    simp only [Store.valueSuits, harena, hsame.shape? hnode]

/-- A binding of type `any` that met the shapes `met` in this pass and had the shape `old` before
it. The first shape is kept. -/
structure Store.KeepsFirst (s : Store) (b : BindingId) (met : List Shape) (old : Option Shape) :
    Prop where
  ty : ∃ m, (s.cell (.binding b)).ty = some m ∧ m.pass = s.pass ∧ m.value.tag = .any
  isFresh : s.hasShapeThisPass (.binding b) = !met.isEmpty
  shape : s.shape? (.binding b) = met.head?.or old

namespace Store.KeepsFirst

variable {s s' : Store} {met : List Shape} {old : Option Shape}

theorem congr (h : s.KeepsFirst b met old) (hcell : s'.cell (.binding b) = s.cell (.binding b))
    (hpass : s'.pass = s.pass) : s'.KeepsFirst b met old where
  ty := by
    rw [hcell, hpass]
    exact h.ty
  isFresh := by
    rw [hasShapeThisPass, hcell, hpass]
    exact h.isFresh
  shape := by
    rw [shape?, hcell]
    exact h.shape

theorem hasTypeThisPass (h : s.KeepsFirst b met old) : s.hasTypeThisPass (.binding b) = true := by
  obtain ⟨m, hm, hpass, htag⟩ := h.ty
  refine Store.hasTypeThisPass_iff.2 ⟨m, hm, hpass, ?_⟩
  rw [Ty.isKnown, htag]
  rfl

theorem tag (h : s.KeepsFirst b met old) : s.tag (.binding b) = .any := by
  obtain ⟨m, hm, -, htag⟩ := h.ty
  simp [Store.tag, Store.ty?, hm, htag]

/-- A shape that is met when there is one of this pass changes nothing. -/
theorem append (h : s.KeepsFirst b met old) (hmet : met ≠ []) (xs : List Shape) :
    s.KeepsFirst b (met ++ xs) old where
  ty := h.ty
  isFresh := by
    rw [h.isFresh]
    cases met with
    | nil => exact absurd rfl hmet
    | cons x met => rfl
  shape := by
    rw [h.shape]
    cases met with
    | nil => exact absurd rfl hmet
    | cons x met => rfl

/-- The first shape of the pass is taken over. -/
theorem first (h : s.KeepsFirst b [] old) (hhas : s.Has (.binding b)) (x : Shape) :
    ((Write.shape (.binding b) (some x)).onStore s).KeepsFirst b [x] old := by
  have hfresh : s.hasShapeThisPass (.binding b) = false := h.isFresh
  have hstore : (Write.shape (.binding b) (some x)).onStore s = s.forceShape (.binding b) x := by
    simp [Write.onStore, markShape, hfresh]
  have hcell : ((s.forceShape (.binding b) x).cell (.binding b)).shape = some ⟨x, s.pass⟩ := by
    rw [shape_cell_forceShape, if_pos ⟨rfl, hhas⟩]
  have hpass : (s.forceShape (.binding b) x).pass = s.pass := pass_modifyCell ..
  rw [hstore]
  refine ⟨?_, ?_, ?_⟩
  · rw [ty_cell_forceShape, hpass]
    exact h.ty
  · simp [hasShapeThisPass, hcell, hpass]
  · simp [shape?, hcell]

end Store.KeepsFirst

namespace Check

variable {s : CheckState}

/-- What does not pass a test is reported, and the store stays as it is. -/
theorem unless_mismatched_spec (ok : Bool) (code : Code) (label : String)
    (expected found : Option Shape) (pos : Position) (s : CheckState) :
    let m : Check Unit := unless ok do mismatched code label expected found pos
    (m.run s).2.store = s.store ∧
      (m.trace s).filterMap (·.2.report?) = if ok then [] else [(.error, code, pos)] := by
  cases ok with
  | true => exact ⟨rfl, rfl⟩
  | false => exact ⟨rfl, rfl⟩

theorem checkAssignedShape_spec (b : BindingId) (e : Expr) (s : CheckState) :
    ((checkAssignedShape b e.node (arrayElements? e)).run s).2.store = s.store ∧
    ((checkAssignedShape b e.node (arrayElements? e)).trace s).filterMap (·.2.report?) =
      if (s.store.shape? (.binding b)).all (s.store.valueSuits e) then []
      else [(.error, .assignmentShape, e.pos)] := by
  rw [checkAssignedShape]
  simp only [run_bind, trace_bind, run_getStore, trace_getStore, List.nil_append]
  cases hshape : s.store.shape? (.binding b) with
  | none => exact ⟨rfl, rfl⟩
  | some target =>
    have hspec := unless_mismatched_spec (s.store.valueSuits e target) .assignmentShape
      "Assignment shape mismatch" (some target) (s.store.shape? (.node e.id)) e.pos s
    cases target <;> cases e <;> exact hspec

/-- A value that is fit for the type of a binding is only looked at for its shape. -/
theorem unifyType_of_fits {i : Ident} {e : Expr} {ty : Ty}
    (hthis : s.store.hasTypeThisPass (.binding b) = true)
    (hfits : ty.tag.fits (s.store.tag (.binding b)) = true) :
    (unifyType b i e.node (arrayElements? e) ty).run s =
        (checkAssignedShape b e.node (arrayElements? e)).run s ∧
      (unifyType b i e.node (arrayElements? e) ty).trace s =
        (checkAssignedShape b e.node (arrayElements? e)).trace s := by
  rw [unifyType]
  simp only [run_bind, trace_bind, run_getStore, trace_getStore, hthis, Bool.not_true,
    Bool.false_eq_true, ↓reduceIte, tagOf, run_pure, trace_pure, hfits, List.nil_append, and_self]

theorem unifyShape_spec {met : List Shape} {old : Option Shape}
    (h : s.store.KeepsFirst b met old) (hhas : s.store.Has (.binding b)) (node : Option NodeId)
    (x : Option Shape) :
    ((unifyShape node b x).run s).2.store.KeepsFirst b (met ++ x.toList) old ∧
      ((unifyShape node b x).trace s).filterMap (·.2.report?) = [] := by
  unfold unifyShape
  simp only [run_bind, trace_bind, run_getStore, trace_getStore, h.isFresh, Bool.not_not,
    List.nil_append]
  cases x with
  | none => simpa [run_pure, trace_pure] using h
  | some x =>
    cases met with
    | cons y met => simpa [run_pure, trace_pure] using h.append (List.cons_ne_nil y met) [x]
    | nil =>
      let s₁ := (Write.known (.binding b)).apply s
      have hknown : s₁.store.KeepsFirst b [] old := h.congr rfl rfl
      have hfirst := hknown.first hhas x
      cases node with
      | none => exact ⟨hfirst, rfl⟩
      | some n =>
        have hnode : (Write.shape (.node n) (some x)).target? ≠ some (.binding b) := by
          simp [Write.target?]
        exact ⟨hfirst.congr (Write.cell_onStore_of_target?_ne hnode _) Write.pass_onStore, rfl⟩

/-- A value is assigned to a variable of type `any`: the only error is that it is not of the shape
of the variable, and its own shape counts if it is the first. -/
theorem assign_spec {n : NodeId} {e : Expr} {i : Ident} {ty : Ty} {met : List Shape}
    {old : Option Shape} (hb : env.bindingOf? i = some b)
    (hty : (s.store.ty? (.node e.id)).filter Ty.isKnown = some ty)
    (hhas : s.store.Has (.binding b)) (h : s.store.KeepsFirst b met old)
    (hsuits : ((Write.type (.node n) ty).onStore s.store).valueSuits e = s.store.valueSuits e) :
    ((assign env (some n) e (.ident i)).run s).2.store.KeepsFirst b
        (met ++ (s.store.shape? (.node e.id)).toList) old ∧
      ((assign env (some n) e (.ident i)).trace s).filterMap (·.2.report?) =
        if (s.store.shape? (.binding b)).all (s.store.valueSuits e) then []
        else [(.error, .assignmentShape, e.pos)] := by
  let s₁ := (Write.type (.node n) ty).apply s
  have htarget : (Write.type (.node n) ty).target? ≠ some (.binding b) := by simp [Write.target?]
  have hcell : s₁.store.cell (.binding b) = s.store.cell (.binding b) := by
    rw [Write.store_apply, Write.cell_onStore_of_target?_ne htarget]
  have hkeeps : s₁.store.KeepsFirst b met old :=
    h.congr hcell (by rw [Write.store_apply, Write.pass_onStore])
  have hfits : ty.tag.fits (s₁.store.tag (.binding b)) = true := by
    have hknown : ty.tag.isKnown = true := isKnown_of_filter hty
    rw [hkeeps.tag]
    simp [Tag.fits, hknown, show Tag.any.isKnown = true from rfl]
  obtain ⟨hrun, htrace⟩ := unifyType_of_fits (e := e) (i := i) hkeeps.hasTypeThisPass hfits
  obtain ⟨hstore, hreports⟩ := checkAssignedShape_spec b e s₁
  let s₂ := ((checkAssignedShape b e.node (arrayElements? e)).run s₁).2
  have hkeeps₂ : s₂.store.KeepsFirst b met old := hkeeps.congr (by rw [hstore]) (by rw [hstore])
  have hhas₂ : s₂.store.Has (.binding b) := by
    rw [hstore, Write.store_apply, Write.has_onStore]
    exact hhas
  obtain ⟨hlast, hquiet⟩ := unifyShape_spec hkeeps₂ hhas₂ (some n) (s.store.shape? (.node e.id))
  have hshape : s₁.store.shape? (.binding b) = s.store.shape? (.binding b) := by
    rw [Store.shape?, hcell, ← Store.shape?]
  have hty : (s.store.ty? (.node e.node.id)).filter Ty.isKnown = some ty := hty
  rw [assign]
  unfold assignIdent
  simp only [hb, knownType?, ty?, shape?, run_bind, trace_bind, run_getStore, trace_getStore,
    run_pure, trace_pure, hty, markType, run_put, trace_put, List.nil_append]
  have hs₁ : (Write.type (.node n) ty).apply s = s₁ := rfl
  have hs₂ : ((checkAssignedShape b e.node (arrayElements? e)).run s₁).2 = s₂ := rfl
  have hsuits : s₁.store.valueSuits e = s.store.valueSuits e := by rw [← hsuits, ← hs₁,
    Write.store_apply]
  rw [hs₁, hrun, htrace, hs₂]
  refine ⟨hlast, ?_⟩
  rw [hsuits, hshape] at hreports
  rw [List.filterMap_append, List.filterMap_append, hreports, ← Expr.id, hquiet, List.append_nil]
  rfl

/-- A variable is declared with a value of type `any` that has no shape: it takes the type, and
keeps the shape of an earlier pass. -/
theorem declare_spec {e : Expr} {i : Ident} {ty : Ty} (hb : env.bindingOf? i = some b)
    (hty : (s.store.ty? (.node e.id)).filter Ty.isKnown = some ty) (htag : ty.tag = .any)
    (hshape : s.store.shape? (.node e.id) = none) (hhas : s.store.Has (.binding b))
    (hopen : s.store.hasTypeThisPass (.binding b) = false)
    (hfresh : s.store.hasShapeThisPass (.binding b) = false) :
    ((assign env none e (.ident i)).run s).2.store.KeepsFirst b []
      (s.store.shape? (.binding b)) := by
  let s₁ := (Write.type (.node i.node.id) ty).apply s
  have htarget : (Write.type (.node i.node.id) ty).target? ≠ some (.binding b) := by
    simp [Write.target?]
  have hcell : s₁.store.cell (.binding b) = s.store.cell (.binding b) := by
    rw [Write.store_apply, Write.cell_onStore_of_target?_ne htarget]
  have hpass : s₁.store.pass = s.store.pass := by rw [Write.store_apply, Write.pass_onStore]
  have hopen₁ : s₁.store.hasTypeThisPass (.binding b) = false := by
    rw [← hopen]
    exact Store.hasTypeThisPass_congr (by rw [hcell]) hpass
  have hstore : (Write.type (.binding b) ty).onStore s₁.store =
      s₁.store.forceType (.binding b) ty := by
    simp [Write.onStore, Store.markType, hopen₁]
  have hkeeps : ((Write.type (.binding b) ty).onStore s₁.store).KeepsFirst b []
      (s.store.shape? (.binding b)) := by
    have hhas₁ : s₁.store.Has (.binding b) := by
      rw [Write.store_apply, Write.has_onStore]
      exact hhas
    rw [hstore]
    refine ⟨⟨⟨ty, s₁.store.pass⟩, ?_, rfl, htag⟩, ?_, ?_⟩
    · rw [Store.ty_cell_forceType, if_pos ⟨rfl, hhas₁⟩]
    · rw [Store.hasShapeThisPass, Store.shape_cell_forceType, hcell, Store.forceType,
        Store.pass_modifyCell, hpass]
      exact hfresh
    · rw [Store.shape?, Store.shape_cell_forceType, hcell]
      rfl
  have hty : (s.store.ty? (.node e.node.id)).filter Ty.isKnown = some ty := hty
  have hshape : s.store.shape? (.node e.node.id) = none := hshape
  rw [assign]
  unfold assignIdent
  simp only [hb, knownType?, ty?, shape?, run_bind, run_getStore, run_pure, hty, hshape]
  unfold unifyType typeBinding unifyShape
  have hs₁ : (Write.type (.node i.node.id) ty).apply s = s₁ := rfl
  simp only [run_bind, run_getStore, hopen, markType, run_put, Bool.not_false, ↓reduceIte, hs₁,
    hopen₁, Bool.false_eq_true, Option.isSome_none, Bool.false_and]
  refine hkeeps.congr ?_ ?_
  · rfl
  · rfl

end Check

/-! Programs that declare such a variable and go on assigning to it. -/

structure TaggedDeclaration where
  pos : Position
  /-- Where the name and the value stand. -/
  place : Position
  name : Ident
  node : Node
  tag : Ident
  textPos : Position
  quasis : List Quasi

namespace TaggedDeclaration

variable (d : TaggedDeclaration)

def text : Template := ⟨d.textPos, d.quasis, []⟩

def value : Expr := .tagged d.node (.ident d.tag) d.text

def stmt : Stmt := .declare d.pos .var [⟨d.place, .ident d.name, some d.value⟩]

def prior : List Visit :=
  [.identifier d.name .plain, .identifier d.tag (.templateTag d.node.id),
    .template d.node .any d.tag.name d.text false]

def visit : Visit := .assign none d.value (.ident d.name)

def visits : List Visit := d.prior ++ [d.visit]

def binding (p : Program) : BindingId := p.declarations.idxOf ⟨d.name, .var⟩

end TaggedDeclaration

structure Assignment where
  node : Node
  target : Ident
  value : Expr

namespace Assignment

variable (x : Assignment)

def expr : Expr := .assign x.node (.ident x.target) x.value

def stmt : Stmt := .expr x.expr

def prior : List Visit :=
  .identifier x.target .plain :: x.value.visits { name := some x.target.name }

def visit : Visit := .assign (some x.node.id) x.value (.ident x.target)

def visits : List Visit := x.prior ++ [x.visit]

def nodes : List SyntaxNode := .expr x.expr :: .pattern (.ident x.target) :: x.value.nodes

def scopeTrees : List ScopeTree := .use x.target :: x.value.scopeTrees

theorem visitsList (xs : List Assignment) :
    Stmt.visitsList (xs.map stmt) = xs.flatMap visits := by
  induction xs with
  | nil => simp [Stmt.visitsList]
  | cons x xs ih =>
    simp [Stmt.visitsList, ih, stmt, expr, visits, prior, visit, Stmt.visits, Expr.visits,
      Pattern.visits, Pattern.asIdent?]

theorem nodesList (xs : List Assignment) : Stmt.nodesList (xs.map stmt) = xs.flatMap nodes := by
  induction xs with
  | nil => simp [Stmt.nodesList]
  | cons x xs ih =>
    simp [Stmt.nodesList, ih, stmt, expr, nodes, Stmt.nodes, Expr.nodes, Pattern.nodes]

theorem scopeTreesList (xs : List Assignment) :
    Stmt.scopeTreesList (xs.map stmt) = xs.flatMap scopeTrees := by
  induction xs with
  | nil => simp [Stmt.scopeTreesList]
  | cons x xs ih =>
    simp [Stmt.scopeTreesList, ih, stmt, expr, scopeTrees, Stmt.scopeTrees, Expr.scopeTrees,
      Pattern.scopeTrees]

theorem declared (xs : List Assignment) : Stmt.declared (xs.map stmt) = [] := by
  induction xs with
  | nil => simp [Stmt.declared, Stmt.withinList, Stmt.localsOf]
  | cons x xs ih =>
    simpa [Stmt.declared, Stmt.withinList, Stmt.localsOf, stmt, Stmt.within, Stmt.vars,
      Stmt.locals] using ih

end Assignment

/-- The program declares a variable with the tag `any`, and then assigns literals to it in which its
name is not free. -/
structure Program.FillsAny (p : Program) (d : TaggedDeclaration) (xs : List Assignment) : Prop where
  body : p.body = d.stmt :: xs.map Assignment.stmt
  tag : d.tag.name = Tag.any.name
  target : ∀ x ∈ xs, x.target.name = d.name.name
  literal : ∀ x ∈ xs, x.value.isValueLiteral = true
  notFree : ∀ x ∈ xs, d.name.name ∉ x.value.freeNames

/-! The form of a program can be read off. -/

def Stmt.asTaggedDeclaration? : Stmt → Option TaggedDeclaration
  | .declare pos .var [⟨place, .ident name, some (.tagged node (.ident tag) ⟨at_, quasis, []⟩)⟩] =>
    some ⟨pos, place, name, node, tag, at_, quasis⟩
  | _ => none

theorem Stmt.asTaggedDeclaration?_eq_some {stmt : Stmt} {d : TaggedDeclaration}
    (h : stmt.asTaggedDeclaration? = some d) : stmt = d.stmt := by
  unfold asTaggedDeclaration? at h
  split at h
  · cases h
    rfl
  · cases h

def Stmt.asAssignment? : Stmt → Option Assignment
  | .expr (.assign node (.ident target) value) => some ⟨node, target, value⟩
  | _ => none

theorem Stmt.asAssignment?_eq_some {stmt : Stmt} {x : Assignment}
    (h : stmt.asAssignment? = some x) : stmt = x.stmt := by
  unfold asAssignment? at h
  split at h
  · cases h
    rfl
  · cases h

def Stmt.asAssignments? : List Stmt → Option (List Assignment)
  | [] => some []
  | stmt :: rest => do
    let x ← stmt.asAssignment?
    let xs ← asAssignments? rest
    return x :: xs

theorem Stmt.asAssignments?_eq_some {stmts : List Stmt} {xs : List Assignment}
    (h : asAssignments? stmts = some xs) : stmts = xs.map Assignment.stmt := by
  induction stmts generalizing xs with
  | nil =>
    cases h
    rfl
  | cons stmt rest ih =>
    obtain ⟨x, hx, h⟩ := Option.bind_eq_some_iff.1 h
    obtain ⟨ys, hys, h⟩ := Option.bind_eq_some_iff.1 h
    cases h
    rw [asAssignment?_eq_some hx, ih hys, List.map_cons]

def Program.fillsAny? (p : Program) : Option (TaggedDeclaration × List Assignment) := do
  let d ← p.body.head?.bind Stmt.asTaggedDeclaration?
  let xs ← Stmt.asAssignments? p.body.tail
  if d.tag.name = Tag.any.name ∧ ∀ x ∈ xs, x.target.name = d.name.name ∧
      x.value.isValueLiteral = true ∧ d.name.name ∉ x.value.freeNames then
    return (d, xs)
  else none

theorem Program.fillsAny_of_fillsAny? {p : Program} {d : TaggedDeclaration} {xs : List Assignment}
    (h : p.fillsAny? = some (d, xs)) : p.FillsAny d xs := by
  obtain ⟨d', hd, h⟩ := Option.bind_eq_some_iff.1 h
  obtain ⟨xs', hxs, h⟩ := Option.bind_eq_some_iff.1 h
  split at h
  · rename_i hform
    cases h
    obtain ⟨htag, hall⟩ := hform
    obtain ⟨stmt, hstmt, hd⟩ := Option.bind_eq_some_iff.1 hd
    refine ⟨?_, htag, fun x hx => (hall x hx).1, fun x hx => (hall x hx).2.1,
      fun x hx => (hall x hx).2.2⟩
    rw [← Stmt.asTaggedDeclaration?_eq_some hd, ← Stmt.asAssignments?_eq_some hxs]
    exact (List.cons_head?_tail hstmt).symm
  · cases h

namespace Check

/-- The shapes of the values that are assigned one after the other, from a state on. -/
def shapesMet (env : CheckEnv) : List Assignment → CheckState → List Shape
  | [], _ => []
  | x :: xs, s =>
    ((x.prior.foldl (visit env) s).store.shape? (.node x.value.id)).toList
      ++ shapesMet env xs (x.visits.foldl (visit env) s)

theorem shapesMet_append (xs ys : List Assignment) (s : CheckState) :
    shapesMet env (xs ++ ys) s = shapesMet env xs s ++
      shapesMet env ys ((xs.flatMap Assignment.visits).foldl (visit env) s) := by
  induction xs generalizing s with
  | nil => rfl
  | cons x xs ih =>
    rw [List.cons_append, shapesMet, shapesMet, ih, List.append_assoc, List.flatMap_cons,
      List.foldl_append]

/-- What the assignment of a value to a variable with the shape `held` meets and what it reports. -/
structure TakesValue (env : CheckEnv) (b : BindingId) (held : Option Shape) (x : Assignment)
    (t : CheckState) : Prop where
  tag : t.store.tag (.binding b) = .any
  shape : t.store.shape? (.binding b) = held
  isKnown : (t.store.tag (.node x.value.id)).isKnown = true
  isSome_shape : (t.store.shape? (.node x.value.id)).isSome = x.value.isShaped
  reports : ((x.visit.apply env).trace t).filterMap (·.2.report?) =
    if held.all (t.store.valueSuits x.value) then []
    else [(.error, .assignmentShape, x.value.pos)]

end Check

def Program.shapesAssigned (p : Program) (config : Config) (d : TaggedDeclaration)
    (xs : List Assignment) (s : CheckState) : List Shape :=
  Check.shapesMet (p.checkEnv config) xs
    (d.visits.foldl (Check.visit (p.checkEnv config)) s.beginPass)

theorem Program.shapesAssigned_concat (p : Program) (config : Config) (d : TaggedDeclaration)
    (xs : List Assignment) (x : Assignment) (s : CheckState) :
    p.shapesAssigned config d (xs ++ [x]) s = p.shapesAssigned config d xs s ++
      (((d.visits ++ xs.flatMap Assignment.visits ++ x.prior).foldl
        (Check.visit (p.checkEnv config)) s.beginPass).store.shape? (.node x.value.id)).toList := by
  rw [shapesAssigned, Check.shapesMet_append, Check.shapesMet, Check.shapesMet, List.append_nil,
    List.foldl_append, List.foldl_append]
  rfl

namespace Program.FillsAny

variable {p : Program} {d : TaggedDeclaration} {xs : List Assignment} (h : p.FillsAny d xs)

include h

theorem ofName?_tag : Tag.ofName? d.tag.name = some .any := by
  rw [h.tag]
  rfl

theorem visits : p.visits = d.visits ++ xs.flatMap Assignment.visits := by
  have hvalue (place : Place) : d.value.visits place =
      [.identifier d.tag (.templateTag d.node.id),
        .template d.node .any d.tag.name d.text false] := by
    rw [TaggedDeclaration.value, TaggedDeclaration.text, Expr.visits, Visit.ofTagged,
      h.ofName?_tag]
    cases Template.loneText? ⟨d.textPos, d.quasis, []⟩ <;> rfl
  rw [Program.visits, h.body, Stmt.visitsList, Assignment.visitsList]
  simp [TaggedDeclaration.stmt, Stmt.visits, Declarator.visits, hvalue, Pattern.visits,
    TaggedDeclaration.visits, TaggedDeclaration.prior, TaggedDeclaration.visit]

theorem nodes : p.nodes = .pattern (.ident d.name) :: .expr d.value :: .expr (.ident d.tag) ::
    xs.flatMap Assignment.nodes := by
  rw [Program.nodes, h.body, Stmt.nodesList, Assignment.nodesList]
  rw [TaggedDeclaration.stmt, TaggedDeclaration.value, TaggedDeclaration.text]
  simp [Stmt.nodes, Declarator.nodes, Pattern.nodes, Expr.nodes, Expr.nodesList]

theorem declared : Stmt.declared p.body = [⟨d.name, .var⟩] := by
  have hrest := Assignment.declared xs
  simp only [Stmt.declared, List.append_eq_nil_iff] at hrest
  rw [h.body]
  simp only [Stmt.declared, Stmt.withinList, Stmt.localsOf, List.flatMap_append,
    List.flatMap_cons] at hrest ⊢
  rw [hrest.1, hrest.2]
  rfl

/-! All of the identifiers in question mean the variable, and none inside of the values does. -/

theorem sites : p.sites = ScopeTree.sitesList [[⟨d.name, .var⟩]]
    (.use d.name :: .use d.tag :: xs.flatMap Assignment.scopeTrees) := by
  have htrees : Stmt.scopeTreesList p.body =
      .use d.name :: .use d.tag :: xs.flatMap Assignment.scopeTrees := by
    rw [h.body, Stmt.scopeTreesList, Assignment.scopeTreesList]
    rfl
  rw [Program.sites, Program.scopeTree, ScopeTree.block, ScopeTree.sites, h.declared, htrees]
  rfl

theorem mem_declarations : ⟨d.name, .var⟩ ∈ p.declarations := by
  rw [Program.declarations, Program.scopeTree, ScopeTree.block, ScopeTree.declarations, h.declared]
  simp [Declaration.fresh, Declaration.find?]

theorem sitesList_subset {x : Assignment} (hx : x ∈ xs) :
    ScopeTree.sitesList [[⟨d.name, .var⟩]] x.scopeTrees ⊆ p.sites := by
  obtain ⟨before, after, rfl⟩ := List.append_of_mem hx
  intro site hsite
  rw [h.sites, ScopeTree.sitesList, ScopeTree.sitesList, List.flatMap_append, List.flatMap_cons,
    ScopeTree.sitesList_append, ScopeTree.sitesList_append]
  simp [hsite]

theorem nodes_subset {x : Assignment} (hx : x ∈ xs) : x.nodes ⊆ p.nodes := by
  intro y hy
  rw [h.nodes]
  simp only [List.mem_cons, List.mem_flatMap]
  exact .inr (.inr (.inr ⟨x, hx, hy⟩))

theorem value_nodes_subset {x : Assignment} (hx : x ∈ xs) : x.value.nodes ⊆ p.nodes := by
  intro y hy
  refine h.nodes_subset hx ?_
  simp [Assignment.nodes, hy]

/-- The functions of the program are inside of the values. -/
theorem exists_func_nodes_subset {f : Func} (hf : f ∈ p.funcs) :
    ∃ x ∈ xs, f.nodes ⊆ x.value.nodes := by
  obtain ⟨y, hy, hfunc⟩ := List.mem_filterMap.1 hf
  obtain ⟨x, hx, hy⟩ : ∃ x ∈ xs, y ∈ x.value.nodes := by
    rw [h.nodes] at hy
    simp only [List.mem_cons, List.mem_flatMap] at hy
    rcases hy with rfl | rfl | rfl | ⟨x, hx, hy⟩
    · cases hfunc
    · cases hfunc
    · cases hfunc
    · simp only [Assignment.nodes, List.mem_cons] at hy
      rcases hy with rfl | rfl | hy
      · cases hfunc
      · cases hfunc
      · exact ⟨x, hx, hy⟩
  exact ⟨x, hx, x.value.unfolds.registers.nodes hy hfunc⟩

variable (hp : p.WellFormed)

include hp

theorem bindingOf?_name : p.resolve.bindingOf? d.name.node.id =
    some (d.binding p) := by
  have hsite : (⟨d.name, [[⟨d.name, .var⟩]]⟩ : Site) ∈ p.sites := by
    rw [h.sites]
    simp [ScopeTree.sitesList, ScopeTree.sites]
  refine (hp.bindingOf?_eq hsite).trans ?_
  simp [Site.declaration?, Declaration.find?, TaggedDeclaration.binding]

theorem bindingOf?_target {x : Assignment} (hx : x ∈ xs) : p.resolve.bindingOf? x.target.node.id =
    some (d.binding p) := by
  have hsite : (⟨x.target, [[⟨d.name, .var⟩]]⟩ : Site) ∈ p.sites := by
    refine h.sitesList_subset hx ?_
    simp [Assignment.scopeTrees, ScopeTree.sitesList, ScopeTree.sites]
  refine (hp.bindingOf?_eq hsite).trans ?_
  simp [Site.declaration?, Declaration.find?, TaggedDeclaration.binding, h.target x hx]

theorem bindingOf?_ne {x : Assignment} (hx : x ∈ xs) {y : SyntaxNode} (hy : y ∈ x.value.nodes) :
    p.resolve.bindingOf? y.id ≠ some (d.binding p) := by
  intro hbinding
  have hsites : ScopeTree.sitesList [[⟨d.name, .var⟩]] x.value.scopeTrees ⊆ p.sites := by
    intro site hsite
    refine h.sitesList_subset hx ?_
    simp [Assignment.scopeTrees, ScopeTree.sitesList, hsite]
  obtain ⟨z, hz, hident⟩ := hp.exists_declared_within hsites (h.value_nodes_subset hx)
    h.mem_declarations (h.notFree x hx) hy hbinding
  -- The identifier of the declaration would stand at two places.
  have hnodup := hp.nodup_ids
  rw [h.nodes, List.map_cons, List.nodup_cons] at hnodup
  refine hnodup.1 (List.mem_map.2 ⟨z, ?_, SyntaxNode.id_of_ident? hident⟩)
  simp only [List.mem_cons, List.mem_flatMap]
  exact .inr (.inr ⟨x, hx, by simp [Assignment.nodes, hz]⟩)

variable (config : Config)

theorem bindingOf?_implied {param : Pattern} {i : Ident}
    (hi : (p.checkEnv config).ImpliesAt param i) :
    (p.checkEnv config).bindingOf? i ≠ some (d.binding p) := by
  obtain ⟨origin, f, inner, hf, hparam, himplied⟩ := hi
  obtain ⟨x, hx, hsub⟩ := h.exists_func_nodes_subset (mem_funcs_of_function? hf)
  have hident := (Check.Parameter.mem_idents_of_implied? himplied).1
  have hnode : .pattern (.ident i) ∈ x.value.nodes := by
    refine hsub ?_
    rw [Func.nodes_eq]
    have hnodes := Pattern.nodes_subset_nodesList hparam (param.mem_nodes_of_mem_idents i hident)
    simp [hnodes]
  exact (h.bindingOf?_ne hp hx hnode :)

/-- Up to the point where a value is assigned, nothing binds the variable. -/
theorem not_binds_prior {x : Assignment} (hx : x ∈ xs) : ∀ v ∈ x.prior,
    ¬ v.Binds (p.checkEnv config) (d.binding p) := by
  let r : Region := ⟨fun n => p.resolve.bindingOf? n.id ≠
    some (d.binding p), fun _ => True, fun _ => True⟩
  have hvalue : r.Has x.value.nodes x.value.returns := by
    refine ⟨fun y hy => ?_, fun _ _ _ _ => trivial, fun _ _ => trivial⟩
    change p.resolve.bindingOf? y.node.id ≠ _
    rw [y.id_node]
    exact h.bindingOf?_ne hp hx hy
  intro v hv
  rcases List.mem_cons.1 hv with rfl | hv
  · exact id
  · exact ((x.value.tour _).visits_in hvalue (by simp) v hv).not_binds (fun i hi => hi)
      fun param i hi => h.bindingOf?_implied hp config hi

theorem node_notMem {x : Assignment} (hx : x ∈ xs) :
    x.node.id ∉ x.value.nodes.map SyntaxNode.id := by
  obtain ⟨before, after, hxs⟩ := List.append_of_mem hx
  have hnodup := hp.nodup_ids
  simp only [h.nodes, hxs, List.flatMap_append, List.flatMap_cons, List.map_cons, List.map_append,
    List.nodup_cons, List.nodup_append, Assignment.nodes] at hnodup
  exact fun hmem => hnodup.2.2.2.2.1.1.1 (List.mem_cons_of_mem _ hmem)

/-! A pass over the program. -/

theorem ne_of_nodup : d.name.node.id ≠ d.node.id ∧
    d.node.id ∉ (xs.flatMap Assignment.nodes).map SyntaxNode.id := by
  have hnodup := hp.nodup_ids
  simp only [h.nodes, List.map_cons, List.nodup_cons, List.mem_cons, not_or] at hnodup
  exact ⟨hnodup.1.1, hnodup.2.1.2⟩

theorem not_implies_value : ¬ (p.checkEnv config).Implies d.node.id := by
  have hmem : .expr d.value ∈ p.nodes := by
    rw [h.nodes]
    simp
  exact hp.not_implies hmem

omit hp in
theorem apply_tag : (Visit.identifier d.tag (.templateTag d.node.id)).apply (p.checkEnv config) =
    Check.markType (.node d.node.id) (.tagged .any) := by
  change Check.identifier (p.checkEnv config) d.tag (.templateTag d.node.id) = _
  unfold Check.identifier
  rw [h.ofName?_tag]
  rfl

/-- The value of the declaration never has a shape. -/
theorem keepsShape_value : ∀ v ∈ p.visits, v.KeepsShape (p.checkEnv config) d.node.id := by
  have himplies := h.not_implies_value hp config
  obtain ⟨hname, hrest⟩ := h.ne_of_nodup hp
  have htidy := (Stmt.tourList (xs.map Assignment.stmt)).tidy
  rw [Assignment.nodesList, Assignment.visitsList] at htidy
  intro v hv
  rw [h.visits, TaggedDeclaration.visits, TaggedDeclaration.prior] at hv
  simp only [List.cons_append, List.nil_append, List.mem_cons] at hv
  rcases hv with rfl | rfl | rfl | rfl | hv
  · refine Visit.keepsShape_of_notMem ?_ himplies
    simpa [Visit.footprint] using hname.symm
  · exact Visit.keepsShape_of_markType (h.apply_tag config)
  · exact Visit.keepsShape_of_notMem (by simp [Visit.footprint]) himplies
  · refine Visit.keepsShape_of_notMem ?_ himplies
    simpa [TaggedDeclaration.visit, Visit.footprint, Pattern.idents] using hname.symm
  · have hvalue : SyntaxNode.id (.expr d.value) ∉ (xs.flatMap Assignment.nodes).map SyntaxNode.id :=
      hrest
    exact Visit.keepsShape_of_notMem (Phrase.notMem_footprint htidy hvalue v hv) himplies

variable {s : CheckState} (hs : s ∈ p.passStarts config)

include hs

/-- When the declaration is about to be made, its value is of type `any`. -/
theorem ty?_value :
    (d.prior.foldl (Check.visit (p.checkEnv config)) s.beginPass).store.ty? (.node d.node.id) =
      some (.tagged .any) := by
  let env := p.checkEnv config
  have himplies := h.not_implies_value hp config
  let s₁ := Check.visit env s.beginPass (.identifier d.name .plain)
  let s₂ := Check.visit env s₁ (.identifier d.tag (.templateTag d.node.id))
  have hcell₁ : s₁.store.cell (.node d.node.id) = s.beginPass.store.cell (.node d.node.id) := by
    refine Check.cell_visit_of_notMem ?_ himplies s.beginPass
    simpa [Visit.footprint] using (h.ne_of_nodup hp).1.symm
  have hlinked := Check.linked_moments env [.identifier d.name .plain] s.beginPass
  have hopen : s₁.store.hasTypeThisPass (.node d.node.id) = false := by
    rw [← (isDated_of_mem_passStarts hs).hasTypeThisPass_beginPass (.node d.node.id)]
    exact Store.hasTypeThisPass_congr (by rw [hcell₁]) hlinked.pass_eq
  have hhas : s₁.store.Has (.node d.node.id) := by
    have hmem : SyntaxNode.expr d.value ∈ p.nodes := by
      rw [h.nodes]
      simp
    exact (hlinked.has_iff _).2 (has_node_of_mem_passStarts hs (hp.id_lt hmem))
  have hty₂ : (s₂.store.cell (.node d.node.id)).ty = some ⟨.tagged .any, s₁.store.pass⟩ := by
    have hrun : s₂ = ((Check.markType (.node d.node.id) (.tagged .any)).run s₁).2 := by
      rw [← h.apply_tag config]
      rfl
    rw [hrun]
    exact Write.ty_cell_onStore_type hhas hopen _
  have hlast := Check.cell_visit_of_notMem (v := .template d.node .any d.tag.name d.text false)
    (by simp [Visit.footprint]) himplies s₂
  change (Check.visit env s₂ (.template d.node .any d.tag.name d.text false)).store.ty? _ = _
  rw [Store.ty?, hlast, hty₂]
  rfl

omit hp h in
theorem has_binding {i : Ident} (hb : (p.checkEnv config).bindingOf? i = some b) (vs : List Visit) :
    (vs.foldl (Check.visit (p.checkEnv config)) s.beginPass).store.Has (.binding b) := by
  have hcells : (p.checkEnv config).HasCells s := hasCells_of_mem_passStarts hs
  exact ((Check.linked_moments (p.checkEnv config) vs s.beginPass).has_iff _).2 (hcells _ b hb).1

/-- The declaration gives the variable its type. -/
theorem keepsFirst_declared :
    (d.visits.foldl (Check.visit (p.checkEnv config)) s.beginPass).store.KeepsFirst (d.binding p) []
      (s.store.shape? (.binding (d.binding p))) := by
  let env := p.checkEnv config
  let u := d.prior.foldl (Check.visit env) s.beginPass
  have hb : env.bindingOf? d.name = some (d.binding p) := h.bindingOf?_name hp
  have hvisits : p.visits = [] ++ d.prior ++ (d.visit :: xs.flatMap Assignment.visits) := by
    simp [h.visits, TaggedDeclaration.visits]
  have hprior : ∀ v ∈ d.prior, ¬ v.Binds env (d.binding p) := by
    intro v hv
    simp only [TaggedDeclaration.prior, List.mem_cons, List.not_mem_nil, or_false] at hv
    rcases hv with rfl | rfl | rfl <;> exact id
  have hcell : u.store.cell (.binding (d.binding p)) = s.store.cell (.binding (d.binding p)) := by
    exact (hp.cell_binding_foldl config (hp.between_of_mem_passStarts hs) hvisits hprior :)
  have hpass : u.store.pass = s.beginPass.store.pass :=
    (Check.linked_moments env d.prior s.beginPass).pass_eq
  have hty : (u.store.ty? (.node d.value.id)).filter Ty.isKnown = some (.tagged .any) := by
    have hvalue : u.store.ty? (.node d.value.id) = some (.tagged .any) := h.ty?_value hp config hs
    rw [hvalue]
    rfl
  have hsub : d.prior ⊆ p.visits := by
    rw [hvisits]
    simp
  have hshape : u.store.shape? (.node d.value.id) = none :=
    shape?_foldl_eq_none (h.keepsShape_value hp config) hs hsub
  have hopen : u.store.hasTypeThisPass (.binding (d.binding p)) = false := by
    rw [← (isDated_of_mem_passStarts hs).hasTypeThisPass_beginPass (.binding (d.binding p))]
    exact Store.hasTypeThisPass_congr (congrArg Cell.ty hcell) hpass
  have hfresh : u.store.hasShapeThisPass (.binding (d.binding p)) = false := by
    rw [← (hasDatedShapes_of_mem_passStarts hs).hasShapeThisPass_beginPass (.binding (d.binding p)),
      Store.hasShapeThisPass, Store.hasShapeThisPass, hcell, hpass]
    rfl
  have hold : u.store.shape? (.binding (d.binding p)) =
      s.store.shape? (.binding (d.binding p)) := by
    rw [Store.shape?, hcell, Store.shape?]
  have hdeclared := Check.declare_spec hb hty rfl hshape (has_binding config hs hb d.prior) hopen
    hfresh
  rw [hold] at hdeclared
  rw [TaggedDeclaration.visits, List.foldl_append]
  exact hdeclared

variable {before after : List Assignment} {x : Assignment} (hxs : xs = before ++ x :: after)

include hxs

omit hp hs in
theorem visits_eq_append : p.visits =
    (d.visits ++ before.flatMap Assignment.visits ++ x.prior) ++
      x.visit :: after.flatMap Assignment.visits := by
  rw [h.visits, hxs]
  simp [Assignment.visits]

/-- When a value is about to be assigned, it has its type and its shape. -/
theorem literal_value :
    let t := (d.visits ++ before.flatMap Assignment.visits ++ x.prior).foldl
      (Check.visit (p.checkEnv config)) s.beginPass
    t.store.hasTypeThisPass (.node x.value.id) = true ∧
      (t.store.shape? (.node x.value.id)).isSome = x.value.isShaped := by
  have hx : x ∈ xs := hxs ▸ List.mem_append_cons_self
  let pre := d.visits ++ before.flatMap Assignment.visits ++ [Visit.identifier x.target .plain]
  have hprior : d.visits ++ before.flatMap Assignment.visits ++ x.prior =
      pre ++ x.value.visits { name := some x.target.name } := by
    simp [pre, Assignment.prior]
  have hvisits := h.visits_eq_append hxs
  rw [hprior] at hvisits ⊢
  have hmem : .expr x.value ∈ p.nodes := h.value_nodes_subset hx x.value.mem_nodes
  exact hp.literal_spec hs hmem (h.literal x hx) hvisits

/-- One assignment: the variable is found as the assignments before left it, and the shape of the
value counts if it is the first. -/
theorem takes_value {met : List Shape} {old : Option Shape}
    (hkeeps : ((d.visits ++ before.flatMap Assignment.visits).foldl
      (Check.visit (p.checkEnv config)) s.beginPass).store.KeepsFirst (d.binding p) met old) :
    let t := (d.visits ++ before.flatMap Assignment.visits ++ x.prior).foldl
      (Check.visit (p.checkEnv config)) s.beginPass
    Check.TakesValue (p.checkEnv config) (d.binding p) (met.head?.or old) x t ∧
      (Check.visit (p.checkEnv config) t x.visit).store.KeepsFirst (d.binding p)
        (met ++ (t.store.shape? (.node x.value.id)).toList) old := by
  intro t
  have hx : x ∈ xs := hxs ▸ List.mem_append_cons_self
  let pre := d.visits ++ before.flatMap Assignment.visits
  have hvisits : p.visits = pre ++ x.prior ++ x.visit :: after.flatMap Assignment.visits :=
    h.visits_eq_append hxs
  have hb : (p.checkEnv config).bindingOf? x.target = some (d.binding p) :=
    h.bindingOf?_target hp hx
  -- Nothing up to here has bound the variable since the last assignment.
  have hkeeps : t.store.KeepsFirst (d.binding p) met old := by
    refine hkeeps.congr ?_ ?_
    · exact hp.cell_binding_foldl config (hp.between_of_mem_passStarts hs) hvisits
        (h.not_binds_prior hp config hx)
    · have hpass := (Check.linked_moments (p.checkEnv config) pre s.beginPass).pass_eq
      exact (Check.linked_moments (p.checkEnv config) (pre ++ x.prior) s.beginPass).pass_eq.trans
        hpass.symm
  obtain ⟨hthis, hshape⟩ := h.literal_value hp config hs hxs
  obtain ⟨m, hm, -, hknown⟩ := Store.hasTypeThisPass_iff.1 hthis
  have hty : (t.store.ty? (.node x.value.id)).filter Ty.isKnown = some m.value := by
    rw [Store.ty?, hm, Option.map_some, Option.filter_some_pos hknown]
  have hhas : t.store.Has (.binding (d.binding p)) := has_binding config hs hb _
  have hproper : t.Proper := by
    have hmem : ∀ v ∈ pre ++ x.prior, v ∈ p.visits := fun v hv => by
      rw [hvisits]
      exact List.mem_append_left _ hv
    exact (Check.orderly_moments (fun v hv => visits_on p.has_everything _ v (hmem v hv))
      (proper_of_mem_passStarts hs).beginPass).2
  have hsuits := Store.valueSuits_onStore_type (p.checkEnv config) hproper.closed.store
    (h.node_notMem hp hx) m.value
  obtain ⟨hlast, hreports⟩ := Check.assign_spec hb hty hhas hkeeps hsuits
  refine ⟨⟨hkeeps.tag, hkeeps.shape, ?_, hshape, ?_⟩, hlast⟩
  · rw [Store.tag, Store.ty?, hm]
    exact hknown
  · rw [← hkeeps.shape]
    exact hreports

omit hxs in
/-- The assignments of a pass: the first shape that they meet is kept. -/
theorem keepsFirst_append (hxs : xs = before ++ after) :
    ((d.visits ++ before.flatMap Assignment.visits).foldl (Check.visit (p.checkEnv config))
      s.beginPass).store.KeepsFirst (d.binding p) (p.shapesAssigned config d before s)
        (s.store.shape? (.binding (d.binding p))) := by
  induction before using List.reverseRecOn generalizing after with
  | nil =>
    rw [List.flatMap_nil, List.append_nil]
    exact h.keepsFirst_declared hp config hs
  | append_singleton before x ih =>
    rw [List.append_assoc, List.singleton_append] at hxs
    obtain ⟨-, hlast⟩ := h.takes_value hp config hs hxs (ih hxs)
    rw [shapesAssigned_concat, List.flatMap_append, List.flatMap_singleton, Assignment.visits,
      ← List.append_assoc, ← List.append_assoc, List.foldl_concat]
    exact hlast

omit hxs in
/-- There is one if one of the values is an array or a function. -/
theorem isSome_head?_shapesAssigned (hxs : xs = before ++ after) :
    (p.shapesAssigned config d before s).head?.isSome = before.any (·.value.isShaped) := by
  induction before using List.reverseRecOn generalizing after with
  | nil => rfl
  | append_singleton before x ih =>
    rw [List.append_assoc, List.singleton_append] at hxs
    have hshape := (h.literal_value hp config hs hxs).2
    rw [shapesAssigned_concat, List.any_append, ← ih hxs, List.any_cons, ← hshape]
    simp

omit hs hxs in
/-- What the variable brings into a pass is the first shape of the pass before. -/
theorem shape?_of_passStarts {earlier later : List CheckState}
    (hstarts : p.passStarts config = earlier ++ s :: later) :
    s.store.shape? (.binding (d.binding p)) =
      earlier.getLast?.bind fun s => (p.shapesAssigned config d xs s).head? := by
  induction earlier using List.reverseRecOn generalizing s later with
  | nil =>
    obtain ⟨rest, hrest⟩ := p.exists_passStarts_eq config
    obtain ⟨rfl, -⟩ := List.cons.inj (hrest.symm.trans hstarts)
    simp [initialState, Store.shape?]
  | append_singleton earlier t ih =>
    rw [List.append_assoc, List.singleton_append] at hstarts
    have ht : t ∈ p.passStarts config := hstarts ▸ List.mem_append_cons_self
    have hkeeps := h.keepsFirst_append hp config ht xs.append_nil.symm
    rw [← h.visits] at hkeeps
    have hpass : s = Check.pass (p.checkEnv config) p.visits t := Check.eq_pass_of_starts hstarts
    rw [hpass, Check.pass, hkeeps.shape, ih hstarts, List.getLast?_concat, Option.bind_some]
    -- A pass that meets no shape comes after passes that met none either.
    cases hhead : (p.shapesAssigned config d xs t).head? with
    | some x => rfl
    | none =>
      have hnone := h.isSome_head?_shapesAssigned hp config ht xs.append_nil.symm
      rw [hhead, Option.isSome_none] at hnone
      cases hlast : earlier.getLast? with
      | none => rfl
      | some u =>
        have hu : u ∈ p.passStarts config := by
          rw [hstarts]
          exact List.mem_append_left _ (List.mem_of_getLast? hlast)
        have hsome := h.isSome_head?_shapesAssigned hp config hu xs.append_nil.symm
        rw [← hnone, Option.isSome_eq_false_iff, Option.isNone_iff_eq_none] at hsome
        simp [hsome]

end Program.FillsAny

namespace Program

variable {p : Program} {d : TaggedDeclaration} {xs before after : List Assignment} {x : Assignment}
  {config : Config} {s : CheckState} {earlier later : List CheckState}

/-- The shape that the variable has in a pass after the assignments `before`: the first of this
pass, or else the first of the pass before. -/
def shapeKept (p : Program) (config : Config) (d : TaggedDeclaration) (xs : List Assignment)
    (earlier : List CheckState) (s : CheckState) (before : List Assignment) : Option Shape :=
  (p.shapesAssigned config d before s).head?.or
    (earlier.getLast?.bind fun s => (p.shapesAssigned config d xs s).head?)

/-- There is one if an array or a function has been assigned, in this pass or in an earlier one. -/
theorem FillsAny.isSome_shapeKept (h : p.FillsAny d xs) (hp : p.WellFormed)
    (hs : p.passStarts config = earlier ++ s :: later) (hxs : xs = before ++ after) :
    (p.shapeKept config d xs earlier s before).isSome =
      (if earlier = [] then before else xs).any (·.value.isShaped) := by
  have hmem : s ∈ p.passStarts config := hs ▸ List.mem_append_cons_self
  have hthis := h.isSome_head?_shapesAssigned hp config hmem hxs
  cases earlier using List.reverseRecOn with
  | nil => simp [shapeKept, hthis]
  | append_singleton earlier t =>
    have ht : t ∈ p.passStarts config := by
      rw [hs]
      simp
    have hbefore := h.isSome_head?_shapesAssigned hp config ht xs.append_nil.symm
    rw [shapeKept, List.getLast?_concat, Option.bind_some, Option.isSome_or, hthis, hbefore,
      if_neg (by simp), hxs, List.any_append, ← Bool.or_assoc, Bool.or_self]

/-- A value of whatever type can be assigned to a variable with the tag `any`, but the variable
keeps the first shape that it meets, and a value that is not of this shape is refused. -/
theorem any_variable_keeps_first_shape {source : String} (hp : Program.ofSource source = .ok p)
    (h : p.FillsAny d xs) (hs : p.passStarts config = earlier ++ s :: later)
    (hxs : xs = before ++ x :: after) :
    ∃ b held, (p.checkEnv config).bindingOf? d.name = some b ∧
      (p.checkEnv config).bindingOf? x.target = some b ∧
      p.visits = (d.visits ++ before.flatMap Assignment.visits ++ x.prior) ++
        x.visit :: after.flatMap Assignment.visits ∧
      held = p.shapeKept config d xs earlier s before ∧
      held.isSome = (if earlier = [] then before else xs).any (·.value.isShaped) ∧
      Check.TakesValue (p.checkEnv config) b held x
        ((d.visits ++ before.flatMap Assignment.visits ++ x.prior).foldl
          (Check.visit (p.checkEnv config)) s.beginPass) := by
  obtain ⟨tokens, -, htokens⟩ := exists_of_ofSource hp
  have hwell := wellFormed_of_ofTokens htokens
  have hx : x ∈ xs := hxs ▸ List.mem_append_cons_self
  have hmem : s ∈ p.passStarts config := hs ▸ List.mem_append_cons_self
  have hkeeps := h.keepsFirst_append hwell config hmem hxs
  obtain ⟨htakes, -⟩ := h.takes_value hwell config hmem hxs hkeeps
  rw [h.shape?_of_passStarts hwell config hs] at htakes
  exact ⟨d.binding p, _, h.bindingOf?_name hwell, h.bindingOf?_target hwell hx,
    h.visits_eq_append hxs, rfl, h.isSome_shapeKept hwell hs hxs, htakes⟩

/-- A function is assigned last, and the check takes two passes: in the second one the shape of the
function is there from the start, so that the text before it is refused. -/
theorem any_variable_keeps_first_shape_of_function :
    ∃ p d x y s t b held, Program.ofSource
        "var a = any``; a = \"x\"; a = function () \x7b var f = () => z; var z = 1; \x7d;" = .ok p ∧
      p.FillsAny d [x, y] ∧ p.passStarts {} = [s] ++ t :: [] ∧
      (p.check {}).diagnostics.filterMap (fun e => if e.severity = .error then
        some (e.code, e.pos, e.pass) else none) = [(.assignmentShape, some ⟨1, 20⟩, 2)] ∧
      (p.checkEnv {}).bindingOf? d.name = some b ∧ (p.checkEnv {}).bindingOf? x.target = some b ∧
      held = p.shapeKept {} d [x, y] [s] t [] ∧ held.isSome = true ∧
      Check.TakesValue (p.checkEnv {}) b held x
        ((d.visits ++ x.prior).foldl (Check.visit (p.checkEnv {})) t.beginPass) := by
  obtain ⟨p, hp, htest⟩ := Program.exists_of_any
    "var a = any``; a = \"x\"; a = function () \x7b var f = () => z; var z = 1; \x7d;"
    (fun p => p.fillsAny?.any (fun f => f.2.map (·.value.isShaped) = [false, true]) &&
      ((p.passStarts {}).length == 2 && (p.check {}).diagnostics.filterMap (fun e =>
        if e.severity = .error then some (e.code, e.pos, e.pass) else none) ==
          [(.assignmentShape, some ⟨1, 20⟩, 2)])) (by decide +kernel)
  simp only [Bool.and_eq_true, beq_iff_eq, Option.any_eq_true, decide_eq_true_eq] at htest
  obtain ⟨⟨⟨d, xs⟩, hfills, hshaped⟩, hpasses, hdiagnostics⟩ := htest
  obtain ⟨s, t, hstarts⟩ := List.length_eq_two.1 hpasses
  obtain ⟨x, y, rfl⟩ : ∃ x y, xs = [x, y] := by
    have hlength := congrArg List.length hshaped
    rw [List.length_map] at hlength
    exact List.length_eq_two.1 hlength
  have hany : [x, y].any (·.value.isShaped) = true := by
    simp only [List.map_cons, List.cons.injEq] at hshaped
    simp [hshaped]
  have h := fillsAny_of_fillsAny? hfills
  have hs : p.passStarts {} = [s] ++ t :: [] := hstarts
  have hxs : [x, y] = [] ++ x :: [y] := rfl
  obtain ⟨b, held, hname, htarget, -, hheld, hsome, htakes⟩ :=
    any_variable_keeps_first_shape hp h hs hxs
  exact ⟨p, d, x, y, s, t, b, held, hp, h, hs, hdiagnostics, hname, htarget, hheld,
    hsome.trans hany, by simpa using htakes⟩

/-- A text can be assigned before an array but not after one. -/
theorem any_variable_refuses_text : ∃ p d xs q,
    Program.ofSource "var a = any``; a = [1]; a = \"x\";" = .ok p ∧ p.FillsAny d xs ∧
      (∀ x ∈ xs, x.value.freeNames = []) ∧
      (p.check {}).diagnostics.any (fun e => e.severity = .error && e.code = .assignmentShape) ∧
      Program.ofSource "var a = any``; a = \"x\"; a = [1];" = .ok q ∧
      (q.check {}).errorCount = 0 := by
  obtain ⟨p, hp, htest⟩ := Program.exists_of_any "var a = any``; a = [1]; a = \"x\";"
    (fun p => p.fillsAny?.any (fun f => ∀ x ∈ f.2, x.value.freeNames = []) &&
      (p.check {}).diagnostics.any fun e => e.severity = .error && e.code = .assignmentShape)
    (by decide +kernel)
  obtain ⟨q, hq, hcount⟩ := Program.exists_of_any "var a = any``; a = \"x\"; a = [1];"
    (fun q => (q.check {}).errorCount == 0) (by decide +kernel)
  simp only [Bool.and_eq_true, beq_iff_eq, Option.any_eq_true, decide_eq_true_eq] at htest hcount
  obtain ⟨⟨⟨d, xs⟩, hfills, hfree⟩, hdiagnostics⟩ := htest
  exact ⟨p, d, xs, q, hp, fillsAny_of_fillsAny? hfills, hfree, hdiagnostics, hq, hcount⟩

end Program

end TagCheck
