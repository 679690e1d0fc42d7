import TagCheck.Proofs.Check.Frames
import TagCheck.Proofs.Check.Phrase

/-! Literals of all kinds. From its visits on, a literal has a type in the pass, and it has a shape
exactly if it is an array or a function. -/
namespace TagCheck

namespace Expr

def isValueLiteral : Expr → Bool
  | number _ _ | bigint _ _ | str _ _ | bool _ _ | null _ | regex _ _ _ => true
  | array _ _ | object _ _ | function _ => true
  | this _ | ident _ | template _ _ | tagged _ _ _ | unary _ _ _ | update _ _ _ _ => false
  | binary _ _ _ _ | logical _ _ _ _ | conditional _ _ _ _ | assign _ _ _ => false
  | assignMember _ _ _ | sequence _ _ | call _ _ _ | new _ _ _ | member _ _ _ => false

def isShaped : Expr → Bool
  | array _ _ | function _ => true
  | number _ _ | bigint _ _ | str _ _ | bool _ _ | null _ | regex _ _ _ | object _ _ => false
  | this _ | ident _ | template _ _ | tagged _ _ _ | unary _ _ _ | update _ _ _ _ => false
  | binary _ _ _ _ | logical _ _ _ _ | conditional _ _ _ _ | assign _ _ _ => false
  | assignMember _ _ _ | sequence _ _ | call _ _ _ | new _ _ _ | member _ _ _ => false

end Expr

variable {env : CheckEnv} {k : NodeId}

namespace Check

theorem Linked.hasTypeThisPass {s t : CheckState} {ms : List Moment} (h : Linked s ms t)
    (hs : s.store.hasTypeThisPass (.node k) = true) :
    t.store.hasTypeThisPass (.node k) = true :=
  (Store.hasTypeThisPass_congr (h.ty_cell_eq hs) h.pass_eq).trans hs

theorem Linked.isSome_shape {s t : CheckState} {ms : List Moment} (h : Linked s ms t) {x : Target}
    (hs : (s.store.cell x).shape.isSome = true) : (t.store.cell x).shape.isSome = true := by
  refine h.lasts (P := fun u => (u.store.cell x).shape.isSome = true) hs fun m _ hm => ?_
  rw [Moment.after, Write.store_apply]
  exact Write.isSome_shape_cell_onStore hm

end Check

/-! Visits that give a node a type or a shape, and such as leave its shape alone. -/

namespace Visit

/-- The visit first of all gives a known type to the node. -/
def Types (env : CheckEnv) (k : NodeId) (v : Visit) : Prop :=
  ∃ (ty : Ty) (next : Unit → Check Unit), ty.isKnown = true ∧
    v.apply env = (Check.markType (.node k) ty >>= next)

def Shapes (env : CheckEnv) (k : NodeId) (v : Visit) : Prop :=
  ∀ s : CheckState, s.store.Has (.node k) →
    ((Check.visit env s v).store.cell (.node k)).shape.isSome = true

def KeepsShape (env : CheckEnv) (k : NodeId) (v : Visit) : Prop :=
  ∀ s : CheckState,
    ((Check.visit env s v).store.cell (.node k)).shape = (s.store.cell (.node k)).shape

theorem types_infer {t : Tag} (ht : t.isKnown = true) : (infer k t).Types env k :=
  ⟨.inferred t, pure, ht, rfl⟩

theorem isKnown_ofNumber (n : Node) (x : Double) : ∃ t : Tag, t.isKnown = true ∧
    ofNumber n x = .infer n.id t := by
  unfold ofNumber
  split
  · exact ⟨_, rfl, rfl⟩
  · split
    · exact ⟨_, rfl, rfl⟩
    · exact ⟨_, rfl, rfl⟩

theorem shapes_arrayLiteral (n : Node) (es : List Element) :
    (arrayLiteral n es).Shapes env n.id := by
  intro s hhas
  let s' := (Write.type (.node n.id) (.inferred .array)).onStore s.store
  change ((s'.forceShape (.node n.id) (.array (s'.inferArrayShape es))).cell _).shape.isSome = true
  rw [Store.shape_cell_forceShape, if_pos ⟨rfl, Write.has_onStore.2 hhas⟩, Option.isSome_some]

end Visit

theorem Write.isSome_shape_onStore_shape {s : Store} {t : Target} (hhas : s.Has t) (x : Shape) :
    (((Write.shape t (some x)).onStore s).cell t).shape.isSome = true := by
  cases hthis : s.hasShapeThisPass t with
  | true =>
    have hstore : (Write.shape t (some x)).onStore s = s := by simp [onStore, Store.markShape, hthis]
    rw [hstore]
    exact Option.isSome_of_any hthis
  | false =>
    have hstore : (Write.shape t (some x)).onStore s = s.forceShape t x := by
      simp [onStore, Store.markShape, hthis]
    rw [hstore, Store.shape_cell_forceShape, if_pos ⟨rfl, hhas⟩, Option.isSome_some]

namespace Visit

theorem shapes_enterFunction (n : NodeId) (f : FuncId) : (enterFunction n f).Shapes env n := by
  intro s hhas
  rw [CheckState.enterSteps_eq]
  refine Write.isSome_shape_onStore_shape ?_ _
  split
  · simpa using hhas
  · simpa using hhas

theorem keepsShape_of_notMem {v : Visit} (hv : k ∉ v.footprint) (hk : ¬ env.Implies k) :
    v.KeepsShape env k := by
  intro s
  rw [Check.cell_visit_of_notMem hv hk]

theorem keepsShape_of_markType {v : Visit} {t : Target} {ty : Ty}
    (hv : v.apply env = Check.markType t ty) : v.KeepsShape env k := by
  intro s
  rw [Check.visit, hv]
  change (((s.store.markType t ty).2).cell (.node k)).shape = _
  rw [Store.markType]
  split
  · rfl
  · rw [Store.shape_cell_forceType]

end Visit

namespace Check

variable {vs : List Visit} {s : CheckState}

/-- Some visit gives the node its type, and then it has one to the end. -/
theorem hasTypeThisPass_foldl {v : Visit} (hv : v ∈ vs) (htypes : v.Types env k)
    (hhas : s.store.Has (.node k)) :
    (vs.foldl (visit env) s).store.hasTypeThisPass (.node k) = true := by
  obtain ⟨pre, post, rfl⟩ := List.append_of_mem hv
  rw [List.foldl_append, List.foldl_cons]
  refine (linked_moments env post _).hasTypeThisPass ?_
  obtain ⟨ty, next, hty, happly⟩ := htypes
  let u := pre.foldl (visit env) s
  have hu : u.store.Has (.node k) := ((linked_moments env pre s).has_iff _).2 hhas
  have hthis : ((Write.type (.node k) ty).apply u).store.hasTypeThisPass (.node k) = true := by
    rw [Write.store_apply]
    exact Write.hasTypeThisPass_onStore_type hu hty
  rw [visit, happly, run_bind]
  exact (linked_trace v (next ()) ((Write.type (.node k) ty).apply u)).hasTypeThisPass hthis

/-- Some visit gives the node a shape, and then it has one to the end. -/
theorem isSome_shape_foldl {v : Visit} (hv : v ∈ vs) (hshapes : v.Shapes env k)
    (hhas : s.store.Has (.node k)) :
    ((vs.foldl (visit env) s).store.cell (.node k)).shape.isSome = true := by
  obtain ⟨pre, post, rfl⟩ := List.append_of_mem hv
  rw [List.foldl_append, List.foldl_cons]
  refine (linked_moments env post _).isSome_shape (hshapes _ ?_)
  exact ((linked_moments env pre s).has_iff _).2 hhas

theorem shape_foldl (hvs : ∀ v ∈ vs, v.KeepsShape env k) (s : CheckState) :
    ((vs.foldl (visit env) s).store.cell (.node k)).shape = (s.store.cell (.node k)).shape := by
  induction vs generalizing s with
  | nil => rfl
  | cons v vs ih =>
    obtain ⟨hv, hvs⟩ := List.forall_mem_cons.1 hvs
    rw [List.foldl_cons, ih hvs, hv s]

end Check

/-! What the visits of a literal are. -/

namespace Expr

variable {e : Expr}

theorem exists_types (he : e.isValueLiteral = true) (place : Place) :
    ∃ v ∈ e.visits place, v.Types env e.id := by
  cases e with
  | number n x =>
    obtain ⟨t, ht, hvisit⟩ := Visit.isKnown_ofNumber n x
    exact ⟨_, List.mem_singleton_self _, hvisit ▸ Visit.types_infer ht⟩
  | bigint | str | bool | null | regex =>
    exact ⟨_, List.mem_singleton_self _, Visit.types_infer rfl⟩
  | array n es =>
    rw [visits]
    exact ⟨_, List.mem_append_right _ (List.mem_singleton_self _), .inferred .array, _, rfl, rfl⟩
  | object n ps =>
    rw [visits]
    exact ⟨_, List.mem_append_right _ (List.mem_singleton_self _), Visit.types_infer rfl⟩
  | function f =>
    rw [visits, Func.visits_eq, List.append_assoc]
    exact ⟨_, List.mem_append_left _ (List.mem_singleton_self _), .inferred .func, _, rfl, rfl⟩
  | _ => simp [isValueLiteral] at he

theorem exists_shapes (he : e.isShaped = true) (place : Place) :
    ∃ v ∈ e.visits place, v.Shapes env e.id := by
  cases e with
  | array n es =>
    rw [visits]
    exact ⟨_, List.mem_append_right _ (List.mem_singleton_self _), Visit.shapes_arrayLiteral n es⟩
  | function f =>
    rw [visits, Func.visits_eq, List.append_assoc]
    exact ⟨_, List.mem_append_left _ (List.mem_singleton_self _), Visit.shapes_enterFunction _ _⟩
  | _ => simp [isShaped] at he

/-- A literal without a shape is written to by one visit only, which gives it its type. -/
theorem exists_ownVisits (he : e.isValueLiteral = true) (hshape : e.isShaped = false) :
    ∃ t : Tag, e.ownVisits? = some [.infer e.id t] := by
  cases e with
  | number n x =>
    obtain ⟨t, -, hvisit⟩ := Visit.isKnown_ofNumber n x
    exact ⟨t, by rw [ownVisits?, hvisit]; rfl⟩
  | bigint | str | bool | null | regex | object => exact ⟨_, rfl⟩
  | array | function => simp [isShaped] at hshape
  | _ => simp [isValueLiteral] at he

end Expr

namespace Program

variable {p : Program} {config : Config} {s : CheckState}

/-- A node to which no visit gives a shape never has one. -/
theorem shape_none_of_mem_passStarts
    (hvisits : ∀ v ∈ p.visits, v.KeepsShape (p.checkEnv config) k)
    (hs : s ∈ p.passStarts config) : (s.store.cell (.node k)).shape = none := by
  refine Check.forall_starts (P := fun s => (s.store.cell (.node k)).shape = none) (fun s hs => ?_)
    (by simp [initialState]) s hs
  exact (Check.shape_foldl hvisits s.beginPass).trans hs

theorem shape?_foldl_eq_none (hvisits : ∀ v ∈ p.visits, v.KeepsShape (p.checkEnv config) k)
    (hs : s ∈ p.passStarts config) {vs : List Visit} (hvs : vs ⊆ p.visits) :
    (vs.foldl (Check.visit (p.checkEnv config)) s.beginPass).store.shape? (.node k) = none := by
  have hkeep := Check.shape_foldl (fun v hv => hvisits v (hvs hv)) s.beginPass
  rw [Store.shape?, hkeep]
  exact congrArg (Option.map _) (shape_none_of_mem_passStarts hvisits hs)

/-- What is known of a literal once it has been visited: its type is of this pass, and it has a
shape if it is an array or a function. -/
theorem WellFormed.literal_spec (hp : p.WellFormed) (hs : s ∈ p.passStarts config) {e : Expr}
    (hmem : .expr e ∈ p.nodes) (he : e.isValueLiteral = true) {place : Place}
    {pre post : List Visit} (hvisits : p.visits = pre ++ e.visits place ++ post) :
    let t := (pre ++ e.visits place).foldl (Check.visit (p.checkEnv config)) s.beginPass
    t.store.hasTypeThisPass (.node e.id) = true ∧
      (t.store.shape? (.node e.id)).isSome = e.isShaped := by
  intro t
  let u := pre.foldl (Check.visit (p.checkEnv config)) s.beginPass
  have ht : t = (e.visits place).foldl (Check.visit (p.checkEnv config)) u := List.foldl_append
  have hhas : u.store.Has (.node e.id) := by
    rw [(Check.linked_moments (p.checkEnv config) pre s.beginPass).has_iff]
    exact has_node_of_mem_passStarts hs (hp.id_lt hmem)
  constructor
  · obtain ⟨v, hv, htypes⟩ := e.exists_types he place
    rw [ht]
    exact Check.hasTypeThisPass_foldl hv htypes hhas
  · cases hshape : e.isShaped with
    | true =>
      obtain ⟨v, hv, hshapes⟩ := e.exists_shapes hshape place
      rw [Store.shape?, Option.isSome_map, ht]
      exact Check.isSome_shape_foldl hv hshapes hhas
    | false =>
      obtain ⟨tag, hown⟩ := Expr.exists_ownVisits he hshape
      have hkeeps : ∀ v ∈ p.visits, v.KeepsShape (p.checkEnv config) e.id := by
        intro v hv
        by_cases hfoot : e.id ∈ v.footprint
        · obtain rfl := List.mem_singleton.1 (hp.mem_ownVisits hmem hown hv hfoot)
          exact Visit.keepsShape_of_markType rfl
        · exact Visit.keepsShape_of_notMem hfoot (hp.not_implies hmem)
      have hsub : pre ++ e.visits place ⊆ p.visits := hvisits ▸ List.subset_append_left ..
      rw [shape?_foldl_eq_none hkeeps hs hsub, Option.isSome_none]

end Program

end TagCheck
