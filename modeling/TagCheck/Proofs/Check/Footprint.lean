import TagCheck.Proofs.Check.Ordinary

/-! Which nodes a rule can write to. Each rule writes to the nodes that its visit names, and a call
also to the parameters whose types it implies, so the cells of all other nodes stay as they are. -/
namespace TagCheck

def Write.node? : Write → Option NodeId
  | type (.node n) _ | shape (.node n) _ | forceShape n _ => some n
  | _ => none

def Write.target? : Write → Option Target
  | type t _ | shape t _ => some t
  | reimply b _ => some (.binding b)
  | forceShape n _ => some (.node n)
  | touch _ | known _ | function _ | native _ _ | func _ _ | report _ _ _ _ | enter _ | leave => none

theorem Write.node?_of_target? {w : Write} {k : NodeId} (h : w.target? = some (.node k)) :
    w.node? = some k := by
  cases w with
  | type t ty | shape t x =>
    obtain rfl := Option.some.inj h
    rfl
  | forceShape n x => simpa [target?, node?] using h
  | _ => simp [target?] at h

theorem Write.cell_onStore_of_target?_ne {w : Write} {u : Target} (h : w.target? ≠ some u)
    (s : Store) : (w.onStore s).cell u = s.cell u := by
  have hmodify {t : Target} (ht : w.target? = some t) (f : Cell → Cell) :
      (s.modifyCell f t).cell u = s.cell u := by
    have hne : t ≠ u := fun heq => h (heq ▸ ht)
    rw [Store.cell_modifyCell, if_neg fun hu => hne hu.1]
  cases w with
  | type t ty =>
    cases hthis : s.hasTypeThisPass t
    · simp only [onStore, Store.markType, hthis, Bool.false_eq_true, if_false]
      exact hmodify rfl _
    · simp [onStore, Store.markType, hthis]
  | reimply b ty => exact hmodify rfl _
  | shape t x =>
    cases x with
    | none => rfl
    | some x =>
      cases hthis : s.hasShapeThisPass t
      · simp only [onStore, Store.markShape, hthis, Bool.false_eq_true, if_false]
        exact hmodify rfl _
      · simp [onStore, Store.markShape, hthis]
  | forceShape n x => exact hmodify rfl _
  | function f =>
    simp only [onStore, Store.makeFunction]
    split <;> cases u <;> rfl
  | native name result =>
    simp only [onStore, Store.makeNative]
    split <;> cases u <;> rfl
  | _ => cases u <;> rfl

theorem Write.cell_onStore_of_node?_ne {w : Write} {k : NodeId} (h : w.node? ≠ some k)
    (s : Store) : (w.onStore s).cell (.node k) = s.cell (.node k) :=
  cell_onStore_of_target?_ne (fun ht => h (node?_of_target? ht)) s

/-- The node is a parameter, or the name in a parameter, to which an argument can give a type. -/
def CheckEnv.Implies (env : CheckEnv) (k : NodeId) : Prop :=
  ∃ origin f, env.resolution.function? origin = some f ∧
    ∃ p ∈ f.params, k = p.id ∨ ∃ i, Check.Parameter.implied? p = some (i, some k)

/-- The parameter and the name in it are such nodes. -/
theorem CheckEnv.ImpliesAt.implies {env : CheckEnv} {param : Pattern} {i : Ident}
    (h : env.ImpliesAt param i) : env.Implies param.id ∧ env.Implies i.node.id := by
  obtain ⟨origin, f, inner, hf, hparam, himplied⟩ := h
  have hself : env.Implies param.id := ⟨origin, f, hf, param, hparam, .inl rfl⟩
  refine ⟨hself, ?_⟩
  cases param with
  | ident j =>
    cases himplied
    exact hself
  | withDefault n target value =>
    cases target with
    | ident j =>
      cases himplied
      exact ⟨origin, f, hf, _, hparam, .inr ⟨_, rfl⟩⟩
    | _ => cases himplied
  | _ => cases himplied

theorem Write.Ordinary.of_node? {P : NodeId → Prop} {B : BindingId → Prop}
    {own : FuncShapeId → FuncShape → FuncShape → Prop} {R : Prop} {w : Write}
    (h : w.Ordinary False P B own R) : ∀ k, w.node? = some k → P k := by
  intro k hk
  cases w with
  | type t ty =>
    cases t with
    | node n => exact Option.some.inj hk ▸ h.1.resolve_left id
    | binding b => cases hk
  | shape t x =>
    cases t with
    | node n => exact Option.some.inj hk ▸ h.resolve_left id
    | binding b => cases hk
  | forceShape n x => exact Option.some.inj hk ▸ h.resolve_left id
  | _ => cases hk

namespace Check

def Confined (P : NodeId → Prop) (m : Check α) : Prop :=
  ∀ s, m.Ensures (fun _ w => ∀ k, w.node? = some k → P k) (fun _ _ => True) s

/-- What a rule is not allowed to write to stays as it is. -/
theorem Confined.cell_run {P : NodeId → Prop} {m : Check α} {k : NodeId} (h : m.Confined P)
    (hk : ¬ P k) (s : CheckState) : (m.run s).2.store.cell (.node k) = s.store.cell (.node k) := by
  have hkeep := (h s).invariant (I := fun s' => s'.store.cell (.node k) = s.store.cell (.node k))
    rfl fun s' w hs' hw => by
      rw [Write.store_apply, Write.cell_onStore_of_node?_ne (fun hn => hk (hw k hn)), hs']
  exact (ensures_iff_trace.1 hkeep).2.1

section

variable {P : NodeId → Prop}

/-- A rule whose writes are ordinary writes to the nodes that it may write to, whatever the types. -/
theorem confined_of_ordinary {m : Check α} (h : ∀ s, m.Ensures
      (fun _ w => w.Ordinary False P (fun _ => True) (fun _ _ _ => True) True) (fun _ _ => True) s) :
    m.Confined P :=
  fun s => (h s).mono (fun _ _ hw => hw.of_node?) fun _ _ h => h

theorem Ordinary.confined {m : Check α}
    (h : m.Ordinary False P (fun _ => True) (fun _ _ _ => True) True) : m.Confined P :=
  confined_of_ordinary fun s => h s False.elim

theorem confined_condition (code : Code) (label : String) (n : Node) :
    (condition code label n).Confined P := by
  intro s
  simp [condition, Write.node?]

theorem confined_enterFunction {n : NodeId} (h : P n) (f : FuncId) :
    (enterFunction n f).Confined P := by
  intro s
  simp [enterFunction, Write.node?, h]

theorem confined_leaveFunction (pos : Position) (name : String) (result : Option NodeId) :
    (leaveFunction pos name result).Confined P := by
  intro s
  refine ensures_bind.2 ?_
  rw [ensures_frame?]
  split
  · cases result <;> simp [settleResult, Write.node?]
  · trivial

end

end Check

def Visit.footprint : Visit → List NodeId
  | infer n _ | enterFunction n _ | rest n _ | unary n _ _ | update n _ _ => [n]
  | select n _ _ | inherit n _ => [n]
  | arrayLiteral n _ | binary n _ _ _ | call n _ _ _ => [n.id]
  | identifier i (.templateTag n) => [i.node.id, n]
  | identifier i (.functionName n) => [i.node.id, n.id]
  | identifier i _ => [i.node.id]
  | assign n _ target => n.toList ++ target.idents.map (·.node.id)
  | assignDefault n target _ => n :: target.idents.map (·.node.id)
  | annotate n _ outer => n.id :: outer.toList
  | _ => []

open Check in
/-- A visit writes to the nodes that it names and to parameters that take the types of arguments. -/
theorem Visit.confined_apply (env : CheckEnv) (v : Visit) :
    (v.apply env).Confined fun k => k ∈ v.footprint ∨ env.Implies k := by
  have hself {n : NodeId} (h : v.footprint = [n]) : n ∈ v.footprint ∨ env.Implies n := by simp [h]
  cases v with
  | infer n t => exact (ordinary_markType (hself rfl) fun _ => rfl).confined
  | identifier i role =>
    refine (ordinary_identifier ?_ ?_ fun _ _ => trivial).confined
    · cases role <;> simp [footprint]
    · cases role <;> simp [Role.Regular, footprint]
  | enterFunction n f => exact confined_enterFunction (hself rfl) f
  | parameters params =>
    exact confined_of_ordinary fun s =>
      ensures_ordinary_parameters env params False.elim fun _ _ _ _ _ => trivial
  | leaveFunction pos name result => exact confined_leaveFunction pos name result
  | return_ pos argument =>
    exact confined_of_ordinary fun s => ensures_ordinary_return env pos (fun _ _ => False.elim)
      trivial False.elim fun _ _ _ _ => trivial
  | condition code label n => exact confined_condition code label n
  | declare i => exact (ordinary_declare fun _ _ => trivial).confined
  | assign n value target =>
    refine (ordinary_assign (fun m hm => .inl ?_) (fun _ _ => False.elim) target
      fun i hi => ⟨.inl ?_, fun _ _ => trivial⟩).confined
    · exact List.mem_append_left _ (Option.mem_toList.2 hm)
    · exact List.mem_append_right _ (List.mem_map_of_mem hi)
  | assignDefault n target value =>
    refine (ordinary_assignDefault (.inl (List.mem_cons_self ..))
      (fun i hi => ⟨.inl ?_, fun _ _ => trivial⟩) fun _ _ => False.elim).confined
    exact List.mem_cons_of_mem _ (List.mem_map_of_mem hi)
  | rest n argument =>
    exact (ordinary_rest ⟨.inr (hself rfl), False.elim⟩ fun _ _ _ _ => trivial).confined
  | spread pos argument expected => exact (ordinary_spread pos argument expected).confined
  | arrayLiteral n elements => exact (ordinary_arrayLiteral (hself rfl) elements).confined
  | unary n op argument => exact (ordinary_unary (hself rfl) op argument).confined
  | update n op argument => exact (ordinary_update (hself rfl) op False.elim).confined
  | binary n op left right => exact (ordinary_binary (hself rfl) env op left right).confined
  | select n a b => exact (ordinary_select (hself rfl) a b).confined
  | inherit n source => exact (ordinary_inherit (hself rfl) False.elim).confined
  | call n callee args tail =>
    refine (ordinary_call (fun param i hi => ?_) (hself rfl) callee (fun _ _ => False.elim)
      tail).confined
    exact ⟨.inr hi.implies.1, .inr hi.implies.2, fun _ _ => trivial⟩
  | annotate n text outer =>
    refine (ordinary_annotate (.inr (.inl (List.mem_cons_self ..))) text fun m hm => ?_).confined
    exact .inr (.inl (List.mem_cons_of_mem _ (Option.mem_toList.2 hm)))
  | template n tag label quasi chained => exact (ordinary_template n tag label quasi chained).confined

namespace Check

variable {env : CheckEnv} {k : NodeId}

/-- What a visit does not name and what is no parameter stays as it is. -/
theorem cell_visit_of_notMem {v : Visit} (hv : k ∉ v.footprint) (hk : ¬ env.Implies k)
    (s : CheckState) : (visit env s v).store.cell (.node k) = s.store.cell (.node k) :=
  (v.confined_apply env).cell_run (not_or.2 ⟨hv, hk⟩) s

theorem cell_foldl_visit_of_notMem {vs : List Visit} (hvs : ∀ v ∈ vs, k ∉ v.footprint)
    (hk : ¬ env.Implies k) (s : CheckState) :
    (vs.foldl (visit env) s).store.cell (.node k) = s.store.cell (.node k) := by
  induction vs generalizing s with
  | nil => rfl
  | cons v vs ih =>
    obtain ⟨hv, hvs⟩ := List.forall_mem_cons.1 hvs
    rw [List.foldl_cons, ih hvs, cell_visit_of_notMem hv hk]

end Check
end TagCheck
