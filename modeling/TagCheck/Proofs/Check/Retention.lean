import TagCheck.Proofs.Check.Moments

/-! Nothing is forgotten in a run: types of bindings, shapes, and what function shapes hold stay
known from one state to the next, and across the passes. -/
namespace TagCheck

/-- What is known in a store is known in a later one. Another type or shape may take the place of
the one that was there. -/
structure Store.Keeps (s s' : Store) : Prop where
  binding (b : BindingId) : s.isUntyped (.binding b) = false → s'.isUntyped (.binding b) = false
  shape (t : Target) : (s.shape? t).isSome = true → (s'.shape? t).isSome = true
  func (id : FuncShapeId) (f : FuncShape) :
    s.arena.get? id = some f → ∃ g, s'.arena.get? id = some g ∧ f.Keeps g

def Store.BindingsKnown (s : Store) : Prop :=
  ∀ b ty, s.ty? (.binding b) = some ty → ty.isKnown = true

namespace Visit.Permits

variable {env : CheckEnv} {v : Visit} {s : CheckState} {w : Write}

/-- A permitted write to the type slot of a binding leaves a known type there. -/
theorem retypes_binding (h : v.Permits env s w) (b : BindingId) :
    s.store.Retypes (w.onStore s.store) (.binding b) := by
  rcases w.ty_cell_onStore s.store (.binding b) with hty | ⟨ty, rfl, -, hty⟩ | ⟨b', ty, rfl, -, hty⟩
  · exact Or.inl hty
  · exact Or.inr ⟨_, hty, h.of_type⟩
  · exact Or.inr ⟨_, hty, h.of_reimply.2.2.1⟩

theorem keeps (h : v.Permits env s w) : s.store.Keeps (w.onStore s.store) where
  binding b := (h.retypes_binding b).isUntyped_eq_false
  shape t ht := by
    rw [Store.shape?, Option.isSome_map] at ht ⊢
    exact Write.isSome_shape_cell_onStore ht
  func id f hf := by
    rcases w.get?_onStore hf with hg | ⟨g, rfl, hg⟩
    · exact ⟨f, hg, FuncShape.Keeps.refl f⟩
    · exact ⟨g f, hg, h.of_func f⟩

theorem bindingsKnown (h : v.Permits env s w) (hs : s.store.BindingsKnown) :
    (w.onStore s.store).BindingsKnown :=
  fun b _ hty => (h.retypes_binding b).isKnown (hs b) hty

end Visit.Permits

/-- A binding that has a type keeps one. -/
theorem Check.Linked.typed {env : CheckEnv} {s t : CheckState} {ms : List Moment} {b : BindingId}
    (h : Linked s ms t) (hms : ∀ m ∈ ms, m.visit.Permits env m.before m.write)
    (hs : s.store.isUntyped (.binding b) = false) : t.store.isUntyped (.binding b) = false := by
  refine h.lasts (P := fun u => u.store.isUntyped (.binding b) = false) hs fun m hm hb => ?_
  rw [Moment.after, Write.store_apply]
  exact (hms m hm).keeps.binding b hb

theorem Store.keeps_beginPass (s : Store) : s.Keeps s.beginPass where
  binding _ := id
  shape _ := id
  func _ f hf := ⟨f, hf, FuncShape.Keeps.refl f⟩

theorem Program.bindingsKnown_initialState (p : Program) (r : Resolution) :
    (p.initialState r).store.BindingsKnown := by
  simp [initialState, Store.BindingsKnown, Store.ty?]

/-- From each state of a run to the next, within a pass and across passes, nothing that is known is
forgotten, and no binding is ever given the unknown type. -/
theorem Program.history_keeps (p : Program) (config : Config) :
    (p.history config).IsChain (fun s s' => s.store.Keeps s'.store) ∧
      (∀ s ∈ p.history config, s.store.BindingsKnown) ∧
      (p.history config).head? = some (p.initialState p.resolve) ∧
      (p.history config).getLast?.map (·.store) = some (p.check config).store := by
  have hchain : (p.history config).IsChain fun s s' =>
      s.store.Keeps s'.store ∧ (s.store.BindingsKnown → s'.store.BindingsKnown) := by
    refine Check.isChain_history (fun s => ⟨s.store.keeps_beginPass, id⟩) (fun s m hm => ?_) _ _
    have hpermits := (Check.permits_of_mem_moments hm).2
    rw [Moment.after, Write.store_apply]
    exact ⟨hpermits.keeps, hpermits.bindingsKnown⟩
  refine ⟨hchain.imp fun _ _ h => h.1, ?_, rfl, p.store_check config⟩
  exact hchain.induction _ _ (fun _ _ h => h.2) fun _ => p.bindingsKnown_initialState p.resolve

theorem Program.history_keeps_function :
    ∃ p, Program.ofSource "var f = a => [a]; f(1);" = .ok p ∧
      (p.history {}).IsChain (fun s s' => s.store.Keeps s'.store) ∧
      ∃ s ∈ p.history {}, s.store.BindingsKnown ∧ s.store.isUntyped (.binding 0) = false ∧
        (s.store.shape? (.binding 0)).isSome = true ∧ (s.store.arena.get? 0).isSome = true := by
  obtain ⟨p, hp, htest⟩ := Program.exists_of_any "var f = a => [a]; f(1);"
    (fun p => (p.history {}).any fun s => !s.store.isUntyped (.binding 0) &&
      (s.store.shape? (.binding 0)).isSome && (s.store.arena.get? 0).isSome) (by decide +kernel)
  obtain ⟨hkeeps, hknown, -, -⟩ := p.history_keeps {}
  obtain ⟨s, hs, htest⟩ := List.any_eq_true.1 htest
  simp only [Bool.and_eq_true, Bool.not_eq_true'] at htest
  exact ⟨p, hp, hkeeps, s, hs, hknown s hs, htest.1.1, htest.1.2, htest.2⟩

end TagCheck
