import TagCheck.Scope.Resolution

/-! An identifier that means something means a binding of the program, and it is a node of it. -/
namespace TagCheck
namespace Resolving

/-- All bindings that are in scope or meant by an identifier have been made. -/
structure InRange (nodes : Nat) (s : Resolving) : Prop where
  scopes : ∀ scope ∈ s.scopes, ∀ x ∈ scope, x.2 < s.resolution.bindings.size
  refs (n : NodeId) (b : BindingId) :
    s.resolution.bindingOf? n = some b → b < s.resolution.bindings.size
  size_refs : s.resolution.refs.size = nodes

variable {nodes : Nat} {s : Resolving}

theorem InRange.lookup? {scopes : List Scope} {bound : Nat} {name : String} {b : BindingId}
    (hscopes : ∀ scope ∈ scopes, ∀ x ∈ scope, x.2 < bound)
    (h : Resolving.lookup? name scopes = some b) : b < bound := by
  induction scopes with
  | nil => cases h
  | cons scope outer ih =>
    obtain ⟨hscope, houter⟩ := List.forall_mem_cons.1 hscopes
    rw [Resolving.lookup?] at h
    cases hlookup : scope.lookup name with
    | none => exact ih houter (by simpa [hlookup] using h)
    | some b' =>
      obtain rfl : b' = b := by simpa [hlookup] using h
      obtain ⟨l₁, l₂, rfl, -⟩ := List.lookup_eq_some_iff.1 hlookup
      exact hscope (name, b') (by simp)

theorem InRange.declare (h : s.InRange nodes) (i : Ident) (kind : BindingKind) :
    (s.declare i kind).InRange nodes := by
  unfold Resolving.declare
  split
  · exact h
  · rename_i scope outer hs
    split
    · exact h
    · obtain ⟨hscope, houter⟩ := List.forall_mem_cons.1 (hs ▸ h.scopes)
      have hmore {b : BindingId} (hb : b < s.resolution.bindings.size) :
          b < (s.resolution.bindings.push ⟨i.name, kind, i.node.pos⟩).size := by
        rw [Array.size_push]
        exact Nat.lt_succ_of_lt hb
      refine ⟨List.forall_mem_cons.2 ⟨List.forall_mem_cons.2 ⟨by simp, ?_⟩, ?_⟩, ?_, h.size_refs⟩
      · exact fun x hx => hmore (hscope x hx)
      · exact fun scope' hscope' x hx => hmore (houter scope' hscope' x hx)
      · exact fun n b hb => hmore (h.refs n b hb)

theorem InRange.refer (h : s.InRange nodes) (i : Ident) : (s.refer i).InRange nodes := by
  unfold Resolving.refer
  split
  · exact h
  · rename_i b hb
    refine ⟨h.scopes, fun n b' hb' => ?_, by simpa using h.size_refs⟩
    simp only [Resolution.bindingOf?, Resolution.reference?, Array.getElem?_setIfInBounds] at hb'
    split at hb'
    · split at hb'
      · obtain rfl : b = b' := by simpa using hb'
        exact InRange.lookup? h.scopes hb
      · simp at hb'
    · exact h.refs n b' hb'

theorem InRange.step (h : s.InRange nodes) (e : ScopeEvent) : (s.step e).InRange nodes := by
  cases e with
  | enter => exact ⟨List.forall_mem_cons.2 ⟨by simp, h.scopes⟩, h.refs, h.size_refs⟩
  | leave =>
    exact ⟨fun scope hscope => h.scopes scope (List.mem_of_mem_tail hscope), h.refs, h.size_refs⟩
  | declare i kind => exact h.declare i kind
  | refer i => exact h.refer i
  | function f => exact ⟨h.scopes, h.refs, h.size_refs⟩

theorem InRange.foldl (h : s.InRange nodes) (es : List ScopeEvent) :
    (es.foldl Resolving.step s).InRange nodes := by
  induction es generalizing s with
  | nil => exact h
  | cons e es ih => exact ih (h.step e)

end Resolving

theorem Resolution.bindingOf?_empty (nodes funcs : Nat) (n : NodeId) :
    (empty nodes funcs).bindingOf? n = none := by
  simp only [bindingOf?, reference?, empty, Array.getElem?_replicate]
  split <;> rfl

theorem Resolution.lt_of_bindingOf? {r : Resolution} {n : NodeId} {b : BindingId}
    (h : r.bindingOf? n = some b) : n < r.refs.size := by
  cases Nat.lt_or_ge n r.refs.size with
  | inl hn => exact hn
  | inr hn => simp [bindingOf?, reference?, Array.getElem?_eq_none hn] at h

theorem Resolving.inRange_empty (nodes funcs : Nat) : InRange nodes ⟨[], .empty nodes funcs⟩ :=
  ⟨by simp, fun n b hb => by simp [Resolution.bindingOf?_empty] at hb, by simp [Resolution.empty]⟩

theorem Program.inRange_resolve (p : Program) : ∃ scopes, Resolving.InRange p.nodeCount
    ⟨scopes, p.resolve⟩ :=
  ⟨_, (Resolving.inRange_empty p.nodeCount p.funcCount).foldl p.scopeEvents⟩

theorem Program.lt_of_bindingOf? {p : Program} {n : NodeId} {b : BindingId}
    (h : p.resolve.bindingOf? n = some b) : b < p.resolve.bindings.size ∧ n < p.nodeCount := by
  obtain ⟨scopes, hrange⟩ := p.inRange_resolve
  exact ⟨hrange.refs n b h, hrange.size_refs ▸ Resolution.lt_of_bindingOf? h⟩

end TagCheck
