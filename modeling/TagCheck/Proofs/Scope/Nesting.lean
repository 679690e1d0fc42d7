import TagCheck.Proofs.Scope.Declared
import TagCheck.Proofs.Scope.Functions
import TagCheck.Proofs.Scope.Range

/-! Every step of a resolution finds what it refers to. Scopes are entered and left in pairs, and
names are declared in between; the nodes and functions are those that there are places for. -/
namespace TagCheck
namespace ScopeEvent

def depth (d : Nat) : ScopeEvent → Nat
  | enter => d + 1
  | leave => d - 1
  | declare _ _ | refer _ | function _ => d

/-- The event is about the innermost of the open scopes. -/
def NeedsScope : ScopeEvent → Prop
  | leave | declare _ _ => True
  | enter | refer _ | function _ => False

/-- Where a scope is needed there is one, if this many are open before the events. -/
def Nested : Nat → List ScopeEvent → Prop
  | _, [] => True
  | d, e :: es => (e.NeedsScope → 0 < d) ∧ Nested (e.depth d) es

theorem nested_append {d : Nat} {es es' : List ScopeEvent} :
    Nested d (es ++ es') ↔ Nested d es ∧ Nested (es.foldl depth d) es' := by
  induction es generalizing d with
  | nil => simp [Nested]
  | cons e es ih => simp [Nested, ih, and_assoc]

/-- Where so many scopes are open, the events close what they open and no more. -/
def Balanced (least : Nat) (es : List ScopeEvent) : Prop :=
  ∀ d, least ≤ d → Nested d es ∧ es.foldl depth d = d

namespace Balanced

variable {least : Nat} {es es' : List ScopeEvent}

theorem nil : Balanced least [] := fun _ _ => ⟨trivial, rfl⟩

theorem append (h : Balanced least es) (h' : Balanced least es') : Balanced least (es ++ es') := by
  intro d hd
  obtain ⟨hnested, hdepth⟩ := h d hd
  obtain ⟨hnested', hdepth'⟩ := h' d hd
  rw [nested_append, List.foldl_append, hdepth]
  exact ⟨⟨hnested, hnested'⟩, hdepth'⟩

theorem mono (h : Balanced 0 es) : Balanced least es := fun d _ => h d (Nat.zero_le d)

theorem refer (i : Ident) : Balanced least [.refer i] := fun _ _ => ⟨⟨False.elim, trivial⟩, rfl⟩

theorem function (f : Func) : Balanced least [.function f] :=
  fun _ _ => ⟨⟨False.elim, trivial⟩, rfl⟩

theorem declare (i : Ident) (kind : BindingKind) : Balanced 1 [.declare i kind] :=
  fun _ hd => ⟨⟨fun _ => hd, trivial⟩, rfl⟩

theorem declarations (ds : List Declaration) : Balanced 1 (ds.map Declaration.event) := by
  induction ds with
  | nil => exact nil
  | cons d ds ih => exact (declare d.ident d.kind).append ih

/-- What needs a scope may stand within one. -/
theorem scope (h : Balanced 1 es) :
    Balanced 0 ([ScopeEvent.enter] ++ es ++ [ScopeEvent.leave]) := by
  intro d _
  obtain ⟨hnested, hdepth⟩ := h (d + 1) (Nat.le_add_left 1 d)
  rw [nested_append, nested_append]
  simp [Nested, NeedsScope, depth, hnested, hdepth]

theorem of_unfolds {ns : List SyntaxNode} {outer : List Ident} {ts : List ScopeTree}
    (h : Unfolds ns outer es ts) (hns : InPlace ns) : Balanced 0 es := by
  induction h with
  | nil => exact nil
  | append _ _ ih ih' =>
    rw [inPlace_append] at hns
    exact (ih hns.1).append (ih' hns.2)
  | skip _ _ _ ih => exact ih (inPlace_cons.1 hns).2
  | use => exact refer _
  | mono _ _ ih => exact ih hns
  | function _ hnodes _ _ ih ih' =>
    rw [inPlace_cons, hnodes, inPlace_append] at hns
    exact (ih hns.2.1).append ((function _).append (ih' hns.2.2))
  | outOfPlace hx h _ => exact absurd (hns _ hx) h
  | scope own head body _ _ ih ih' =>
    simp only [inPlace_append] at hns
    have hown : Balanced 1 (own.toList.flatMap fun i => [.declare i .functionName, .refer i]) := by
      cases own with
      | none => exact nil
      | some i => exact (declare i .functionName).append (refer i)
    have hinner := (((hown.append (declarations head)).append (ih hns.1.2).mono).append
      (declarations body)).append (ih' hns.2).mono
    simpa only [List.append_assoc] using hinner.scope

end Balanced

end ScopeEvent

namespace Resolving

/-- What the next step refers to is there. -/
def Ready (s : Resolving) : ScopeEvent → Prop
  | .enter => True
  | .leave | .declare _ _ => s.scopes ≠ []
  | .refer i => i.node.id < s.resolution.refs.size
  | .function f => f.func < s.resolution.functions.size

theorem length_scopes_step (s : Resolving) (e : ScopeEvent) :
    (s.step e).scopes.length = e.depth s.scopes.length := by
  cases e with
  | enter | function f => rfl
  | leave => simp [step, ScopeEvent.depth]
  | declare i kind =>
    simp only [step, declare, ScopeEvent.depth]
    split
    · simp [*]
    · split <;> simp [*]
  | refer i =>
    simp only [step, refer, ScopeEvent.depth]
    split <;> rfl

theorem length_scopes_foldl (s : Resolving) (es : List ScopeEvent) :
    (es.foldl step s).scopes.length = es.foldl ScopeEvent.depth s.scopes.length := by
  induction es generalizing s with
  | nil => rfl
  | cons e es ih => rw [List.foldl_cons, List.foldl_cons, ih, length_scopes_step]

theorem size_functions_foldl (s : Resolving) (es : List ScopeEvent) :
    (es.foldl step s).resolution.functions.size = s.resolution.functions.size := by
  induction es generalizing s with
  | nil => rfl
  | cons e es ih => rw [List.foldl_cons, ih, size_functions_step]

end Resolving

namespace Program

variable {p : Program}

def resolving (p : Program) (es : List ScopeEvent) : Resolving :=
  es.foldl Resolving.step ⟨[], .empty p.nodeCount p.funcCount⟩

theorem inRange_resolving (p : Program) (es : List ScopeEvent) :
    (p.resolving es).InRange p.nodeCount :=
  (Resolving.inRange_empty p.nodeCount p.funcCount).foldl es

theorem WellFormed.func_lt (hp : p.WellFormed) {x : SyntaxNode} (hx : x ∈ p.nodes) {f : Func}
    (hf : x.func? = some f) : f.func < p.funcCount :=
  List.mem_range.1 (hp.funcs.subset (List.mem_map_of_mem (List.mem_filterMap.2 ⟨x, hx, hf⟩)))

/-- Wherever a resolution has got to, it finds what its next step refers to. -/
theorem WellFormed.ready (hp : p.WellFormed) {before after : List ScopeEvent} {e : ScopeEvent}
    (h : p.scopeEvents = before ++ e :: after) : (p.resolving before).Ready e := by
  have hmem : e ∈ p.scopeEvents := by simp [h]
  have hscope (hneeds : e.NeedsScope) : (p.resolving before).scopes ≠ [] := by
    have hnested := ((ScopeEvent.Balanced.of_unfolds p.unfolds hp.isInPlace) 0 (Nat.le_refl 0)).1
    rw [h, ScopeEvent.nested_append] at hnested
    have hlength := Resolving.length_scopes_foldl ⟨[], .empty p.nodeCount p.funcCount⟩ before
    exact List.ne_nil_of_length_pos (hlength ▸ hnested.2.1 hneeds)
  cases e with
  | enter => trivial
  | leave => exact hscope trivial
  | declare i kind => exact hscope trivial
  | refer i =>
    obtain ⟨x, hx, hi⟩ := List.mem_filterMap.1 (hp.mem_identifiers_of_refer hmem)
    rw [Resolving.Ready, (p.inRange_resolving before).size_refs, ← SyntaxNode.id_of_ident? hi]
    exact hp.id_lt hx
  | function f =>
    obtain ⟨x, hx, hf⟩ := p.registers.mem_iff.1 hmem
    rw [Resolving.Ready, resolving, Resolving.size_functions_foldl]
    simpa [Resolution.empty] using hp.func_lt hx hf

end Program
end TagCheck
