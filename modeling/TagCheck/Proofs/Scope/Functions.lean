import TagCheck.Proofs.Scope.Lexical

/-! The functions that resolution notes are those of the program. -/
namespace TagCheck

def ScopeEvent.func? : ScopeEvent → Option Func
  | function f => some f
  | enter | leave | declare _ _ | refer _ => none

def SyntaxNode.funcs (ns : List SyntaxNode) : List Func := ns.filterMap SyntaxNode.func?

namespace SyntaxNode

variable {ns ns' : List SyntaxNode}

@[simp] theorem funcs_append : funcs (ns ++ ns') = funcs ns ++ funcs ns' := List.filterMap_append

@[simp] theorem funcs_cons (x : SyntaxNode) : funcs (x :: ns) = x.func?.toList ++ funcs ns := by
  cases hx : x.func? with
  | none => exact List.filterMap_cons_none hx
  | some f => exact List.filterMap_cons_some hx

@[simp] theorem funcs_names (name : Option Ident) : funcs (name.toList.map .name) = [] := by
  cases name <;> rfl

end SyntaxNode

theorem Program.registers (p : Program) : Registers p.nodes p.scopeEvents := p.unfolds.registers

/-- A step of the resolution that is about no function leaves the functions noted so far. -/
theorem Resolving.functions_step (s : Resolving) {e : ScopeEvent} (he : e.func? = none) :
    (s.step e).resolution.functions = s.resolution.functions := by
  cases e with
  | function f => cases he
  | declare i kind =>
    simp only [step, declare]
    split
    · rfl
    · split <;> rfl
  | refer i =>
    simp only [step, refer]
    split <;> rfl
  | enter | leave => rfl

theorem Resolving.size_functions_step (s : Resolving) (e : ScopeEvent) :
    (s.step e).resolution.functions.size = s.resolution.functions.size := by
  cases e with
  | function f => exact Array.size_setIfInBounds
  | _ => rw [s.functions_step rfl]

/-- A step of the resolution notes the function that it is about, and no other. -/
theorem Resolving.function?_step {s : Resolving} {e : ScopeEvent} {k : FuncId} {f : Func}
    (h : (s.step e).resolution.function? k = some f) :
    s.resolution.function? k = some f ∨ e = .function f := by
  cases e with
  | function g =>
    simp only [step, Resolution.function?, Array.getElem?_setIfInBounds] at h
    split at h
    · split at h
      · exact Or.inr (by simpa using h)
      · simp at h
    · exact Or.inl h
  | _ => exact Or.inl (by rwa [Resolution.function?, s.functions_step rfl] at h)

theorem Resolving.function?_foldl {es : List ScopeEvent} {s : Resolving} {k : FuncId} {f : Func}
    (h : (es.foldl step s).resolution.function? k = some f) :
    s.resolution.function? k = some f ∨ .function f ∈ es := by
  induction es generalizing s with
  | nil => exact Or.inl h
  | cons e es ih =>
    rcases ih h with h | h
    · rcases function?_step h with h | rfl
      · exact Or.inl h
      · exact Or.inr (List.mem_cons_self ..)
    · exact Or.inr (List.mem_cons_of_mem e h)

theorem Program.registers_of_function? {p : Program} {k : FuncId} {f : Func}
    (h : p.resolve.function? k = some f) :
    f.nodes ⊆ p.nodes ∧ ∃ x ∈ p.nodes, x.func? = some f := by
  rcases Resolving.function?_foldl h with h | h
  · simp only [Resolution.empty, Resolution.function?, Array.getElem?_replicate] at h
    split at h <;> simp at h
  · obtain ⟨x, hx, hf⟩ := p.registers.mem_iff.1 h
    exact ⟨p.registers.nodes hx hf, x, hx, hf⟩

theorem Program.nodes_of_function? {p : Program} {k : FuncId} {f : Func}
    (h : p.resolve.function? k = some f) : f.nodes ⊆ p.nodes :=
  (registers_of_function? h).1

theorem Pattern.nodes_subset_nodesList {p : Pattern} {ps : List Pattern} (h : p ∈ ps) :
    p.nodes ⊆ Pattern.nodesList ps := by
  induction ps with
  | nil => simp at h
  | cons q ps ih =>
    rw [Pattern.nodesList]
    rcases List.mem_cons.1 h with rfl | h
    · exact List.subset_append_left ..
    · exact List.Subset.trans (ih h) (List.subset_append_right ..)

theorem Program.param_nodes_of_function? {p : Program} {k : FuncId} {f : Func} {param : Pattern}
    (h : p.resolve.function? k = some f) (hparam : param ∈ f.params) : param.nodes ⊆ p.nodes := by
  refine List.Subset.trans ?_ (nodes_of_function? h)
  refine List.Subset.trans (Pattern.nodes_subset_nodesList hparam) ?_
  simp [Func.nodes_eq]

theorem Program.mem_funcs_of_function? {p : Program} {k : FuncId} {f : Func}
    (h : p.resolve.function? k = some f) : f ∈ p.funcs :=
  List.mem_filterMap.2 (registers_of_function? h).2

end TagCheck
