import TagCheck.Proofs.Program.Numbering
import TagCheck.Proofs.Scope.Functions

/-! Every function of a program is noted by its resolution, under its own number. The functions that
the scope events are about are those among the nodes, and since no two of them have the same number
none takes the place of another. -/
namespace TagCheck

namespace Resolving

variable {s : Resolving} {f : Func}

/-- A function that was noted stays so until another of its number comes. -/
theorem function?_step_of_ne (h : s.resolution.function? f.func = some f) {e : ScopeEvent}
    (he : ∀ g ∈ e.func?, g.func = f.func → g = f) :
    (s.step e).resolution.function? f.func = some f := by
  cases e with
  | function g =>
    by_cases hg : g.func = f.func
    · obtain rfl := he g rfl hg
      have hlt : g.func < s.resolution.functions.size := by
        by_contra hge
        simp [Resolution.function?, Array.getElem?_eq_none (Nat.le_of_not_lt hge)] at h
      simp [step, Resolution.function?, hlt]
    · simpa [step, Resolution.function?, Array.getElem?_setIfInBounds, hg] using h
  | _ => rwa [Resolution.function?, s.functions_step rfl]

theorem function?_foldl_of_noted {es : List ScopeEvent}
    (h : s.resolution.function? f.func = some f)
    (hes : ∀ e ∈ es, ∀ g ∈ e.func?, g.func = f.func → g = f) :
    (es.foldl step s).resolution.function? f.func = some f := by
  induction es generalizing s with
  | nil => exact h
  | cons e es ih =>
    rw [List.forall_mem_cons] at hes
    exact ih (function?_step_of_ne h hes.1) hes.2

/-- Among functions of different numbers each one that comes up is noted in the end. -/
theorem function?_foldl_of_mem {es : List ScopeEvent} (hf : .function f ∈ es)
    (hlt : f.func < s.resolution.functions.size)
    (hes : ∀ e ∈ es, ∀ g ∈ e.func?, g.func = f.func → g = f) :
    (es.foldl step s).resolution.function? f.func = some f := by
  induction es generalizing s with
  | nil => cases hf
  | cons e es ih =>
    rw [List.forall_mem_cons] at hes
    rcases List.mem_cons.1 hf with rfl | hf
    · have hnoted : (s.step (.function f)).resolution.function? f.func = some f := by
        simp [step, Resolution.function?, hlt]
      rw [List.foldl_cons]
      exact function?_foldl_of_noted hnoted hes.2
    · exact ih hf (by rwa [size_functions_step]) hes.2

end Resolving

namespace Program

variable {p : Program}

theorem WellFormed.eq_of_func_eq (hp : p.WellFormed) {f g : Func} (hf : f ∈ p.funcs)
    (hg : g ∈ p.funcs) (h : g.func = f.func) : g = f :=
  List.inj_on_of_nodup_map (hp.funcs.nodup_iff.2 List.nodup_range) hg hf h

/-- Resolution notes every function of the program under its number. -/
theorem WellFormed.function?_of_mem_funcs (hp : p.WellFormed) {f : Func} (hf : f ∈ p.funcs) :
    p.resolve.function? f.func = some f := by
  have hevent (g : Func) : g ∈ p.funcs ↔ .function g ∈ p.scopeEvents :=
    List.mem_filterMap.trans p.registers.mem_iff.symm
  refine Resolving.function?_foldl_of_mem ((hevent f).1 hf) ?_ fun e he g hg heq => ?_
  · have hlt : f.func ∈ List.range p.funcCount :=
      hp.funcs.mem_iff.1 (List.mem_map_of_mem hf)
    simpa [Resolution.empty] using hlt
  · refine hp.eq_of_func_eq hf ((hevent g).2 ?_) heq
    cases e <;> cases hg
    exact he

end Program
end TagCheck
