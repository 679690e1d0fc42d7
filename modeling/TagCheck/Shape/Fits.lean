import TagCheck.Shape.Function

/-! When a value of one shape may stand for a value of another. Function shapes may refer to each
other in circles: a pair of them is taken to fit while what it asks for is being settled, and no
pair is opened twice. -/
namespace TagCheck

theorem countP_lt_countP {α : Type} {p q : α → Bool} {l : List α} {a : α}
    (hpq : ∀ x ∈ l, p x = true → q x = true) (ha : a ∈ l) (hq : q a = true) (hp : p a = false) :
    l.countP p < l.countP q := by
  induction l with
  | nil => simp at ha
  | cons x l ih =>
    have hl : l.countP p ≤ l.countP q :=
      List.countP_mono_left fun y hy => hpq y (List.mem_cons_of_mem x hy)
    rcases List.mem_cons.1 ha with rfl | ha
    · simp only [List.countP_cons, hp, hq]
      simp
      omega
    · have ih := ih (fun y hy => hpq y (List.mem_cons_of_mem x hy)) ha
      have hx := hpq x (List.mem_cons_self ..)
      simp only [List.countP_cons]
      cases hpx : p x
      · simp
        omega
      · simp [hx hpx]
        omega

namespace FuncShape

/-- The type part of what a function shape needs to stand for another: equally many parameters,
each taking what the other takes, and a result that the other's result takes. -/
def tagsFit (s t : FuncShape) : Bool :=
  s.params.length == t.params.length &&
    ((s.params.zip t.params).all fun p => p.2.ty.tag.fits p.1.ty.tag) &&
    s.ret.ty.tag.fits t.ret.ty.tag

/-- The pairs of shapes that have to fit for the first shape to stand for the second. -/
def demands (s t : FuncShape) : List (Option Shape × Option Shape) :=
  (s.params.zip t.params).map (fun p => (p.2.shape, p.1.shape)) ++ [(s.ret.shape, t.ret.shape)]

end FuncShape

namespace Arena

def pairs (n : Nat) : List (FuncShapeId × FuncShapeId) :=
  (List.range n).flatMap fun i => (List.range n).map fun j => (i, j)

theorem mem_pairs {n i j : Nat} (hi : i < n) (hj : j < n) : (i, j) ∈ pairs n :=
  List.mem_flatMap.2 ⟨i, List.mem_range.2 hi, List.mem_map.2 ⟨j, List.mem_range.2 hj, rfl⟩⟩

/-- The pairs of places that have not been opened. -/
def unopened (a : Arena) (seen : List (FuncShapeId × FuncShapeId)) : Nat :=
  (pairs a.size).countP fun p => decide (p ∉ seen)

theorem unopened_cons_lt {a : Arena} {seen : List (FuncShapeId × FuncShapeId)}
    {s t : FuncShapeId} (hs : s < a.size) (ht : t < a.size) (h : (s, t) ∉ seen) :
    a.unopened ((s, t) :: seen) < a.unopened seen := by
  refine countP_lt_countP ?_ (mem_pairs hs ht) (by simpa using h) (by simp)
  intro x _ hx
  simp only [List.mem_cons, not_or, decide_eq_true_eq] at hx ⊢
  exact hx.2

/-- The largest count of parameters of a shape. -/
def breadth (a : Arena) : Nat := (a.shapes.toList.map fun f => f.params.length).max?.getD 0

theorem length_demands_le {a : Arena} {s : FuncShapeId} {f g : FuncShape}
    (h : a.get? s = some f) : (f.demands g).length ≤ a.breadth + 1 := by
  have hf : f ∈ a.shapes.toList := by
    obtain ⟨hs, rfl⟩ := Array.getElem?_eq_some_iff.1 h
    simp
  have : f.params.length ≤ a.breadth := List.le_max?_getD_of_mem (List.mem_map.2 ⟨f, hf, rfl⟩)
  simp only [FuncShape.demands, List.length_append, List.length_map, List.length_zip,
    List.length_singleton]
  omega

/-- A bound on the demands that are still to be settled. -/
def work (a : Arena) (seen : List (FuncShapeId × FuncShapeId)) (demands : Nat) : Nat :=
  a.unopened seen * (a.breadth + 2) + demands

theorem work_open_lt {a : Arena} {seen : List (FuncShapeId × FuncShapeId)} {s t : FuncShapeId}
    {f g : FuncShape} {n : Nat} (hs : a.get? s = some f) (ht : a.get? t = some g)
    (h : (s, t) ∉ seen) : a.work ((s, t) :: seen) ((f.demands g).length + n) <
      a.work seen (n + 1) := by
  have hl : (f.demands g).length ≤ a.breadth + 1 := length_demands_le hs
  have hu := unopened_cons_lt (lt_size_of_get? hs) (lt_size_of_get? ht) h
  have hm := Nat.mul_le_mul_right (a.breadth + 2) (Nat.succ_le_of_lt hu)
  simp only [Nat.succ_eq_add_one, Nat.add_mul, Nat.one_mul] at hm
  simp only [work]
  omega

/-- Settles a list of demands, given the pairs that were opened already. -/
def settle (a : Arena) (seen : List (FuncShapeId × FuncShapeId)) :
    List (Option Shape × Option Shape) → Bool
  | [] => true
  | (none, none) :: demands => a.settle seen demands
  | (some (.array s), some (.array t)) :: demands => s.fits t && a.settle seen demands
  | (some (.func s), some (.func t)) :: demands =>
    if _hst : s = t then a.settle seen demands
    else if _h : (s, t) ∈ seen then a.settle seen demands
    else match _hs : a.get? s, _ht : a.get? t with
      | some f, some g => f.tagsFit g && a.settle ((s, t) :: seen) (f.demands g ++ demands)
      | _, _ => false
  | _ :: _ => false
termination_by demands => a.work seen demands.length
decreasing_by
  · simp [work]
  · simp [work]
  · simp [work]
  · simp [work]
  · rw [List.length_append]
    exact work_open_lt ‹_› ‹_› ‹_›

/-- Whether a value of shape `source` may be used where `target` is expected. Two absent shapes
fit, one absent shape never does. -/
def fits (a : Arena) (source target : Option Shape) : Bool := a.settle [] [(source, target)]

end Arena
end TagCheck
