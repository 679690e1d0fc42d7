import TagCheck.Shape.Fits

/-! The text of a shape. A function shape that is met again inside its own text is written
`func`. -/
namespace TagCheck
namespace Arena

/-- The places that are not on a path. -/
def offPath (a : Arena) (path : List FuncShapeId) : Nat :=
  (List.range a.size).countP fun id => decide (id ∉ path)

theorem offPath_cons_lt {a : Arena} {path : List FuncShapeId} {id : FuncShapeId}
    (hid : id < a.size) (h : id ∉ path) : a.offPath (id :: path) < a.offPath path := by
  refine countP_lt_countP ?_ (List.mem_range.2 hid) (by simpa using h) (by simp)
  intro x _ hx
  simp only [List.mem_cons, not_or, decide_eq_true_eq] at hx ⊢
  exact hx.2

/-- The text of a shape under the function shapes on `path`. -/
def describeUnder (a : Arena) (path : List FuncShapeId) : Shape → String
  | .array s => s.description
  | .func id =>
    if _h : id ∈ path then Tag.func.name
    else match _hf : a.get? id with
      | none => Tag.func.name
      | some f =>
        let params := f.params.map fun p =>
          match p.shape with
          | some shape => a.describeUnder (id :: path) shape
          | none => p.ty.tag.name
        let rest := if f.hasRest then if f.params.isEmpty then "..." else ",..." else ""
        let ret := match f.ret.shape with
          | some shape => a.describeUnder (id :: path) shape
          | none => f.ret.ty.tag.name
        "(" ++ ",".intercalate params ++ rest ++ ") => " ++ ret
termination_by a.offPath path
decreasing_by all_goals exact offPath_cons_lt (lt_size_of_get? ‹_›) ‹_›

def describe (a : Arena) : Option Shape → String
  | none => "(unknown)"
  | some shape => a.describeUnder [] shape

end Arena
end TagCheck
