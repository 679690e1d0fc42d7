import Mathlib.Data.List.Perm.Subperm
import TagCheck.Proofs.Check.Closed
import TagCheck.Shape.Describe

/-! Shapes described with a stack: a function shape is pushed before its slots are described and
popped behind them. The walk records its calls. It comes to an end on circular shapes too, gives
the stack back after every call and never goes deeper than there are function shapes. -/
namespace TagCheck

/-- A call of the walk: what the calls around it have expanded, the innermost first, what it was to
describe, the stack when it began and when it returned, and its text. -/
structure DescribeCall where
  around : List FuncShapeId
  shape : Option Shape
  entered : List FuncShapeId
  left : List FuncShapeId
  text : String

structure DescribeState where
  stack : List FuncShapeId
  /-- The calls that have returned, the last one first. -/
  calls : List DescribeCall

/-- A part of the walk; there is no result where it goes too deep or an id has no function shape. -/
abbrev Describing := StateT DescribeState Option

namespace Describing

def getStack : Describing (List FuncShapeId) := fun s => some (s.stack, s)

def getFunc (a : Arena) (id : FuncShapeId) : Describing FuncShape := fun s =>
  (a.get? id).map (·, s)

def recorded (around : List FuncShapeId) (shape : Option Shape) (body : Describing String) :
    Describing String := fun s =>
  (body s).map fun (text, s') =>
    (text, { s' with calls := ⟨around, shape, s.stack, s'.stack, text⟩ :: s'.calls })

def pushing (id : FuncShapeId) (body : Describing String) : Describing String := fun s =>
  (body { s with stack := id :: s.stack }).map fun (text, s') =>
    (text, { s' with stack := s'.stack.tail })

def slot (describe : Option Shape → Describing String) (ty : Ty) :
    Option Shape → Describing String
  | some x => describe (some x)
  | none => pure ty.tag.name

end Describing

open Describing in
/-- The text of a shape, with at most `depth` calls open at a time. -/
def Arena.describeIn (a : Arena) : Nat → List FuncShapeId → Option Shape → Describing String
  | 0, _, _ => failure
  | depth + 1, around, shape => recorded around shape <|
    match shape with
    | none => pure "(unknown)"
    | some (.array s) => pure s.description
    | some (.func id) => do
      if id ∈ (← getStack) then return Tag.func.name
      pushing id do
        let f ← getFunc a id
        let params ← f.params.mapM fun p => slot (a.describeIn depth (id :: around)) p.ty p.shape
        let rest := if f.hasRest then if f.params.isEmpty then "..." else ",..." else ""
        let ret ← slot (a.describeIn depth (id :: around)) f.ret.ty f.ret.shape
        return "(" ++ ",".intercalate params ++ rest ++ ") => " ++ ret

/-- The stack is what the calls around have expanded, nothing twice, and it is given back as it
was. A function shape that is on it is not expanded again. -/
structure DescribeCall.Sound (a : Arena) (c : DescribeCall) : Prop where
  entered_eq : c.entered = c.around
  left_eq : c.left = c.entered
  nodup : c.around.Nodup
  again : ∀ id ∈ c.around, c.shape = some (.func id) → c.text = Tag.func.name
  depth_le : c.around.length + 1 ≤ a.size + 1

namespace Describing

/-- Started with this stack, the walk gives this value, the stack as it was and sound calls. -/
def Gives {α : Type} (a : Arena) (m : Describing α) (path : List FuncShapeId) (v : α) : Prop :=
  ∀ calls, ∃ new, m ⟨path, calls⟩ = some (v, ⟨path, new ++ calls⟩) ∧ ∀ c ∈ new, c.Sound a

variable {a : Arena} {α β : Type} {path : List FuncShapeId}

theorem gives_pure (v : α) : Gives a (pure v) path v := fun _ => ⟨[], rfl, by simp⟩

theorem gives_getStack : Gives a getStack path path := fun _ => ⟨[], rfl, by simp⟩

theorem gives_getFunc {id : FuncShapeId} {f : FuncShape} (h : a.get? id = some f) :
    Gives a (getFunc a id) path f := fun _ => ⟨[], by simp [getFunc, h], by simp⟩

theorem Gives.bind {m : Describing α} {f : α → Describing β} {v : α} {w : β}
    (hm : Gives a m path v) (hf : Gives a (f v) path w) : Gives a (m >>= f) path w := by
  intro calls
  obtain ⟨new, hrun, hnew⟩ := hm calls
  obtain ⟨new', hrun', hnew'⟩ := hf (new ++ calls)
  refine ⟨new' ++ new, ?_, List.forall_mem_append.2 ⟨hnew', hnew⟩⟩
  simp [Bind.bind, StateT.bind, hrun, hrun']

theorem gives_mapM {γ : Type} {f : γ → Describing α} {g : γ → α} {xs : List γ}
    (h : ∀ x ∈ xs, Gives a (f x) path (g x)) : Gives a (xs.mapM f) path (xs.map g) := by
  induction xs with
  | nil => exact gives_pure _
  | cons x xs ih =>
    rw [List.mapM_cons]
    obtain ⟨hx, hxs⟩ := List.forall_mem_cons.1 h
    exact hx.bind ((ih hxs).bind (gives_pure _))

theorem Gives.pushing {id : FuncShapeId} {m : Describing String} {text : String}
    (h : Gives a m (id :: path) text) : Gives a (pushing id m) path text := by
  intro calls
  obtain ⟨new, hrun, hnew⟩ := h calls
  exact ⟨new, by simp [Describing.pushing, hrun], hnew⟩

theorem Gives.recorded {shape : Option Shape} {m : Describing String} {text : String}
    (h : Gives a m path text) (hsound : DescribeCall.Sound a ⟨path, shape, path, path, text⟩) :
    Gives a (recorded path shape m) path text := by
  intro calls
  obtain ⟨new, hrun, hnew⟩ := h calls
  exact ⟨_ :: new, by simp [Describing.recorded, hrun], List.forall_mem_cons.2 ⟨hsound, hnew⟩⟩

theorem head?_calls_of_recorded {around : List FuncShapeId} {shape : Option Shape}
    {m : Describing String} {s s' : DescribeState} {text : String}
    (h : recorded around shape m s = some (text, s')) :
    s'.calls.head? = some ⟨around, shape, s.stack, s'.stack, text⟩ := by
  obtain ⟨r, -, heq⟩ := Option.map_eq_some_iff.1 h
  cases heq
  rfl

end Describing

namespace Arena

variable {a : Arena}

def slotText (a : Arena) (path : List FuncShapeId) (unshaped : String) (shape : Option Shape) :
    String :=
  shape.elim unshaped (a.describeUnder path)

theorem describeUnder_func {path : List FuncShapeId} {id : FuncShapeId} {f : FuncShape}
    (hid : id ∉ path) (hf : a.get? id = some f) :
    a.describeUnder path (.func id) =
      "(" ++ ",".intercalate (f.params.map fun p =>
        a.slotText (id :: path) p.ty.tag.name p.shape) ++
        (if f.hasRest then if f.params.isEmpty then "..." else ",..." else "") ++ ") => " ++
        a.slotText (id :: path) f.ret.ty.tag.name f.ret.shape := by
  rw [describeUnder, dif_neg hid]
  split
  · next hnone => simp [hf] at hnone
  · next f' hf' =>
    obtain rfl : f = f' := by simpa [hf] using hf'
    refine congrArg₂ (fun ps result => "(" ++ ",".intercalate ps ++ _ ++ ") => " ++ result)
      (List.map_congr_left fun p _ => ?_) ?_
    · cases hshape : p.shape <;> rfl
    · cases hshape : f.ret.shape <;> rfl

theorem length_le_size {path : List FuncShapeId} (hnodup : path.Nodup)
    (hpath : ∀ id ∈ path, id < a.size) : path.length ≤ a.size := by
  have hsub : path ⊆ List.range a.size := fun id hid => List.mem_range.2 (hpath id hid)
  simpa using (hnodup.subperm hsub).length_le

open Describing

theorem describeIn_gives (hclosed : ∀ id f, a.get? id = some f → f.Below a.size) {depth : Nat}
    {path : List FuncShapeId} (hnodup : path.Nodup) (hpath : ∀ id ∈ path, id < a.size)
    (hdepth : a.size + 1 ≤ depth + path.length) {shape : Option Shape}
    (hshape : ∀ x ∈ shape, x.Below a.size) :
    Gives a (a.describeIn depth path shape) path (a.slotText path "(unknown)" shape) := by
  induction depth generalizing path shape with
  | zero =>
    have hlength := length_le_size hnodup hpath
    omega
  | succ depth ih =>
    unfold describeIn
    refine .recorded ?_ ⟨rfl, rfl, hnodup, ?_, Nat.succ_le_succ (length_le_size hnodup hpath)⟩
    · cases shape with
      | none => exact gives_pure _
      | some x =>
        cases x with
        | array s =>
          simp only [slotText, Option.elim_some, describeUnder]
          exact gives_pure _
        | func id =>
          refine gives_getStack.bind ?_
          by_cases hmem : id ∈ path
          · simpa [hmem, slotText, describeUnder] using gives_pure _
          · have hid : id < a.size := hshape _ rfl
            obtain ⟨f, hf⟩ : ∃ f, a.get? id = some f := ⟨_, Array.getElem?_eq_getElem hid⟩
            have hbelow := hclosed id f hf
            have hslot : ∀ ty (y : Option Shape), (∀ z ∈ y, z.Below a.size) →
                Gives a (slot (a.describeIn depth (id :: path)) ty y) (id :: path)
                  (a.slotText (id :: path) ty.tag.name y) := by
              intro ty y hy
              cases y with
              | none => exact gives_pure _
              | some z =>
                exact ih (List.nodup_cons.2 ⟨hmem, hnodup⟩) (List.forall_mem_cons.2 ⟨hid, hpath⟩)
                  (by simp only [List.length_cons]; omega) hy
            rw [if_neg hmem, slotText, Option.elim_some, describeUnder_func hmem hf]
            refine .pushing ((gives_getFunc hf).bind ?_)
            refine (gives_mapM fun p hp => hslot p.ty p.shape (hbelow.params p hp)).bind ?_
            exact (hslot f.ret.ty f.ret.shape hbelow.ret).bind (gives_pure _)
    · rintro id hid rfl
      simp [slotText, describeUnder, hid]

/-- On every closed arena, circular or not, a walk that may go one deeper than there are function
shapes gives the text of a shape, and all of its calls are sound. -/
theorem describeIn_total (hclosed : ∀ id f, a.get? id = some f → f.Below a.size)
    {shape : Option Shape} (hshape : ∀ x ∈ shape, x.Below a.size) {depth : Nat}
    (hdepth : a.size + 1 ≤ depth) :
    ∃ calls, a.describeIn depth [] shape ⟨[], []⟩ = some (a.describe shape, ⟨[], calls⟩) ∧
      calls.head? = some ⟨[], shape, [], [], a.describe shape⟩ ∧ ∀ c ∈ calls, c.Sound a := by
  obtain ⟨calls, hrun, hcalls⟩ :=
    describeIn_gives hclosed List.nodup_nil (by simp) (by simpa using hdepth) hshape []
  rw [List.append_nil] at hrun
  have hdescribe : a.slotText [] "(unknown)" shape = a.describe shape := by
    cases shape <;> rfl
  rw [hdescribe] at hrun
  refine ⟨calls, hrun, ?_, hcalls⟩
  obtain ⟨depth, rfl⟩ : ∃ d, depth = d + 1 := ⟨depth - 1, by omega⟩
  unfold describeIn at hrun
  exact head?_calls_of_recorded hrun

def circle : Arena where
  shapes := #[
    ⟨[⟨.tagged .func, some (.func 0)⟩, ⟨.tagged .func, some (.func 1)⟩], true,
      ⟨.tagged .int, none, false, true⟩, none⟩,
    ⟨[], false, ⟨.tagged .func, some (.func 0), false, true⟩, none⟩]

theorem describeIn_total_of_circle :
    circle.describe (some (.func 0)) = "(func,() => func,...) => int" ∧
    ∃ calls, circle.describeIn 3 [] (some (.func 0)) ⟨[], []⟩ =
        some (circle.describe (some (.func 0)), ⟨[], calls⟩) ∧
      calls.head? = some ⟨[], some (.func 0), [], [], circle.describe (some (.func 0))⟩ ∧
      ∀ c ∈ calls, c.Sound circle := by
  refine ⟨by decide +kernel, describeIn_total ?_ ?_ (by decide)⟩
  · intro id f hf
    have hmem := Array.mem_of_getElem? hf
    simp only [circle, List.mem_toArray, List.mem_cons, List.not_mem_nil, or_false] at hmem
    rcases hmem with rfl | rfl
    · exact ⟨by simp [Shape.Below, circle, size], by simp⟩
    · exact ⟨by simp, by simp [Shape.Below, circle, size]⟩
  · simp [Shape.Below, circle, size]

end Arena
end TagCheck
