import Mathlib.Data.List.Forall2
import TagCheck.Shape.Array

/-! The parts of array shapes, and the rules by which an array of one shape may stand for an array
of another, as relations with one case for each rule. -/
namespace TagCheck

mutual

def ArrayShape.names : ArrayShape → List ElemName
  | ⟨c, _, _⟩ => c.names

def Contents.names : Contents → List ElemName
  | .simple e => [e]
  | .tuple ms => Member.namesList ms
  | .nested s => s.names

def Member.names : Member → List ElemName
  | .elem e => [e]
  | .shape s => s.names

def Member.namesList : List Member → List ElemName
  | [] => []
  | m :: ms => m.names ++ Member.namesList ms

end

mutual

/-- Whether the arrays in a shape must not be empty, for each of them, an array before those in
it. -/
def ArrayShape.markers : ArrayShape → List Bool
  | ⟨c, n, _⟩ => n :: c.markers

def Contents.markers : Contents → List Bool
  | .simple _ => []
  | .tuple ms => Member.markersList ms
  | .nested s => s.markers

def Member.markers : Member → List Bool
  | .elem _ => []
  | .shape s => s.markers

def Member.markersList : List Member → List Bool
  | [] => []
  | m :: ms => m.markers ++ Member.markersList ms

end

namespace Tag

/-- All pairs of tags that fit: known ones that are equal, and those of the table. -/
theorem fits_iff {s t : Tag} : s.fits t = true ↔ s ≠ .unknown ∧ t ≠ .unknown ∧
    (s = t ∨ t = .any ∨ (t = .number ∧ (s = .int ∨ s = .finite)) ∨ (t = .finite ∧ s = .int) ∨
      (t = .bint ∧ s = .int)) := by
  cases t <;> simp [fits, isKnown]

theorem any_fits (t : Tag) : any.fits t = decide (t = any) := by
  cases t <;> rfl

end Tag

namespace ElemName

@[simp] theorem builtin_fits_builtin (s t : Tag) : fits (.builtin s) (.builtin t) = s.fits t := by
  cases s <;> cases t <;> rfl

@[simp] theorem builtin_fits_named (s : Tag) (n : String) :
    fits (.builtin s) (.named n) = false := by
  cases s <;> rfl

@[simp] theorem named_fits_builtin (n : String) (t : Tag) :
    fits (.named n) (.builtin t) = decide (t = .any) := by
  cases t <;> rfl

@[simp] theorem named_fits_named (m n : String) : fits (.named m) (.named n) = (m == n) := rfl

end ElemName

/-- The rules for the members of two tuples at one place. -/
inductive Member.Fits : Member → Member → Prop
  | elem {a b : ElemName} (h : a.fits b = true) : Fits (.elem a) (.elem b)
  | shape {s t : ArrayShape} (h : s.fits t = true) : Fits (.shape s) (.shape t)

/-- The rules for the contents of two arrays. An array of whatever takes every array. -/
inductive Contents.Fits : Contents → Contents → Prop
  | any (c : Contents) : Fits c (.simple (.builtin .any))
  | simple {a b : ElemName} (h : a.fits b = true) : Fits (.simple a) (.simple b)
  | tuple {ms ns : List Member} (h : List.Forall₂ Member.Fits ms ns) : Fits (.tuple ms) (.tuple ns)
  | nested {s t : ArrayShape} (h : s.fits t = true) : Fits (.nested s) (.nested t)

namespace Member

theorem fits_iff {m n : Member} : m.fits n = true ↔ m.Fits n := by
  fun_cases Member.fits m n with
  | case1 a b => exact ⟨.elem, fun h => by cases h; assumption⟩
  | case2 s t => exact ⟨.shape, fun h => by cases h; assumption⟩
  | case3 m n helem hshape =>
    refine ⟨fun h => absurd h (by simp), fun h => ?_⟩
    cases h with
    | elem => exact (helem _ _ rfl rfl).elim
    | shape => exact (hshape _ _ rfl rfl).elim

theorem fitsList_iff {ms ns : List Member} :
    Member.fitsList ms ns = true ↔ List.Forall₂ Member.Fits ms ns := by
  induction ms generalizing ns with
  | nil => cases ns <;> simp [Member.fitsList]
  | cons m ms ih => cases ns <;> simp [Member.fitsList, ih, fits_iff]

end Member

theorem Contents.fits_iff {c d : Contents} : c.fits d = true ↔ c.Fits d := by
  fun_cases Contents.fits c d with
  | case1 => exact ⟨fun _ => .any c, fun _ => rfl⟩
  | case2 a b hany =>
    refine ⟨.simple, fun h => ?_⟩
    cases h with
    | any => exact absurd rfl hany
    | simple h => exact h
  | case3 ms ns =>
    rw [Member.fitsList_iff]
    exact ⟨.tuple, fun h => by cases h; assumption⟩
  | case4 s t => exact ⟨.nested, fun h => by cases h; assumption⟩
  | case5 c d hany hsimple htuple hnested =>
    refine ⟨fun h => absurd h (by simp), fun h => ?_⟩
    cases h with
    | any => exact (hany rfl).elim
    | simple => exact (hsimple _ _ rfl rfl).elim
    | tuple => exact (htuple _ _ rfl rfl).elim
    | nested => exact (hnested _ _ rfl rfl).elim

theorem ArrayShape.fits_iff {s t : ArrayShape} :
    s.fits t = true ↔ s = t ∨ s.contents.Fits t.contents := by
  cases s
  simp [ArrayShape.fits, Contents.fits_iff]

end TagCheck
