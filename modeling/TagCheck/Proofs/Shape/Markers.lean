import TagCheck.Proofs.Shape.Preorder
import TagCheck.Proofs.Shape.Rendering

/-! Markers of arrays that must not be empty. They are asked for where a value or a literal is
looked at; what an array of one shape may stand for does not depend on them. -/
namespace TagCheck

mutual

/-- The shape with no marker in it, and no description, which shows them. -/
def ArrayShape.unmarked : ArrayShape → ArrayShape
  | ⟨c, _, _⟩ => ⟨c.unmarked, false, ""⟩

def Contents.unmarked : Contents → Contents
  | .simple e => .simple e
  | .tuple ms => .tuple (Member.unmarkedList ms)
  | .nested s => .nested s.unmarked

def Member.unmarked : Member → Member
  | .elem e => .elem e
  | .shape s => .shape s.unmarked

def Member.unmarkedList : List Member → List Member
  | [] => []
  | m :: ms => m.unmarked :: Member.unmarkedList ms

end

theorem Tag.fits_self {t : Tag} (ht : t ≠ .unknown) : t.fits t = true :=
  fits_iff.2 ⟨ht, ht, .inl rfl⟩

namespace ElemName

theorem fits_self {e : ElemName} (he : e ≠ .builtin .unknown) : e.fits e = true := by
  cases e with
  | builtin t => simpa using Tag.fits_self (t := t) (by simpa using he)
  | named n => simp

end ElemName

mutual

/-- Shapes that differ in markers only fit, whatever the markers: every rule compares what is in
the arrays. -/
theorem ArrayShape.fits_of_unmarked_eq : (s : ArrayShape) → {t : ArrayShape} →
    s.unmarked = t.unmarked → .builtin .unknown ∉ s.names → s.fits t = true
  | ⟨c, n, d⟩, ⟨c', n', d'⟩, heq, hs => by
    simp only [ArrayShape.unmarked, ArrayShape.mk.injEq, and_true] at heq
    exact ArrayShape.fits_iff.2 (.inr (Contents.fits_of_unmarked_eq c heq hs))

theorem Contents.fits_of_unmarked_eq : (c : Contents) → {d : Contents} →
    c.unmarked = d.unmarked → .builtin .unknown ∉ c.names → c.Fits d
  | .simple e, d, heq, hc => by
    cases d with
    | simple e' =>
      obtain rfl : e = e' := by simpa [Contents.unmarked] using heq
      exact .simple (ElemName.fits_self (by simpa [Contents.names, eq_comm] using hc))
    | _ => simp [Contents.unmarked] at heq
  | .tuple ms, d, heq, hc => by
    cases d with
    | tuple ms' =>
      exact .tuple (Member.forall_fits_of_unmarked_eq ms (by simpa [Contents.unmarked] using heq)
        (by simpa [Contents.names] using hc))
    | _ => simp [Contents.unmarked] at heq
  | .nested s, d, heq, hc => by
    cases d with
    | nested t =>
      exact .nested (ArrayShape.fits_of_unmarked_eq s (by simpa [Contents.unmarked] using heq)
        (by simpa [Contents.names] using hc))
    | _ => simp [Contents.unmarked] at heq

theorem Member.fits_of_unmarked_eq : (m : Member) → {n : Member} →
    m.unmarked = n.unmarked → .builtin .unknown ∉ m.names → m.Fits n
  | .elem e, n, heq, hm => by
    cases n with
    | elem e' =>
      obtain rfl : e = e' := by simpa [Member.unmarked] using heq
      exact .elem (ElemName.fits_self (by simpa [Member.names, eq_comm] using hm))
    | shape t => simp [Member.unmarked] at heq
  | .shape s, n, heq, hm => by
    cases n with
    | elem e => simp [Member.unmarked] at heq
    | shape t =>
      exact .shape (ArrayShape.fits_of_unmarked_eq s (by simpa [Member.unmarked] using heq)
        (by simpa [Member.names] using hm))

theorem Member.forall_fits_of_unmarked_eq : (ms : List Member) → {ns : List Member} →
    Member.unmarkedList ms = Member.unmarkedList ns → .builtin .unknown ∉ Member.namesList ms →
    List.Forall₂ Member.Fits ms ns
  | [], ns, heq, _ => by
    cases ns with
    | nil => exact .nil
    | cons n ns => simp [Member.unmarkedList] at heq
  | m :: ms, ns, heq, hms => by
    cases ns with
    | nil => simp [Member.unmarkedList] at heq
    | cons n ns =>
      simp only [Member.unmarkedList, List.cons.injEq] at heq
      simp only [Member.namesList, List.mem_append, not_or] at hms
      exact .cons (Member.fits_of_unmarked_eq m heq.1 hms.1)
        (Member.forall_fits_of_unmarked_eq ms heq.2 hms.2)

end

namespace Arena

theorem fits_array_array (a : Arena) (s t : ArrayShape) :
    a.fits (some (.array s)) (some (.array t)) = s.fits t :=
  Bool.eq_iff_iff.2 ((isCompatibility_fits a).array s t)

/-- Shapes that stand for each other stand for the same, and the same stand for them. -/
theorem fits_congr {a : Arena} {x y : Option Shape} (hxy : a.fits x y = true)
    (hyx : a.fits y x = true) (z : Option Shape) :
    a.fits z x = a.fits z y ∧ a.fits x z = a.fits y z := by
  have htrans {x y z} (hxy : a.fits x y = true) (hyz : a.fits y z = true) : a.fits x z = true :=
    (isCompatibility_comp a).fits ⟨y, hxy, hyz⟩
  constructor
  · exact Bool.eq_iff_iff.2 ⟨fun h => htrans h hxy, fun h => htrans h hyx⟩
  · exact Bool.eq_iff_iff.2 ⟨fun h => htrans hyx h, fun h => htrans hxy h⟩

open Descriptor in
/-- Shapes of descriptors that differ in markers only stand for each other, whichever of them asks
for arrays that are not empty, and no third shape tells them apart. -/
theorem fits_of_parse_unmarked (a : Arena) {d d' : String} {s t : ArrayShape}
    (hs : parse d = .ok s) (ht : parse d' = .ok t) (heq : s.unmarked = t.unmarked) :
    a.fits (some (.array s)) (some (.array t)) = true ∧
    ∀ x, a.fits x (some (.array s)) = a.fits x (some (.array t)) ∧
      a.fits (some (.array s)) x = a.fits (some (.array t)) x := by
  have hst : a.fits (some (.array s)) (some (.array t)) = true := by
    rw [fits_array_array]
    exact s.fits_of_unmarked_eq heq (names_known_of_parse hs)
  have hts : a.fits (some (.array t)) (some (.array s)) = true := by
    rw [fits_array_array]
    exact t.fits_of_unmarked_eq heq.symm (names_known_of_parse ht)
  exact ⟨hst, fits_congr hst hts⟩

open Descriptor in
/-- Markers at every level on one side, and none on the other. -/
theorem fits_of_parse_unmarked_pairs :
    let s : ArrayShape := ⟨.nested ⟨.tuple [.elem (.builtin .int), .shape ⟨.simple (.named "pt"),
      false, "pt[]"⟩], false, "<int,pt[]>"⟩, false, "<int,pt[]>[]"⟩
    let t : ArrayShape := ⟨.nested ⟨.tuple [.elem (.builtin .int), .shape ⟨.simple (.named "pt"),
      true, "pt[+]"⟩], false, "<int,pt[+]>"⟩, true, "<int,pt[+]>[+]"⟩
    parse "<int,pt[]>[]" = .ok s ∧ parse "<int,pt[+]>[+]" = .ok t ∧ s.unmarked = t.unmarked ∧
    ({} : Arena).fits (some (.array s)) (some (.array t)) = true ∧
    ∀ x, ({} : Arena).fits x (some (.array s)) = ({} : Arena).fits x (some (.array t)) ∧
      ({} : Arena).fits (some (.array s)) x = ({} : Arena).fits (some (.array t)) x := by
  intro s t
  have hs : parse "<int,pt[]>[]" = .ok s := rfl
  have ht : parse "<int,pt[+]>[+]" = .ok t := rfl
  have heq : s.unmarked = t.unmarked := rfl
  exact ⟨hs, ht, heq, fits_of_parse_unmarked {} hs ht heq⟩

open Descriptor in
/-- A marker that is asked for need not be there. -/
theorem unmarked_fits_marked : ¬ ∀ (a : Arena) (d d' : String) (s t : ArrayShape),
    parse d = .ok s → parse d' = .ok t → s.unmarked = t.unmarked →
    (a.fits (some (.array s)) (some (.array t)) = true ↔
      List.Forall₂ (fun m n => n = true → m = true) s.markers t.markers) := by
  intro h
  have hiff := h {} "int[]" "int[+]" ⟨.simple (.builtin .int), false, "int[]"⟩
    ⟨.simple (.builtin .int), true, "int[+]"⟩ rfl rfl rfl
  rw [fits_array_array] at hiff
  have hmarkers := hiff.1 (by decide +kernel)
  exact absurd hmarkers (by decide)

end Arena
end TagCheck
