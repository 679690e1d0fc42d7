import Mathlib.Data.Nat.Basic
import TagCheck.Proofs.Double.ExactValue
import TagCheck.Proofs.Value.ExactIntegers

/-! Numbers as integers. The complement of a number and the conversion of a number go through 64 and
128 bits with a sign, and what does not fit there is cut to the nearest end of the range. Main
statement: both are exact within the range, and outside of it only where the end of the range
happens to have the right bits. -/
namespace TagCheck
namespace Value

/-- The integer nearest to `z` of 64 bits with a sign. -/
def clamp64 (z : Int) : Int := max (-2 ^ 63) (min (2 ^ 63 - 1) z)

theorem toInt32_eq {x : Double} (h : x.isFinite = true) :
    toInt32 x = (BitVec.ofInt 32 (clamp64 x.trunc)).toInt := by
  rw [toInt32, if_pos h, BitVec.toInt_ofInt]
  rfl

/-- The complement of the low 32 bits, with their sign. -/
def complement32 (z : Int) : Int := (~~~ BitVec.ofInt 32 z).toInt

theorem complement32_eq (z : Int) : complement32 z = -(BitVec.ofInt 32 z).toInt - 1 := by
  have hlt := (BitVec.ofInt 32 z).isLt
  rw [complement32, BitVec.toInt_eq_toNat_cond, BitVec.toInt_eq_toNat_cond, BitVec.toNat_not]
  omega

theorem complement32_eq_iff {y z : Int} : complement32 y = complement32 z ↔ 2 ^ 32 ∣ y - z := by
  rw [complement32_eq, complement32_eq, BitVec.toInt_ofInt, BitVec.toInt_ofInt]
  simp only [Int.bmod]
  omega

/-- Cutting to 64 bits keeps the low 32 bits of what fits, and of a large negative number whose low
bits are all zero. -/
theorem complement32_clamp64_iff {z : Int} (heven : 2 ^ 63 ≤ z → 2 ∣ z) :
    complement32 (clamp64 z) = complement32 z ↔ z < 2 ^ 63 ∧ (-2 ^ 63 ≤ z ∨ 2 ^ 32 ∣ z) := by
  rw [complement32_eq_iff, clamp64]
  omega

end Value

theorem BigInt.IsNumeral.eq {text : String} {y z : Int} (hy : IsNumeral text y)
    (hz : IsNumeral text z) : y = z :=
  Option.some.inj (hy.signedDecimal?.symm.trans hz.signedDecimal?)

theorem BigInt.clamp_eq_iff {z : Int} : clamp z = z ↔ inRange z = true := by
  have hle : least ≤ greatest := by decide
  simp only [clamp, inRange, Bool.and_eq_true, decide_eq_true_eq]
  omega

namespace Expr

open Value Double

theorem eval_bitNot {e : Expr} {x : Double} (h : e.eval = some (.number x))
    (hx : x.isFinite = true) (n : Node) : (Expr.unary n .bitNot e).eval =
      some (.number (.ofInt (complement32 (clamp64 (wholePart x.value))))) := by
  rw [eval, h, complement32_eq, ← trunc_eq, ← toInt32_eq hx]
  rfl

theorem eval_toBigInt {e : Expr} {x : Double} (h : e.eval = some (.number x))
    (hx : x.isIntegral = true) (n : Node) {i : Ident} (hi : i.name = "BigInt") :
    (Expr.call n (.ident i) [.item e]).eval = some (.bigint (toString (BigInt.clamp x.trunc))) := by
  simp [eval, asIdent?, Element.evalArguments, h, applyNamed, hi, toBigInt, hx]

/-- The complement of a number is that of the low 32 bits of its whole part cut to 64 bits. As an
integer, a whole number is cut to 128 bits. -/
theorem eval_integer_of_number {e : Expr} {x : Double} (h : e.eval = some (.number x))
    (hx : x.isFinite = true) (n : Node) :
    (∃ r, (Expr.unary n .bitNot e).eval = some (.number r) ∧ r.isFinite = true ∧
      r.value = complement32 (clamp64 (wholePart x.value)) ∧
      (r.value = complement32 (wholePart x.value) ↔
        wholePart x.value < 2 ^ 63 ∧ (-2 ^ 63 ≤ wholePart x.value ∨ 2 ^ 32 ∣ wholePart x.value))) ∧
    ∀ z : Int, x.value = z → ∀ i : Ident, i.name = "BigInt" →
      ∃ d, (Expr.call n (.ident i) [.item e]).eval = some (.bigint d) ∧
        BigInt.IsNumeral d (BigInt.clamp z) ∧
        (BigInt.IsNumeral d z ↔ BigInt.inRange z = true) := by
  refine ⟨⟨_, eval_bitNot h hx n, ?_⟩, fun z hz i hi => ?_⟩
  · have hsmall (z : Int) : (complement32 z).natAbs < 2 ^ 53 := by
      have hlo := BitVec.le_toInt (~~~ BitVec.ofInt 32 z)
      have hhi := BitVec.toInt_lt (x := ~~~ BitVec.ofInt 32 z)
      rw [complement32]
      omega
    obtain ⟨hfinite, hvalue⟩ := value_ofInt (hsmall (clamp64 (wholePart x.value)))
    refine ⟨hfinite, hvalue, ?_⟩
    rw [hvalue, Int.cast_inj, ← trunc_eq]
    exact complement32_clamp64_iff even_trunc
  · have htrunc : x.trunc = z := by rw [trunc_eq, hz, wholePart_intCast]
    have hintegral : x.isIntegral = true := isIntegral_iff.2 ⟨hx, by rw [hz, htrunc]⟩
    have hnumeral := BigInt.isNumeral_toString (BigInt.clamp z)
    refine ⟨_, eval_toBigInt h hintegral n hi, htrunc ▸ hnumeral, ?_⟩
    rw [htrunc, ← BigInt.clamp_eq_iff]
    exact ⟨hnumeral.eq, fun hclamp => by rwa [hclamp] at hnumeral ⊢⟩

/-- A number above `2 ^ 62` whose low 32 bits are those of the least integer of 32 bits. -/
theorem eval_integer_of_number_in_range :
    let n : Node := ⟨0, .start⟩
    let x : Double := ⟨0x43d0000000200000⟩
    (Expr.number n x).eval = some (.number x) ∧ x.isFinite = true ∧
    (∃ r, (Expr.unary n .bitNot (.number n x)).eval = some (.number r) ∧ r.value = 2147483647) ∧
    ∃ d, (Expr.call n (.ident ⟨n, "BigInt"⟩) [.item (.number n x)]).eval = some (.bigint d) ∧
      BigInt.IsNumeral d 4611686020574871552 := by
  intro n x
  have htrunc : x.trunc = 4611686020574871552 := by decide +kernel
  have hintegral : x.isIntegral = true := by decide +kernel
  obtain ⟨hfinite, hvalue⟩ := isIntegral_iff.1 hintegral
  rw [htrunc] at hvalue
  obtain ⟨⟨r, hr, -, hrvalue, -⟩, hbig⟩ := eval_integer_of_number (e := .number n x) rfl hfinite n
  obtain ⟨d, hd, -, hexact⟩ := hbig _ hvalue ⟨n, "BigInt"⟩ rfl
  refine ⟨rfl, hfinite, ⟨r, hr, ?_⟩, d, hd, hexact.2 (by decide +kernel)⟩
  rw [hrvalue, ← trunc_eq, htrunc]
  exact_mod_cast (by decide +kernel : complement32 (clamp64 4611686020574871552) = 2147483647)

/-- The complement of ten to the nineteenth is not that of its low 32 bits, and ten to the
thirty-ninth as it is rounded is not converted to itself. -/
theorem integer_of_number_saturates :
    let n : Node := ⟨0, .start⟩
    let x : Double := ⟨0x43e158e460913d00⟩
    let y : Double := ⟨0x48078287f49c4a1d⟩
    (x.isFinite = true ∧ x.value = 10 ^ 19 ∧ complement32 (wholePart x.value) = 1981284351 ∧
      (Expr.unary n .bitNot (.number n x)).eval.map Value.text = some "0") ∧
    y.isFinite = true ∧ y.value = 999999999999999939709166371603178586112 ∧
      (Expr.call n (.ident ⟨n, "BigInt"⟩) [.item (.number n y)]).eval.map Value.text =
        some "170141183460469231731687303715884105727" := by
  intro n x y
  have hx : x.trunc = 10 ^ 19 := by decide +kernel
  have hy : y.trunc = 999999999999999939709166371603178586112 := by decide +kernel
  obtain ⟨hxfinite, hxvalue⟩ := isIntegral_iff.1 (by decide +kernel : x.isIntegral = true)
  obtain ⟨hyfinite, hyvalue⟩ := isIntegral_iff.1 (by decide +kernel : y.isIntegral = true)
  refine ⟨⟨hxfinite, ?_, ?_, by decide +kernel⟩, hyfinite, ?_, by decide +kernel⟩
  · rw [hxvalue, hx]
    norm_num
  · rw [← trunc_eq, hx]
    decide +kernel
  · rw [hyvalue, hy]
    norm_num

end Expr
end TagCheck
