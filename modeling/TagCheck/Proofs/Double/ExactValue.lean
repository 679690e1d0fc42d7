import Mathlib.Data.Rat.Floor
import TagCheck.Double.Basic

/-! The exact values of binary64 numbers. A number whose units have at most 53 significant bits is
rounded to itself, so that small integers are exact, and a large number is a multiple of a power of
two. -/
namespace TagCheck
namespace Double

theorem one_pos : 0 < one := by decide +kernel

/-- The exponent is a variable because its power of two is not to be computed. -/
theorem one_eq_two_pow {k : Nat} (h : k = 1074) : one = 2 ^ k := by
  subst h
  decide +kernel

def value (x : Double) : ℚ := x.signedUnits / one

/-- The whole part of a fraction, cut towards zero. -/
def wholePart (q : ℚ) : ℤ := if 0 ≤ q then ⌊q⌋ else ⌈q⌉

theorem wholePart_intCast (z : ℤ) : wholePart z = z := by
  rw [wholePart, Int.floor_intCast, Int.ceil_intCast, ite_self]

theorem value_nonneg_iff {x : Double} : 0 ≤ x.value ↔ 0 ≤ x.signedUnits := by
  have hone : (0 : ℚ) < one := by exact_mod_cast one_pos
  rw [value, le_div_iff₀ hone, zero_mul, Int.cast_nonneg_iff]

theorem trunc_eq (x : Double) : x.trunc = wholePart x.value := by
  rw [wholePart, trunc]
  split
  · rename_i h
    rw [value, Rat.floor_intCast_div_natCast]
    exact Int.tdiv_eq_ediv_of_nonneg (value_nonneg_iff.1 h)
  · rename_i h
    have hneg : 0 ≤ -x.signedUnits := by
      have := mt value_nonneg_iff.2 h
      omega
    rw [value, Rat.ceil_intCast_div_natCast, ← Int.tdiv_eq_ediv_of_nonneg hneg, Int.neg_tdiv,
      neg_neg]

/-- A number is whole if its units make up full ones. -/
theorem isIntegral_iff {x : Double} :
    x.isIntegral = true ↔ x.isFinite = true ∧ x.value = x.trunc := by
  have hone : (one : ℚ) ≠ 0 := by exact_mod_cast one_pos.ne'
  have habs : x.signedUnits.natAbs = x.units := by
    rw [signedUnits]
    split <;> simp
  have hdvd : x.units % one = 0 ↔ (one : ℤ) ∣ x.signedUnits := by
    rw [← Nat.dvd_iff_mod_eq_zero, Int.natCast_dvd, habs]
  rw [isIntegral, Bool.and_eq_true, beq_iff_eq, hdvd, value, div_eq_iff hone, trunc]
  refine and_congr_right fun _ => ⟨fun h => ?_, fun h => ?_⟩
  · exact_mod_cast (Int.tdiv_mul_cancel h).symm
  · exact ⟨_, (by exact_mod_cast h : x.signedUnits = _ * (one : ℤ)).trans (mul_comm _ _)⟩

/-! Places and units. -/

theorem infinityIndex_lt : infinityIndex < 2 ^ 63 := by decide

@[simp] theorem index_ofIndex (sign : Bool) (m : Nat) :
    (ofIndex sign m).index = min m infinityIndex := by
  have hlt := infinityIndex_lt
  rw [index, ofIndex, UInt64.toNat_ofNat']
  simp only [Nat.pow_eq]
  cases sign <;> simp <;> omega

@[simp] theorem negative_ofIndex (sign : Bool) (m : Nat) : (ofIndex sign m).negative = sign := by
  have hlt := infinityIndex_lt
  rw [negative, ofIndex, UInt64.toNat_ofNat']
  simp only [Nat.pow_eq]
  cases sign <;> simp <;> omega

/-- The magnitude with significant bits `q` and exponent `e`. -/
theorem unitsAt_add {q : Nat} (hq : q < 2 ^ 53) {e : Nat} (h : e = 0 ∨ 2 ^ 52 ≤ q) :
    unitsAt (e * 2 ^ 52 + q) = q * 2 ^ e := by
  simp only [unitsAt, Nat.pow_eq]
  by_cases hlow : q < 2 ^ 52
  · have he : e = 0 := h.resolve_right (Nat.not_le.2 hlow)
    rw [he, Nat.zero_mul, Nat.zero_add, if_pos hlow, Nat.pow_zero, Nat.mul_one]
  · have hmod : (e * 2 ^ 52 + q) % 2 ^ 52 = q - 2 ^ 52 := by omega
    have hdiv : (e * 2 ^ 52 + q) / 2 ^ 52 - 1 = e := by omega
    rw [if_neg (by omega), hmod, hdiv, Nat.add_sub_cancel' (by omega)]

/-- A magnitude of at most 53 significant bits is rounded to itself. -/
theorem unitsAt_nearest {n : Nat} (h : 2 ^ (n.log2 - 52) ∣ n) : unitsAt (nearest n 1) = n := by
  obtain ⟨e, he⟩ : ∃ e, n.log2 - 52 = e := ⟨_, rfl⟩
  rw [he] at h
  have hpos : 0 < 2 ^ e := Nat.two_pow_pos e
  have hnearest : nearest n 1 = e * 2 ^ 52 + n / 2 ^ e := by
    simp only [nearest, Nat.pow_eq, Nat.div_one, Nat.one_mul, he, Nat.mod_eq_zero_of_dvd h]
    rw [if_neg (by omega)]
  have hlt : n / 2 ^ e < 2 ^ 53 := by
    rw [Nat.div_lt_iff_lt_mul hpos, ← Nat.pow_add]
    exact Nat.lt_of_lt_of_le Nat.lt_log2_self (Nat.pow_le_pow_right (by decide) (by omega))
  have hle : e = 0 ∨ 2 ^ 52 ≤ n / 2 ^ e := by
    by_cases hzero : e = 0
    · exact .inl hzero
    · right
      have hn : n ≠ 0 := by
        rintro rfl
        exact hzero (by rw [← he]; rfl)
      rw [Nat.le_div_iff_mul_le hpos, ← Nat.pow_add, show 52 + e = n.log2 by omega]
      exact Nat.log2_self_le hn
  rw [hnearest, unitsAt_add hlt hle, Nat.div_mul_cancel h]

/-! Integers. -/

theorem log2_mul_two_pow {n : Nat} (hn : n ≠ 0) (k : Nat) : (n * 2 ^ k).log2 = n.log2 + k := by
  have hne : n * 2 ^ k ≠ 0 := Nat.mul_ne_zero hn (Nat.two_pow_pos k).ne'
  have hexponent : n.log2 + k + 1 = n.log2 + 1 + k := by omega
  rw [Nat.log2_eq_iff hne, hexponent, Nat.pow_add, Nat.pow_add _ _ k]
  exact ⟨Nat.mul_le_mul_right _ (Nat.log2_self_le hn),
    Nat.mul_lt_mul_of_pos_right Nat.lt_log2_self (Nat.two_pow_pos k)⟩

theorem unitsAt_nearest_mul_one {n : Nat} (h : n < 2 ^ 53) :
    unitsAt (nearest (n * one) 1) = n * one := by
  refine unitsAt_nearest ?_
  obtain ⟨k, hk⟩ : ∃ k, k = 1074 := ⟨_, rfl⟩
  by_cases hn : n = 0
  · rw [hn, Nat.zero_mul]
    exact Nat.dvd_zero _
  · have hlog : n.log2 < 53 := (Nat.log2_lt hn).2 h
    rw [one_eq_two_pow hk, log2_mul_two_pow hn]
    exact Nat.dvd_mul_left_of_dvd (Nat.pow_dvd_pow 2 (by omega)) n

/-- Magnitudes from infinity on have more than 2098 bits. -/
theorem lt_infinityIndex {m e : Nat} (he : e ≤ 2098) (h : unitsAt m < 2 ^ e) :
    m < infinityIndex := by
  refine Nat.lt_of_not_le fun hm => absurd h (Nat.not_lt.2 ?_)
  simp only [infinityIndex, Nat.pow_eq] at hm
  simp only [unitsAt, Nat.pow_eq]
  rw [if_neg (by omega)]
  calc 2 ^ e
    _ ≤ 2 ^ (52 + (m / 2 ^ 52 - 1)) := Nat.pow_le_pow_right (by decide) (by omega)
    _ = 2 ^ 52 * 2 ^ (m / 2 ^ 52 - 1) := Nat.pow_add ..
    _ ≤ (2 ^ 52 + m % 2 ^ 52) * 2 ^ (m / 2 ^ 52 - 1) := Nat.mul_le_mul_right _ (by omega)

/-- Integers of at most 53 bits are exact. -/
theorem value_ofInt {k : Int} (h : k.natAbs < 2 ^ 53) :
    (ofInt k).isFinite = true ∧ (ofInt k).value = k := by
  have hunits := unitsAt_nearest_mul_one h
  have hlt : nearest (k.natAbs * one) 1 < infinityIndex := by
    obtain ⟨e, he⟩ : ∃ e, e = 1074 := ⟨_, rfl⟩
    refine lt_infinityIndex (e := 53 + e) (by omega) ?_
    rw [hunits, one_eq_two_pow he, Nat.pow_add]
    exact Nat.mul_lt_mul_of_pos_right h (Nat.two_pow_pos e)
  have hindex : (ofInt k).index = nearest (k.natAbs * one) 1 := by
    rw [ofInt, round, index_ofIndex, Nat.min_eq_left hlt.le]
  have hsigned : (ofInt k).signedUnits = k * one := by
    rw [signedUnits, units, hindex, hunits, ofInt, round, negative_ofIndex]
    by_cases hk : k < 0
    · rw [if_pos (decide_eq_true hk), Nat.cast_mul, ← neg_mul]
      exact congrArg (· * (one : ℤ)) (by omega)
    · rw [if_neg (by simpa using hk), Nat.cast_mul]
      exact congrArg (· * (one : ℤ)) (by omega)
  have hone : (one : ℚ) ≠ 0 := by exact_mod_cast one_pos.ne'
  refine ⟨decide_eq_true (hindex ▸ hlt), ?_⟩
  rw [value, hsigned, Int.cast_mul, Int.cast_natCast, mul_div_cancel_right₀ _ hone]

/-! Large numbers. -/

/-- A magnitude of more than `k + 52` bits is a multiple of `2 ^ k`. -/
theorem dvd_unitsAt {m k : Nat} (h : 2 ^ (k + 52) ≤ unitsAt m) : 2 ^ k ∣ unitsAt m := by
  simp only [unitsAt, Nat.pow_eq] at h ⊢
  split at h
  · rename_i hm
    have hle : 2 ^ 52 ≤ 2 ^ (k + 52) := Nat.pow_le_pow_right (by decide) (by omega)
    omega
  · rename_i hm
    rw [if_neg hm]
    refine Nat.dvd_mul_left_of_dvd (Nat.pow_dvd_pow 2 ?_) _
    generalize m / 2 ^ 52 - 1 = e at h
    have hlt : 2 ^ (k + 52) < 2 ^ (e + 53) := by
      refine Nat.lt_of_le_of_lt h ?_
      rw [Nat.pow_add 2 e, Nat.mul_comm]
      exact Nat.mul_lt_mul_of_pos_left (by omega) (Nat.two_pow_pos e)
    have := (Nat.pow_lt_pow_iff_right (by decide)).1 hlt
    omega

/-- A whole part of more than 63 bits is even. -/
theorem even_trunc {x : Double} (h : 2 ^ 63 ≤ x.trunc) : 2 ∣ x.trunc := by
  obtain ⟨e, he⟩ : ∃ e, e = 1074 := ⟨_, rfl⟩
  have hnonneg : 0 ≤ x.signedUnits := by
    refine Int.not_lt.1 fun hneg => ?_
    have hle : 0 ≤ (-x.signedUnits).tdiv one :=
      Int.tdiv_nonneg (Int.neg_nonneg.2 hneg.le) (Int.natCast_nonneg _)
    rw [Int.neg_tdiv, ← trunc] at hle
    omega
  have hsigned : x.signedUnits = x.units := by
    rw [signedUnits] at hnonneg ⊢
    split at hnonneg
    · rw [if_pos ‹_›]
      omega
    · rw [if_neg ‹_›]
  have htrunc : x.trunc = (x.units / one : Nat) := by
    rw [trunc, hsigned, Int.tdiv_eq_ediv_of_nonneg (Int.natCast_nonneg _), Int.natCast_ediv]
  rw [htrunc] at h ⊢
  have hunits : 2 ^ (1 + e + 52) ≤ x.units := by
    have hle : 2 ^ 63 * one ≤ x.units :=
      (Nat.le_div_iff_mul_le one_pos).1 (by exact_mod_cast h)
    refine Nat.le_trans ?_ hle
    rw [one_eq_two_pow he, ← Nat.pow_add]
    exact Nat.pow_le_pow_right (by decide) (by omega)
  obtain ⟨q, hq⟩ := dvd_unitsAt hunits
  refine Int.natCast_dvd_natCast.2 ⟨q, ?_⟩
  rw [units, hq, one_eq_two_pow he, Nat.pow_add, Nat.pow_one, Nat.mul_right_comm,
    Nat.mul_div_cancel _ (Nat.two_pow_pos e)]

end Double
end TagCheck
