import Mathlib.Data.List.TakeWhile
import Mathlib.Tactic.Ring
import TagCheck.Double.Text
import TagCheck.Proofs.Double.ExactValue
import TagCheck.Proofs.Value.ExactIntegers

/-! The text of a number names that number. The digits of the text are those of a decimal that is
rounded to the number, and what is read back is that decimal, rounded again. -/
namespace TagCheck
namespace Double

/-- Rounding looks at the quotient only. -/
theorem nearest_mul {num den k : Nat} (hk : 0 < k) :
    nearest (num * k) (den * k) = nearest num den := by
  have hscale : ∀ d r : Nat, d * k < 2 * (r * k) ↔ d < 2 * r := fun d r => by
    rw [← Nat.mul_assoc, Nat.mul_lt_mul_right hk]
  have heven : ∀ d r : Nat, 2 * (r * k) = d * k ↔ 2 * r = d := fun d r => by
    rw [← Nat.mul_assoc, Nat.mul_left_inj hk.ne']
  simp only [nearest, Nat.mul_div_mul_right _ _ hk, Nat.mul_right_comm den k, Nat.mul_mod_mul_right,
    hscale, heven]

theorem nearest_congr {num num' den den' : Nat} (hden : 0 < den) (hden' : 0 < den')
    (h : num * den' = num' * den) : nearest num den = nearest num' den' := by
  rw [← nearest_mul hden', h, Nat.mul_comm den, nearest_mul hden]

/-- A magnitude is rounded to its own place. -/
theorem nearest_unitsAt (m : Nat) : nearest (unitsAt m) 1 = m := by
  obtain ⟨e, q, hm, hq, he⟩ : ∃ e q, m = e * 2 ^ 52 + q ∧ q < 2 ^ 53 ∧ (e = 0 ∨ 2 ^ 52 ≤ q) := by
    by_cases hm : m < 2 ^ 52
    · exact ⟨0, m, by omega, by omega, .inl rfl⟩
    · exact ⟨m / 2 ^ 52 - 1, 2 ^ 52 + m % 2 ^ 52, by omega, by omega, .inr (by omega)⟩
  have hlog : (q * 2 ^ e).log2 - 52 = e := by
    rcases he with rfl | hq'
    · by_cases hzero : q = 0
      · simp [hzero]
      · have := (Nat.log2_lt hzero).2 hq
        simp only [Nat.pow_zero, Nat.mul_one]
        omega
    · have hzero : q ≠ 0 := by omega
      have hlt := (Nat.log2_lt hzero).2 hq
      have hle := (Nat.le_log2 hzero).2 hq'
      rw [log2_mul_two_pow hzero]
      omega
  rw [hm, unitsAt_add hq he]
  simp only [nearest, Nat.pow_eq, Nat.div_one, Nat.one_mul, hlog,
    Nat.mul_div_cancel _ (Nat.two_pow_pos e), Nat.mul_mod_left]
  rw [if_neg (by have := Nat.two_pow_pos e; omega)]

theorem nearest_eq_zero {num den : Nat} (h : 2 * num < den) : nearest num den = 0 := by
  have hlt : num < den := by omega
  have hlog : Nat.log2 0 - 52 = 0 := rfl
  simp only [nearest, Nat.div_eq_of_lt hlt, hlog, Nat.pow_eq, Nat.pow_zero, Nat.mul_one,
    Nat.mod_eq_of_lt hlt]
  rw [if_neg (by omega)]

/-- From 2^2098 units on there are no finite magnitudes. -/
theorem infinityIndex_le_nearest {num den e : Nat} (he : e = 2098) (h : 2 ^ e ≤ num / den) :
    infinityIndex ≤ nearest num den := by
  have hne : num / den ≠ 0 := (Nat.lt_of_lt_of_le (Nat.two_pow_pos e) h).ne'
  have hlog : e ≤ (num / den).log2 := (Nat.le_log2 hne).2 h
  have hself := Nat.log2_self_le hne
  obtain ⟨k, hk⟩ : ∃ k, (num / den).log2 = k + 52 := ⟨(num / den).log2 - 52, by omega⟩
  have hq : 2 ^ 52 ≤ num / (den * 2 ^ k) := by
    rw [← Nat.div_div_eq_div_mul, Nat.le_div_iff_mul_le (Nat.two_pow_pos k), ← Nat.pow_add]
    rwa [hk, Nat.add_comm] at hself
  have hle : infinityIndex ≤ k * 2 ^ 52 + num / (den * 2 ^ k) := by
    simp only [infinityIndex, Nat.pow_eq]
    omega
  simp only [nearest, hk, Nat.add_sub_cancel, Nat.pow_eq]
  split <;> omega

end Double

namespace Decimal

theorem lt_pow_digitCount (n : Nat) : n < 10 ^ digitCount n :=
  (Nat.length_toDigits_le_iff (by decide) Nat.length_toDigits_pos).1 (Nat.le_refl _)

theorem pow_digitCount_le {n k : Nat} (hn : n ≠ 0) (hk : k < digitCount n) : 10 ^ k ≤ n := by
  by_cases hzero : k = 0
  · rw [hzero, Nat.pow_zero]
    omega
  · refine Nat.not_lt.1 fun hlt => ?_
    have hle := (Nat.length_toDigits_le_iff (by decide) (Nat.pos_of_ne_zero hzero)).2 hlt
    exact absurd hk (Nat.not_lt.2 hle)

theorem index_eq (d : Decimal) :
    d.index = Double.nearest (d.digits * 10 ^ d.exponent.toNat * Double.one)
      (10 ^ (-d.exponent).toNat) := by
  rw [index]
  simp only [Nat.pow_eq]
  split
  · rw [show (-d.exponent).toNat = 0 by omega, Nat.pow_zero]
  · rw [show d.exponent.toNat = 0 by omega, Nat.pow_zero, Nat.mul_one]

/-- Zeros at the end of the digits may as well be counted in the exponent. -/
theorem index_shift (n j : Nat) (e : Int) :
    (⟨n * 10 ^ j, e⟩ : Decimal).index = index ⟨n, e + j⟩ := by
  rw [index_eq, index_eq]
  refine Double.nearest_congr (Nat.pow_pos (by decide)) (Nat.pow_pos (by decide)) ?_
  have hexp : j + e.toNat + (-(e + j)).toNat = (e + j).toNat + (-e).toNat := by omega
  calc n * 10 ^ j * 10 ^ e.toNat * Double.one * 10 ^ (-(e + j)).toNat
    _ = n * 10 ^ (j + e.toNat + (-(e + j)).toNat) * Double.one := by ring
    _ = n * 10 ^ (e + j).toNat * Double.one * 10 ^ (-e).toNat := by rw [hexp]; ring

/-! The powers are variables because they are not to be computed. -/

theorem two_mul_one_le {k : Nat} (h : k = 401) : 2 * Double.one ≤ 10 ^ k := by
  subst h
  decide +kernel

theorem le_mul_one {e k : Nat} (he : e = 2098) (hk : k = 400) : 2 ^ e ≤ 10 ^ k * Double.one := by
  subst he hk
  decide +kernel

theorem index_eq_zero {d : Decimal} (h : d.digits = 0 ∨ d.exponent + digitCount d.digits < -400) :
    d.index = 0 := by
  rw [index_eq]
  refine Double.nearest_eq_zero ?_
  rcases h with h | h
  · rw [h, Nat.zero_mul, Nat.zero_mul]
    exact Nat.pow_pos (by decide)
  · obtain ⟨k, hk⟩ : ∃ k, k = 401 := ⟨_, rfl⟩
    rw [show d.exponent.toNat = 0 by omega, Nat.pow_zero, Nat.mul_one]
    calc 2 * (d.digits * Double.one)
      _ = d.digits * (2 * Double.one) := by ring
      _ ≤ d.digits * 10 ^ k := Nat.mul_le_mul_left _ (two_mul_one_le hk)
      _ < 10 ^ digitCount d.digits * 10 ^ k :=
        Nat.mul_lt_mul_of_pos_right (lt_pow_digitCount _) (Nat.pow_pos (by decide))
      _ = 10 ^ (digitCount d.digits + k) := (Nat.pow_add ..).symm
      _ ≤ 10 ^ (-d.exponent).toNat := Nat.pow_le_pow_right (by decide) (by omega)

theorem infinityIndex_le_index {d : Decimal} (hdigits : d.digits ≠ 0)
    (h : 400 < d.exponent + digitCount d.digits) : Double.infinityIndex ≤ d.index := by
  obtain ⟨k, hk⟩ : ∃ k, k = 400 := ⟨_, rfl⟩
  obtain ⟨e, he⟩ : ∃ e, e = 2098 := ⟨_, rfl⟩
  obtain ⟨c, hc⟩ : ∃ c, digitCount d.digits = c + 1 :=
    Nat.exists_eq_add_one.2 Nat.length_toDigits_pos
  rw [index_eq]
  refine Double.infinityIndex_le_nearest he ?_
  rw [Nat.le_div_iff_mul_le (Nat.pow_pos (by decide))]
  calc 2 ^ e * 10 ^ (-d.exponent).toNat
    _ ≤ 10 ^ k * Double.one * 10 ^ (-d.exponent).toNat := Nat.mul_le_mul_right _ (le_mul_one he hk)
    _ = 10 ^ (k + (-d.exponent).toNat) * Double.one := by ring
    _ ≤ 10 ^ (c + d.exponent.toNat) * Double.one :=
      Nat.mul_le_mul_right _ (Nat.pow_le_pow_right (by decide) (by omega))
    _ = 10 ^ c * 10 ^ d.exponent.toNat * Double.one := by rw [Nat.pow_add]
    _ ≤ d.digits * 10 ^ d.exponent.toNat * Double.one :=
      Nat.mul_le_mul_right _ (Nat.mul_le_mul_right _ (pow_digitCount_le hdigits (by omega)))

/-- The magnitudes that are not looked at closely are read right. -/
theorem toDouble_eq (negative : Bool) (d : Decimal) :
    d.toDouble negative = .ofIndex negative d.index := by
  simp only [toDouble, Bool.or_eq_true, decide_eq_true_eq]
  split
  · next h => rw [index_eq_zero h, Double.zero]
  · next h =>
    rw [not_or] at h
    split
    · next hlarge =>
      rw [Double.infinity, Double.ofIndex, Double.ofIndex, Nat.min_self,
        Nat.min_eq_right (infinityIndex_le_index h.1 hlarge)]
    · rfl

theorem index_exact (m : Nat) : (exact m).index = m := by
  obtain ⟨k, hk⟩ : ∃ k, k = 1074 := ⟨_, rfl⟩
  have hexact : exact m = ⟨Double.unitsAt m * 5 ^ k, -k⟩ := by
    rw [exact, ← hk, Nat.pow_eq, show (-1074 : Int) = -(k : Int) by omega]
  rw [hexact, index_eq]
  refine Eq.trans ?_ (Double.nearest_unitsAt m)
  refine Double.nearest_congr (Nat.pow_pos (by decide)) Nat.one_pos ?_
  simp only [Int.neg_neg, Int.toNat_natCast, Int.toNat_neg_natCast, Nat.pow_zero, Nat.mul_one]
  rw [Double.one_eq_two_pow hk, Nat.mul_assoc, ← Nat.mul_pow]

theorem index_shortest (m : Nat) : (shortest m).index = m := by
  simp only [shortest]
  cases hfind : List.find? _ _ with
  | none => exact index_exact m
  | some d => simpa using List.find?_some hfind

/-! Numerals. -/

theorem signedDecimal?_toDigits (e : Int) :
    Text.signedDecimal? ((if e < 0 then '-' else '+') :: Nat.toDigits 10 e.natAbs) = some e := by
  have hdigits := BigInt.isNatural_toDigits e.natAbs
  have hvalue := BigInt.natOfDigits_eq hdigits.all_isDigit
  rw [hdigits.value] at hvalue
  have hread : (if (Nat.toDigits 10 e.natAbs).isEmpty ||
        !(Nat.toDigits 10 e.natAbs).all Char.isDigit
      then none else some (Text.natOfDigits 10 (Nat.toDigits 10 e.natAbs))) = some e.natAbs := by
    simp [hdigits.ne_nil, hdigits.all_isDigit, hvalue]
  split
  · simp only [Text.signedDecimal?, hread]
    exact congrArg some (show -(e.natAbs : Int) = e by omega)
  · simp only [Text.signedDecimal?, hread]
    exact congrArg some (show (e.natAbs : Int) = e by omega)

/-- What may stand behind the digits of a numeral, and the power of ten that it stands for. -/
inductive Ends : List Char → Int → Prop
  | nil : Ends [] 0
  | exponent (e : Int) : Ends ('e' :: (if e < 0 then '-' else '+') :: Nat.toDigits 10 e.natAbs) e

/-- The text has the form of a numeral, and the decimal is what it says digit by digit. -/
inductive Spells : List Char → Decimal → Prop
  | whole {ws tail : List Char} {e : Int} (hws : ws.all Char.isDigit = true) (hne : ws ≠ [])
      (htail : Ends tail e) : Spells (ws ++ tail) ⟨Nat.ofDigitChars 10 ws 0, e⟩
  | point {ws fs tail : List Char} {e : Int} (hws : ws.all Char.isDigit = true) (hne : ws ≠ [])
      (hfs : fs.all Char.isDigit = true) (htail : Ends tail e) :
      Spells (ws ++ '.' :: (fs ++ tail)) ⟨Nat.ofDigitChars 10 (ws ++ fs) 0, e - fs.length⟩

theorem span_isDigit_cons {ws : List Char} {c : Char} (cs : List Char)
    (hws : ws.all Char.isDigit = true) (hc : c.isDigit = false) :
    (ws ++ c :: cs).takeWhile Char.isDigit = ws ∧
      (ws ++ c :: cs).dropWhile Char.isDigit = c :: cs := by
  have hdigits : ∀ c ∈ ws, c.isDigit = true := List.all_eq_true.1 hws
  rw [List.takeWhile_append_of_pos hdigits, List.dropWhile_append_of_pos hdigits]
  simp [hc]

theorem Ends.span_isDigit {ws tail : List Char} {e : Int} (h : Ends tail e)
    (hws : ws.all Char.isDigit = true) : (ws ++ tail).takeWhile Char.isDigit = ws ∧
      (ws ++ tail).dropWhile Char.isDigit = tail := by
  cases h with
  | nil =>
    have hdigits : ∀ c ∈ ws, c.isDigit = true := List.all_eq_true.1 hws
    rw [List.append_nil, List.takeWhile_eq_self_iff.2 hdigits, List.dropWhile_eq_nil_iff.2 hdigits]
    exact ⟨rfl, rfl⟩
  | exponent e => exact span_isDigit_cons _ hws rfl

theorem Spells.parse? {cs : List Char} {d : Decimal} (h : Spells cs d) : parse? cs = some d := by
  cases h with
  | whole hws hne htail =>
    obtain ⟨htake, hdrop⟩ := htail.span_isDigit hws
    simp only [Decimal.parse?, htake, hdrop]
    cases htail with
    | nil => simp [hne, BigInt.natOfDigits_eq hws]
    | exponent e => simp [signedDecimal?_toDigits, hne, BigInt.natOfDigits_eq hws]
  | @point ws fs tail e hws hne hfs htail =>
    have hall : (ws ++ fs).all Char.isDigit = true := by simp [hws, hfs]
    obtain ⟨htake, hdrop⟩ := span_isDigit_cons (fs ++ tail) hws (c := '.') rfl
    obtain ⟨htake', hdrop'⟩ := htail.span_isDigit hfs
    simp only [Decimal.parse?, htake, hdrop, htake', hdrop']
    cases htail with
    | nil => simp [hne, BigInt.natOfDigits_eq hall]
    | exponent e => simp [signedDecimal?_toDigits, hne, BigInt.natOfDigits_eq hall]

/-- A numeral begins with a digit. -/
theorem Spells.exists_digit {cs : List Char} {d : Decimal} (h : Spells cs d) :
    ∃ c tail, cs = c :: tail ∧ c.isDigit = true := by
  have hhead : ∀ ws tail : List Char, ws.all Char.isDigit = true → ws ≠ [] →
      ∃ c tail', ws ++ tail = c :: tail' ∧ c.isDigit = true := by
    intro ws tail hws hne
    obtain ⟨c, ws, rfl⟩ := List.exists_cons_of_ne_nil hne
    exact ⟨c, _, rfl, List.all_eq_true.1 hws c List.mem_cons_self⟩
  cases h with
  | whole hws hne htail => exact hhead _ _ hws hne
  | point hws hne hfs htail => exact hhead _ _ hws hne

end Decimal

namespace Double

theorem all_isNumeric_of_isDigit {cs : List Char} (h : cs.all Char.isDigit = true) :
    cs.all isNumeric = true := by
  refine List.all_eq_true.2 fun c hc => ?_
  rw [isNumeric, List.all_eq_true.1 h c hc, Bool.true_or]

end Double

namespace Decimal

theorem Ends.all_isNumeric {tail : List Char} {e : Int} (h : Ends tail e) :
    tail.all Double.isNumeric = true := by
  cases h with
  | nil => rfl
  | exponent e =>
    have hdigits := Double.all_isNumeric_of_isDigit (BigInt.isNatural_toDigits e.natAbs).all_isDigit
    rw [List.all_cons, List.all_cons, hdigits]
    split <;> rfl

theorem Spells.all_isNumeric {cs : List Char} {d : Decimal} (h : Spells cs d) :
    cs.all Double.isNumeric = true := by
  cases h with
  | whole hws hne htail =>
    rw [List.all_append, Double.all_isNumeric_of_isDigit hws, htail.all_isNumeric, Bool.true_and]
  | point hws hne hfs htail =>
    rw [List.all_append, List.all_cons, List.all_append, Double.all_isNumeric_of_isDigit hws,
      Double.all_isNumeric_of_isDigit hfs, htail.all_isNumeric]
    rfl

/-- The digits of a decimal are its significant ones and zeros. -/
theorem exists_zeros (d : Decimal) :
    ∃ z, Nat.toDigits 10 d.digits = d.significant ++ List.replicate z '0' := by
  have hzeros : (((Nat.toDigits 10 d.digits).reverse.takeWhile (· == '0'))) =
      List.replicate ((Nat.toDigits 10 d.digits).reverse.takeWhile (· == '0')).length '0' := by
    refine List.eq_replicate_length.2 fun c hc => ?_
    simpa using List.all_eq_true.1 List.all_takeWhile c hc
  have hsplit := congrArg List.reverse
    (List.takeWhile_append_dropWhile (p := (· == '0')) (l := (Nat.toDigits 10 d.digits).reverse))
  rw [List.reverse_append, List.reverse_reverse, hzeros, List.reverse_replicate] at hsplit
  exact ⟨_, hsplit.symm⟩

/-- The same magnitude, without zeros at the end of the digits. -/
def reduced (d : Decimal) : Decimal :=
  ⟨Nat.ofDigitChars 10 d.significant 0, d.point - d.significant.length⟩

theorem index_reduced (d : Decimal) : d.reduced.index = d.index := by
  obtain ⟨z, hz⟩ := d.exists_zeros
  have hlength : digitCount d.digits = d.significant.length + z := by simp [digitCount, hz]
  have hdigits : d.digits = Nat.ofDigitChars 10 d.significant 0 * 10 ^ z := by
    have hvalue := (BigInt.isNatural_toDigits d.digits).value
    rw [hz, Nat.ofDigitChars_append, Nat.ofDigitChars_replicate_zero] at hvalue
    rw [← hvalue, Nat.mul_comm]
  have hshift := index_shift (Nat.ofDigitChars 10 d.significant 0) z d.exponent
  rw [← hdigits] at hshift
  refine Eq.trans ?_ hshift.symm
  rw [reduced, point, hlength]
  congr 2
  omega

theorem all_isDigit_significant (d : Decimal) : d.significant.all Char.isDigit = true := by
  obtain ⟨z, hz⟩ := d.exists_zeros
  have hall := (BigInt.isNatural_toDigits d.digits).all_isDigit
  rw [hz, List.all_append, Bool.and_eq_true] at hall
  exact hall.1

/-- The text of a decimal spells one of the same magnitude. -/
theorem exists_spells_numeral {d : Decimal} (hd : d.significant ≠ []) :
    ∃ d', Spells d.numeral d' ∧ d'.index = d.index := by
  have hall := d.all_isDigit_significant
  rw [← d.index_reduced, reduced, numeral]
  generalize d.significant = cs at hd hall
  generalize d.point = point
  have hzeros : ∀ n, (List.replicate n '0').all Char.isDigit = true := fun n => by simp
  split
  · unfold positional
    split
    · next hpoint =>
      generalize hn : (-point).toNat = n
      have hall' : (List.replicate n '0' ++ cs).all Char.isDigit = true := by
        rw [List.all_append, hzeros, hall, Bool.true_and]
      have hvalue : Nat.ofDigitChars 10 (['0'] ++ (List.replicate n '0' ++ cs)) 0 =
          Nat.ofDigitChars 10 cs 0 := by
        rw [← List.append_assoc, Nat.ofDigitChars_append, List.singleton_append,
          ← List.replicate_succ, Nat.ofDigitChars_replicate_zero, Nat.mul_zero]
      have hspells := Spells.point (by decide) (List.cons_ne_nil '0' []) hall' .nil
      rw [List.append_nil, hvalue, List.length_append, List.length_replicate] at hspells
      exact ⟨_, hspells, congrArg (fun e => index ⟨_, e⟩) (by omega)⟩
    · split
      · next hpoint hle =>
        have hall' :
            (cs ++ List.replicate (point.toNat - cs.length) '0').all Char.isDigit = true := by
          rw [List.all_append, hzeros, hall, Bool.true_and]
        have hspells := Spells.whole hall' (by simp [hd]) .nil
        rw [List.append_nil, Nat.ofDigitChars_append, Nat.ofDigitChars_replicate_zero] at hspells
        refine ⟨_, hspells, ?_⟩
        rw [Nat.mul_comm, index_shift]
        exact congrArg (fun e => index ⟨_, e⟩) (by omega)
      · next hpoint hlt =>
        have hsplit := List.take_append_drop point.toNat cs
        rw [← hsplit, List.all_append, Bool.and_eq_true] at hall
        have hspells := Spells.point hall.1 (by simp [hd]; omega) hall.2 .nil
        rw [List.append_nil, hsplit, List.length_drop] at hspells
        exact ⟨_, hspells, congrArg (fun e => index ⟨_, e⟩) (by omega)⟩
  · obtain ⟨c, cs, rfl⟩ := List.exists_cons_of_ne_nil hd
    rw [List.all_cons, Bool.and_eq_true] at hall
    have hc : [c].all Char.isDigit = true := by rw [List.all_cons, hall.1]; rfl
    cases cs with
    | nil => exact ⟨_, .whole hc (List.cons_ne_nil c []) (.exponent (point - 1)), rfl⟩
    | cons c' cs =>
      have hspells := Spells.point hc (List.cons_ne_nil c []) hall.2 (.exponent (point - 1))
      refine ⟨_, hspells, congrArg (fun e => index ⟨_, e⟩) ?_⟩
      simp only [List.length_cons]
      omega

/-- A decimal without significant digits is nothing. -/
theorem significant_ne_nil {d : Decimal} (h : d.index ≠ 0) : d.significant ≠ [] := by
  intro hnil
  refine h ?_
  rw [← d.index_reduced]
  refine index_eq_zero (.inl ?_)
  rw [reduced, hnil]
  rfl

end Decimal

namespace Double

theorem ofIndex_index {x : Double} (h : x.isNaN = false) : ofIndex x.negative x.index = x := by
  have hle : x.index ≤ infinityIndex := by simpa [isNaN] using h
  have hsum : (if x.negative then 2 ^ 63 else 0) + x.index = x.bits.toNat := by
    have := x.bits.toNat_lt
    simp only [negative, index, Nat.pow_eq, decide_eq_true_eq]
    split <;> omega
  rw [ofIndex, Nat.min_eq_left hle, Nat.pow_eq, hsum, UInt64.ofNat_toNat]

theorem isBlank_eq_false {c : Char} (h : isNumeric c = true) : Text.isBlank c = false := by
  rw [isNumeric, Bool.or_eq_true] at h
  rcases h with h | h
  · have hc : 48 ≤ c.toNat ∧ c.toNat ≤ 57 := Char.isDigit_iff_toNat.1 h
    simp only [Text.isBlank, Bool.or_eq_false_iff, Bool.and_eq_false_iff, decide_eq_false_iff_not,
      beq_eq_false_iff_ne]
    omega
  · simp only [List.contains_eq_mem, List.mem_cons, List.not_mem_nil, or_false,
      decide_eq_true_eq] at h
    rcases h with rfl | rfl | rfl | rfl | rfl <;> rfl

theorem trimChars_eq {cs : List Char} (h : cs.all isNumeric = true) : Text.trimChars cs = cs := by
  have hdrop : ∀ ds : List Char, ds.all isNumeric = true → ds.dropWhile Text.isBlank = ds := by
    intro ds hds
    cases ds with
    | nil => rfl
    | cons c ds =>
      rw [List.all_cons, Bool.and_eq_true] at hds
      rw [List.dropWhile_cons_of_neg (by rw [isBlank_eq_false hds.1]; decide)]
  rw [Text.trimChars, hdrop cs h, hdrop _ (by rwa [List.all_reverse]), List.reverse_reverse]

/-- Well-formed text is read as a decimal numeral and as nothing else. -/
theorem ofChars_eq {cs : List Char} (h : isWellFormed cs = true) :
    ofChars cs = (ofNumeral? cs).getD nan := by
  have hall : cs.all isNumeric = true := (Bool.and_eq_true _ _ ▸ h).2
  have hnot : ∀ ds : List Char, ds.all isNumeric = false → cs ≠ ds := by
    rintro ds hds rfl
    rw [hall] at hds
    cases hds
  unfold ofChars
  rw [trimChars_eq hall]
  split
  · cases h
  iterate 6 cases hall
  · rw [if_neg (not_or.2 ⟨hnot _ rfl, hnot _ rfl⟩), if_neg (hnot _ rfl), if_pos h]

/-- The magnitude of a finite number, as it is written. -/
theorem exists_spells {x : Double} (h : x.isFinite = true) :
    ∃ cs d, Decimal.Spells cs d ∧ d.index = x.index ∧
      x.numeral = if x.negative && !x.isZero then '-' :: cs else cs := by
  have hlt : x.index < infinityIndex := by simpa [isFinite] using h
  have hnan : x.isNaN = false := by simp [isNaN]; omega
  have hinf : x.isInfinite = false := by simp [isInfinite]; omega
  simp only [numeral, hnan, hinf, Bool.false_eq_true, if_false]
  by_cases hzero : x.isZero = true
  · have hindex : x.index = 0 := by simpa [isZero] using hzero
    have hspells : Decimal.Spells ['0'] ⟨0, 0⟩ := .whole (by decide) (List.cons_ne_nil '0' []) .nil
    rw [if_pos hzero]
    refine ⟨_, _, hspells, ?_, rfl⟩
    rw [hindex]
    exact Decimal.index_eq_zero (.inl rfl)
  · have hindex : x.index ≠ 0 := by simpa [isZero] using hzero
    have hshortest := Decimal.index_shortest x.index
    obtain ⟨d, hd, heq⟩ := Decimal.exists_spells_numeral
      (Decimal.significant_ne_nil (hshortest ▸ hindex))
    rw [if_neg hzero]
    exact ⟨_, d, hd, heq.trans hshortest, rfl⟩

section

variable {cs : List Char} {d : Decimal} (h : Decimal.Spells cs d) (negative : Bool)

include h

theorem isWellFormed_signed : isWellFormed (if negative then '-' :: cs else cs) = true := by
  obtain ⟨c, tail, hcs, hc⟩ := h.exists_digit
  have hany : cs.any Char.isDigit = true := by rw [hcs, List.any_cons, hc, Bool.true_or]
  cases negative with
  | false => rw [if_neg Bool.false_ne_true, isWellFormed, hany, h.all_isNumeric, Bool.true_and]
  | true =>
    rw [if_pos rfl, isWellFormed, List.any_cons, List.all_cons, hany, h.all_isNumeric]
    rfl

theorem ofNumeral?_signed :
    ofNumeral? (if negative then '-' :: cs else cs) = some (ofIndex negative d.index) := by
  have hmap : ∀ sign, (Decimal.parse? cs).map (·.toDouble sign) = some (ofIndex sign d.index) :=
    fun sign => by rw [h.parse?, Option.map_some, Decimal.toDouble_eq]
  cases negative with
  | false =>
    obtain ⟨c, tail, hcs, hc⟩ := h.exists_digit
    rw [if_neg Bool.false_ne_true, ← hmap]
    unfold ofNumeral?
    split
    · cases hcs
      cases hc
    · cases hcs
      cases hc
    · rfl
  | true => rw [if_pos rfl, ← hmap, ofNumeral?]

end

theorem numeral_of_isInfinite {x : Double} (h : x.isInfinite = true) :
    x.numeral = if x.negative then "-Infinity".toList else "Infinity".toList := by
  have hindex : x.index = infinityIndex := by simpa [isInfinite] using h
  have hnan : x.isNaN = false := by simp [isNaN, hindex]
  have hzero : x.isZero = false := by simp [isZero, hindex, infinityIndex]
  simp only [numeral, hnan, h, hzero, Bool.false_eq_true, if_false, if_true, Bool.not_false,
    Bool.and_true]
  rfl

/-- Numbers read back from their text, zero without its sign. -/
theorem ofText_text {x : Double} (h : x.isNaN = false) :
    (ofText x.text).bits = (if x.isZero then zero false else x).bits ∧
      (x.isFinite = true → isWellFormed x.numeral = true) := by
  rw [ofText, text, String.toList_ofList]
  by_cases hfinite : x.isFinite = true
  · obtain ⟨cs, d, hcs, hd, hnumeral⟩ := exists_spells hfinite
    have hwell := isWellFormed_signed hcs (x.negative && !x.isZero)
    refine ⟨?_, fun _ => hnumeral ▸ hwell⟩
    rw [hnumeral, ofChars_eq hwell, ofNumeral?_signed hcs, Option.getD_some, hd]
    by_cases hzero : x.isZero = true
    · have hindex : x.index = 0 := by simpa [isZero] using hzero
      rw [if_pos hzero, hzero, hindex, Bool.not_true, Bool.and_false, zero]
    · rw [if_neg hzero, Bool.eq_false_iff.2 hzero, Bool.not_false, Bool.and_true, ofIndex_index h]
  · have hindex : x.index = infinityIndex := by
      simp only [isFinite, isNaN, decide_eq_true_eq, decide_eq_false_iff_not] at hfinite h
      omega
    have hinfinite : x.isInfinite = true := by simp [isInfinite, hindex]
    have hzero : x.isZero = false := by simp [isZero, hindex, infinityIndex]
    refine ⟨?_, fun hx => absurd hx hfinite⟩
    rw [numeral_of_isInfinite hinfinite, hzero, if_neg Bool.false_ne_true, ← ofIndex_index h,
      hindex, negative_ofIndex]
    cases x.negative with
    | false => rfl
    | true => rfl

theorem ofText_text_of_least :
    (ofText (text ⟨0x8000000000000001⟩)).bits = 0x8000000000000001 ∧
      isWellFormed (numeral ⟨0x8000000000000001⟩) = true := by
  obtain ⟨hbits, hwell⟩ := ofText_text (x := ⟨0x8000000000000001⟩) (by decide +kernel)
  rw [show isZero ⟨0x8000000000000001⟩ = false by decide +kernel,
    if_neg Bool.false_ne_true] at hbits
  exact ⟨hbits, hwell (by decide +kernel)⟩

end Double
end TagCheck
