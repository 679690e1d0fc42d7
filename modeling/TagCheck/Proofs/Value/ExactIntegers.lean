import Mathlib.Data.List.Basic
import TagCheck.Proofs.Token.Tiling
import TagCheck.Value.Eval

/-! Integer arithmetic in constant expressions. The integers travel as decimal text, are negated as
text and are brought into 128 bits only where two of them are combined. Main statement: what an
expression of integer literals, minus signs and the five operations evaluates to is the canonical
numeral of its exact value, and it has no value exactly if a divisor is zero or an operation leaves
the range. -/
namespace TagCheck
namespace BigInt

/-- Decimal digits of a natural number, with no zero in front of another digit. -/
structure IsNatural (ds : List Char) (n : Nat) : Prop where
  all_isDigit : ds.all Char.isDigit = true
  value : Nat.ofDigitChars 10 ds 0 = n
  ne_nil : ds ≠ []
  leading : ds.head? = some '0' → ds = ['0']

/-- The canonical numeral of an integer: a minus sign stands before the digits of a negative number
and nowhere else. -/
def IsNumeral (text : String) (z : Int) : Prop :=
  ∃ ds, IsNatural ds z.natAbs ∧ text.toList = if z < 0 then '-' :: ds else ds

/-! Numerals that are printed. -/

theorem head?_toDigits (n : Nat) : (Nat.toDigits 10 n).head? = some '0' → n = 0 := by
  induction n using Nat.strongRecOn with
  | ind n ih =>
    rw [Nat.toDigits_eq_if (by decide)]
    split
    · intro h
      exact Nat.digitChar_eq_zero.1 (Option.some.inj h)
    · rename_i hn
      intro h
      rw [List.head?_append, Option.or_of_isSome (by simp [Nat.toDigits_ne_nil])] at h
      have hzero := ih (n / 10) (by omega) h
      omega

theorem isNatural_toDigits (n : Nat) : IsNatural (Nat.toDigits 10 n) n where
  all_isDigit := List.all_eq_true.2 fun _ hc =>
    Nat.isDigit_of_mem_toDigits (by decide) (by decide) hc
  value := Nat.ofDigitChars_toDigits (by decide) (by decide)
  ne_nil := Nat.toDigits_ne_nil
  leading h := by
    rw [head?_toDigits n h]
    rfl

theorem isNumeral_toString (z : Int) : IsNumeral (toString z) z := by
  refine ⟨Nat.toDigits 10 z.natAbs, isNatural_toDigits _, ?_⟩
  rw [Int.toString_eq_repr, Int.repr_eq_if]
  by_cases hz : z < 0
  · rw [if_neg (by omega), if_pos hz, String.toList_append, Nat.toList_repr,
      show (-z).toNat = z.natAbs by omega]
    rfl
  · rw [if_pos (by omega), if_neg hz, Nat.toList_repr, show z.toNat = z.natAbs by omega]

/-! Numerals that are read. -/

theorem digitValue?_of_isDigit {c : Char} (h : c.isDigit = true) :
    Text.digitValue? 10 c = some (c.toNat - '0'.toNat) := by
  have hlt : c.toNat - '0'.toNat < 10 := by
    have hc := Char.isDigit_iff_toNat.1 h
    have hnine : '9'.toNat = '0'.toNat + 9 := rfl
    omega
  rw [Text.digitValue?, if_pos h]
  exact Option.filter_eq_some_iff.2 ⟨rfl, decide_eq_true hlt⟩

theorem natOfDigits_eq {ds : List Char} (h : ds.all Char.isDigit = true) :
    Text.natOfDigits 10 ds = Nat.ofDigitChars 10 ds 0 := by
  rw [Text.natOfDigits, Nat.ofDigitChars_eq_foldl]
  refine List.foldl_ext _ _ _ fun n c hc => ?_
  rw [digitValue?_of_isDigit (List.all_eq_true.1 h c hc), Option.getD_some, Nat.mul_comm]

theorem IsNatural.head_ne {ds : List Char} {n : Nat} {c : Char} (h : IsNatural ds n)
    (hc : c.isDigit = false) : ds.head? ≠ some c := by
  intro hhead
  have hdigit : c.isDigit = true := List.all_eq_true.1 h.all_isDigit c (List.mem_of_head? hhead)
  rw [hc] at hdigit
  cases hdigit

/-- A numeral is read back as the number that it stands for. -/
theorem IsNumeral.signedDecimal? {text : String} {z : Int} (h : IsNumeral text z) :
    Text.signedDecimal? text.toList = some z := by
  obtain ⟨ds, hds, htext⟩ := h
  have hread : (if ds.isEmpty || !ds.all Char.isDigit then none
      else some (Text.natOfDigits 10 ds)) = some z.natAbs := by
    have hempty : ds.isEmpty = false := List.isEmpty_eq_false_iff.2 hds.ne_nil
    rw [hempty, hds.all_isDigit, natOfDigits_eq hds.all_isDigit, hds.value]
    rfl
  rw [htext]
  by_cases hz : z < 0
  · rw [if_pos hz]
    simp only [Text.signedDecimal?, hread]
    exact congrArg some (show -(z.natAbs : Int) = z by omega)
  · rw [if_neg hz]
    have hplain : Text.signedDecimal? ds = (if ds.isEmpty || !ds.all Char.isDigit then none
        else some (Text.natOfDigits 10 ds)).map Int.ofNat := by
      unfold Text.signedDecimal?
      split
      · exact absurd rfl (hds.head_ne (c := '-') rfl)
      · exact absurd rfl (hds.head_ne (c := '+') rfl)
      · rfl
    rw [hplain, hread, Option.map_some, Option.some.injEq, Int.ofNat_eq_natCast]
    omega

theorem IsNumeral.ofDigits? {text : String} {z : Int} (h : IsNumeral text z) :
    ofDigits? text.toList = if inRange z then some z else none := by
  rw [BigInt.ofDigits?, h.signedDecimal?]
  rfl

/-! Negation of the text. -/

theorem IsNatural.eq_zero_iff {ds : List Char} {n : Nat} (h : IsNatural ds n) :
    ds = ['0'] ↔ n = 0 := by
  constructor
  · rintro rfl
    exact h.value.symm
  · intro hn
    obtain ⟨c, cs, rfl⟩ := List.exists_cons_of_ne_nil h.ne_nil
    -- Digits behind the first one only add to its share of the value.
    have hle : c.toNat - '0'.toNat ≤ Nat.ofDigitChars 10 (c :: cs) 0 := by
      rw [Nat.ofDigitChars_cons, Nat.ofDigitChars_eq_ofDigitChars_zero]
      have hpos : 0 < 10 ^ cs.length := Nat.pow_pos (by decide)
      have hfirst := Nat.le_mul_of_pos_left (10 * 0 + (c.toNat - '0'.toNat)) hpos
      omega
    rw [h.value, hn] at hle
    have hdigit := Char.isDigit_iff_toNat.1 (List.all_eq_true.1 h.all_isDigit c (by simp))
    have hzero : c = '0' := Char.toNat_inj.1 (by omega)
    exact h.leading (congrArg some hzero)

theorem IsNumeral.negate {text : String} {z : Int} (h : IsNumeral text z) :
    IsNumeral (negate text) (-z) := by
  obtain ⟨ds, hds, htext⟩ := h
  refine ⟨ds, by rwa [Int.natAbs_neg], ?_⟩
  by_cases hz : z < 0
  · rw [if_pos hz] at htext
    rw [if_neg (by omega), BigInt.negate, htext]
    simp
  · rw [if_neg hz] at htext
    have hnegate : BigInt.negate text = if ds == ['0'] then text else "-" ++ text := by
      unfold BigInt.negate
      rw [htext]
      split
      · exact absurd rfl (hds.head_ne (c := '-') rfl)
      · rfl
    by_cases hzero : ds = ['0']
    · have hnat : z.natAbs = 0 := hds.eq_zero_iff.1 hzero
      rw [hnegate, if_pos (beq_iff_eq.2 hzero), if_neg (by omega), htext]
    · have hnat : z.natAbs ≠ 0 := fun hn => hzero (hds.eq_zero_iff.2 hn)
      rw [hnegate, if_neg (by simpa using hzero), if_pos (by omega), String.toList_append, htext]
      rfl

end BigInt

/-! Literals. -/

namespace Scan

open BigInt

theorem isNatural_of_radixNumber {radix : Nat} {gs rest : List Glyph} {digits : String}
    (h : radixNumber radix gs = .ok (.bigint digits, rest)) : ∃ n, IsNatural digits.toList n := by
  simp only [radixNumber] at h
  split at h
  · cases h
  · split at h
    · cases h
    · split at h
      · cases h
        rw [Nat.toString_eq_repr, Nat.toList_repr]
        exact ⟨_, isNatural_toDigits _⟩
      · cases h

/-- Digits without the zeros in front of them. -/
theorem isNatural_dropWhile {ds : List Char} (h : ds.all Char.isDigit = true) :
    ∃ n, IsNatural (if (ds.dropWhile (· == '0')).isEmpty then "0"
      else String.ofList (ds.dropWhile (· == '0'))).toList n := by
  split
  · exact ⟨0, rfl, rfl, by decide, fun _ => rfl⟩
  · rename_i hempty
    rw [String.toList_ofList]
    refine ⟨_, ?_, rfl, by simpa using hempty, fun hhead => ?_⟩
    · exact List.all_eq_true.2 fun c hc =>
        List.all_eq_true.1 h c ((List.dropWhile_suffix _).subset hc)
    · have hnot := List.head?_dropWhile_not (· == '0') ds
      rw [hhead] at hnot
      simp at hnot

theorem isNatural_of_decimalNumber {first : Char} {gs rest : List Glyph} {digits : String}
    (hfirst : first.isDigit = true ∨ first = '.')
    (h : decimalNumber first gs = .ok (.bigint digits, rest)) :
    ∃ n, IsNatural digits.toList n := by
  simp only [decimalNumber] at h
  split at h
  · rename_i hwhole
    cases h
    refine isNatural_dropWhile ?_
    simp only [Bool.and_eq_true, List.isEmpty_iff] at hwhole
    rw [hwhole.1.1, hwhole.1.2, List.append_nil, List.append_nil]
    have hpoint : first ≠ '.' := by
      rintro rfl
      simp [mantissa] at hwhole
    have hparts : (first :: charsWhile isDecimalPart gs).all isDecimalPart = true := by
      rw [List.all_cons, all_charsWhile, isDecimalPart, hfirst.resolve_right hpoint]
      rfl
    simp only [mantissa, if_neg hpoint, withoutUnderscores]
    refine List.all_eq_true.2 fun c hc => ?_
    obtain ⟨hmem, hc⟩ := List.mem_filter.1 hc
    have hpart := List.all_eq_true.1 hparts c hmem
    simp only [isDecimalPart, Bool.or_eq_true, beq_iff_eq] at hpart
    exact hpart.resolve_right (by simpa using hc)
  · split at h <;> cases h

theorem isNatural_of_number {first : Char} {gs rest : List Glyph} {digits : String}
    (hfirst : first.isDigit = true ∨ first = '.')
    (h : number first gs = .ok (.bigint digits, rest)) : ∃ n, IsNatural digits.toList n := by
  unfold number at h
  split at h
  · exact isNatural_of_radixNumber h
  · exact isNatural_of_decimalNumber hfirst h

/-- Only numbers are read as integers. -/
theorem isNatural_of_token {braces braces' : List Nat} {regexAllowed : Bool} {g : Glyph}
    {gs rest : List Glyph} {digits : String}
    (h : token braces regexAllowed g gs = .ok ((.bigint digits, braces'), rest)) :
    ∃ n, IsNatural digits.toList n := by
  have htemplate {o c : TemplatePart} {r : TokenKind × Bool}
      (ht : template o c gs = .ok (r, rest)) : r.1 ≠ .bigint digits := by
    obtain ⟨t, -, rfl⟩ := of_mapValue ht
    simp
  simp only [token] at h
  split at h
  · cases h
  split at h
  · split at h
    · cases h
    · obtain ⟨r, hs, heq⟩ := of_mapValue h
      exact absurd (congrArg Prod.fst heq) (htemplate hs)
    · cases h
  split at h
  · obtain ⟨r, hs, heq⟩ := of_mapValue h
    exact absurd (congrArg Prod.fst heq) (htemplate hs)
  split at h
  · obtain ⟨k, hs, heq⟩ := of_mapValue h
    cases heq
    obtain ⟨-, v, -, hk⟩ := cuts_string hs
    cases hk
  split at h
  · rename_i hfirst
    obtain ⟨k, hs, heq⟩ := of_mapValue h
    cases heq
    refine isNatural_of_number ?_ hs
    simp only [Bool.or_eq_true, Bool.and_eq_true, beq_iff_eq] at hfirst
    exact hfirst.imp_right And.left
  split at h
  · obtain ⟨k, hs, heq⟩ := of_mapValue h
    cases heq
    simp only [regex] at hs
    split at hs <;> cases hs
  split at h
  · obtain ⟨k, hs, heq⟩ := of_mapValue h
    cases heq
    simp only [word, Except.ok.injEq, Prod.mk.injEq] at hs
    split at hs <;> cases hs.1
  split at h
  · cases h
  · cases h

theorem isNatural_of_tokensFrom {eof : Position} {braces : List Nat} {found : List Token}
    {gs : List Glyph} {tokens : List Token} (h : tokensFrom eof braces found gs = .ok tokens) :
    ∃ new, tokens = found.reverse ++ new ∧
      ∀ t ∈ new, ∀ digits, t.kind = .bigint digits → ∃ n, IsNatural digits.toList n := by
  fun_induction tokensFrom eof braces found gs with
  | case1 | case3 | case4 => cases h
  | case2 =>
    cases h
    exact ⟨[_], List.reverse_cons, by simp⟩
  | case5 braces found gs newline g rest ht kind braces' rest' hk ih =>
    obtain ⟨new, rfl, hnew⟩ := ih h
    refine ⟨⟨kind, g.pos, newline⟩ :: new, by simp, List.forall_mem_cons.2 ⟨?_, hnew⟩⟩
    rintro digits rfl
    exact isNatural_of_token hk

end Scan

theorem isNatural_of_tokenize {source : String} {tokens : List Token}
    (h : tokenize source = .ok tokens) {t : Token} (ht : t ∈ tokens) {digits : String}
    (hkind : t.kind = .bigint digits) : ∃ n, BigInt.IsNatural digits.toList n := by
  obtain ⟨new, rfl, hnew⟩ := Scan.isNatural_of_tokensFrom h
  exact hnew t (by simpa using ht) digits hkind

/-! Expressions. -/

namespace BinaryOp

/-- The exact result of an operation on integers, where it has one. Division drops the fraction and
the remainder has the sign of the dividend. -/
def integerResult? : BinaryOp → Int → Int → Option Int
  | add, a, b => some (a + b)
  | sub, a, b => some (a - b)
  | mul, a, b => some (a * b)
  | div, a, b => if b = 0 then none else some (a.tdiv b)
  | mod, a, b => if b = 0 then none else some (a.tmod b)
  | _, _, _ => none

/-- The operation cannot be carried out in 128 bits. -/
inductive Fails : BinaryOp → Int → Int → Prop where
  | left (op : BinaryOp) {a : Int} (b : Int) : BigInt.inRange a = false → Fails op a b
  | right (op : BinaryOp) (a : Int) {b : Int} : BigInt.inRange b = false → Fails op a b
  | result {op : BinaryOp} {a b z : Int} :
      op.integerResult? a b = some z → BigInt.inRange z = false → Fails op a b
  | divisor {op : BinaryOp} (a : Int) : op = div ∨ op = mod → Fails op a 0
  | quotient {a b : Int} : BigInt.inRange (a.tdiv b) = false → Fails mod a b

theorem inRange_tmod {a : Int} (h : BigInt.inRange a = true) (b : Int) :
    BigInt.inRange (a.tmod b) = true := by
  have habs : (a.tmod b).natAbs ≤ a.natAbs := by
    rw [Int.natAbs_tmod]
    exact Nat.mod_le _ _
  have hnonneg : 0 ≤ a → 0 ≤ a.tmod b := Int.tmod_nonneg b
  have hnonpos : a ≤ 0 → a.tmod b ≤ 0 := fun ha => by
    have hneg := Int.tmod_nonneg b (Int.neg_nonneg.2 ha)
    rw [Int.neg_tmod] at hneg
    omega
  have hleast : BigInt.least ≤ 0 := by decide
  have hgreatest : 0 ≤ BigInt.greatest := by decide
  simp only [BigInt.inRange, Bool.and_eq_true, decide_eq_true_eq] at h ⊢
  omega

theorem not_fails {op : BinaryOp} {a b z : Int} (ha : BigInt.inRange a = true)
    (hb : BigInt.inRange b = true) (hexact : op.integerResult? a b = some z)
    (hz : BigInt.inRange z = true) (hquotient : op = mod → BigInt.inRange (a.tdiv b) = true) :
    ¬ op.Fails a b := by
  intro hfails
  cases hfails with
  | left _ _ h => simp [ha] at h
  | right _ _ h => simp [hb] at h
  | result h h' =>
    cases hexact.symm.trans h
    simp [hz] at h'
  | divisor _ h => rcases h with rfl | rfl <;> simp [integerResult?] at hexact
  | quotient h => simp [hquotient rfl] at h

/-- Two integers in range are combined exactly, or not at all. -/
theorem combine_spec {op : BinaryOp} (hop : op ∈ [add, sub, mul, div, mod]) {a b : Int}
    (ha : BigInt.inRange a = true) (hb : BigInt.inRange b = true) :
    (∃ z, BigInt.combine op a b = some z ∧ op.integerResult? a b = some z ∧ ¬ op.Fails a b) ∨
      BigInt.combine op a b = none ∧ op.Fails a b := by
  have hchecked {z : Int} (hcombine : BigInt.combine op a b = BigInt.combine.checked z)
      (hexact : op.integerResult? a b = some z) (hmod : op ≠ mod) :
      (∃ z, BigInt.combine op a b = some z ∧ op.integerResult? a b = some z ∧ ¬ op.Fails a b) ∨
        BigInt.combine op a b = none ∧ op.Fails a b := by
    rw [hcombine, BigInt.combine.checked]
    by_cases hz : BigInt.inRange z = true
    · exact .inl ⟨z, if_pos hz, hexact, not_fails ha hb hexact hz fun h => absurd h hmod⟩
    · exact .inr ⟨if_neg hz, .result hexact (by simpa using hz)⟩
  simp only [List.mem_cons, List.not_mem_nil, or_false] at hop
  by_cases hdivides : op = div ∨ op = mod
  · by_cases hzero : b = 0
    · subst hzero
      refine .inr ⟨?_, .divisor a hdivides⟩
      rcases hdivides with rfl | rfl <;> rfl
    · rcases hdivides with rfl | rfl
      · exact hchecked (if_neg hzero) (if_neg hzero) (by decide)
      · have hcombine : BigInt.combine mod a b =
            (BigInt.combine.checked (a.tdiv b)).map fun _ => a.tmod b := if_neg hzero
        rw [hcombine, BigInt.combine.checked]
        by_cases hq : BigInt.inRange (a.tdiv b) = true
        · have hexact : mod.integerResult? a b = some (a.tmod b) := if_neg hzero
          refine .inl ⟨a.tmod b, by rw [if_pos hq]; rfl, hexact, ?_⟩
          exact not_fails ha hb hexact (inRange_tmod ha b) fun _ => hq
        · exact .inr ⟨by rw [if_neg hq]; rfl, .quotient (by simpa using hq)⟩
  · rcases hop with rfl | rfl | rfl | rfl | rfl
    · exact hchecked rfl rfl (by decide)
    · exact hchecked rfl rfl (by decide)
    · exact hchecked rfl rfl (by decide)
    · simp at hdivides
    · simp at hdivides

/-- An operation on numerals gives the numeral of its exact result, or nothing. -/
theorem applyBinary_spec {op : BinaryOp} (hop : op ∈ [add, sub, mul, div, mod]) {d d' : String}
    {a b : Int} (hd : BigInt.IsNumeral d a) (hd' : BigInt.IsNumeral d' b) :
    (∃ z, Value.applyBinary op (.bigint d) (.bigint d') = some (.bigint (toString z)) ∧
      op.integerResult? a b = some z ∧ ¬ op.Fails a b) ∨
    Value.applyBinary op (.bigint d) (.bigint d') = none ∧ op.Fails a b := by
  rw [Value.applyBinary, hd.ofDigits?, hd'.ofDigits?]
  by_cases ha : BigInt.inRange a = true
  · by_cases hb : BigInt.inRange b = true
    · rw [if_pos ha, if_pos hb]
      rcases combine_spec hop ha hb with ⟨z, hz, hexact, hfails⟩ | ⟨hnone, hfails⟩
      · refine .inl ⟨z, ?_, hexact, hfails⟩
        simp only [Option.bind_eq_bind, Option.bind_some, hz]
        rfl
      · refine .inr ⟨?_, hfails⟩
        simp only [Option.bind_eq_bind, Option.bind_some, hnone, Option.bind_none]
    · rw [if_neg hb]
      refine .inr ⟨?_, .right op a (by simpa using hb)⟩
      rw [if_pos ha]
      rfl
  · rw [if_neg ha]
    exact .inr ⟨rfl, .left op b (by simpa using ha)⟩

end BinaryOp

namespace Expr

/-- Literals of integers, as they are read from sources, under minus signs and the five
operations. -/
inductive IsArithmetic : Expr → Prop where
  | literal {source : String} {tokens : List Token} {t : Token} {digits : String} (n : Node) :
      tokenize source = .ok tokens → t ∈ tokens → t.kind = .bigint digits →
      IsArithmetic (.bigint n digits)
  | negate {e : Expr} (n : Node) : IsArithmetic e → IsArithmetic (.unary n .minus e)
  | combine {op : BinaryOp} {l r : Expr} (n : Node) :
      op ∈ [BinaryOp.add, .sub, .mul, .div, .mod] → IsArithmetic l → IsArithmetic r →
      IsArithmetic (.binary n op l r)

/-- The exact value of such an expression, unless something is divided by zero. -/
def exactValue? : Expr → Option Int
  | .bigint _ digits => some (Nat.ofDigitChars 10 digits.toList 0)
  | .unary _ .minus e => do return -(← e.exactValue?)
  | .binary _ op l r => do op.integerResult? (← l.exactValue?) (← r.exactValue?)
  | _ => none

inductive Fails : Expr → Prop where
  | unary {n : Node} {op : UnaryOp} {e : Expr} : Fails e → Fails (.unary n op e)
  | left {n : Node} {op : BinaryOp} {l r : Expr} : Fails l → Fails (.binary n op l r)
  | right {n : Node} {op : BinaryOp} {l r : Expr} : Fails r → Fails (.binary n op l r)
  | here {n : Node} {op : BinaryOp} {l r : Expr} {a b : Int} : l.exactValue? = some a →
      r.exactValue? = some b → op.Fails a b → Fails (.binary n op l r)

/-- Such an expression has the numeral of its exact value, or it fails and has none. -/
theorem IsArithmetic.eval_cases {e : Expr} (h : e.IsArithmetic) :
    (∃ d z, e.eval = some (.bigint d) ∧ e.exactValue? = some z ∧ BigInt.IsNumeral d z ∧
      ¬ e.Fails) ∨ e.eval = none ∧ e.Fails := by
  induction h with
  | @literal source tokens t digits n htokens ht hkind =>
    obtain ⟨m, hm⟩ := isNatural_of_tokenize htokens ht hkind
    refine .inl ⟨digits, m, rfl, ?_, ⟨digits.toList, hm, rfl⟩, fun hf => by cases hf⟩
    rw [exactValue?, hm.value]
  | @negate e n _ ih =>
    rcases ih with ⟨d, z, heval, hexact, hd, hfails⟩ | ⟨heval, hfails⟩
    · refine .inl ⟨BigInt.negate d, -z, ?_, ?_, hd.negate, ?_⟩
      · rw [eval, heval]
        rfl
      · rw [exactValue?, hexact]
        rfl
      · intro hf
        cases hf with
        | unary hf => exact hfails hf
    · refine .inr ⟨?_, .unary hfails⟩
      rw [eval, heval]
      rfl
  | @combine op l r n hop _ _ ihl ihr =>
    rcases ihl with ⟨d, a, hl, hla, hd, hlf⟩ | ⟨hl, hlf⟩
    · rcases ihr with ⟨d', b, hr, hrb, hd', hrf⟩ | ⟨hr, hrf⟩
      · have heval : (Expr.binary n op l r).eval =
            Value.applyBinary op (.bigint d) (.bigint d') := by
          rw [eval, hl, hr]
          rfl
        have hexact : (Expr.binary n op l r).exactValue? = op.integerResult? a b := by
          rw [exactValue?, hla, hrb]
          rfl
        rw [heval, hexact]
        rcases BinaryOp.applyBinary_spec hop hd hd' with ⟨z, hz, hz', hfails⟩ | ⟨hnone, hfails⟩
        · refine .inl ⟨toString z, z, hz, hz', BigInt.isNumeral_toString z, fun hf => ?_⟩
          cases hf with
          | left hf => exact hlf hf
          | right hf => exact hrf hf
          | here hla' hrb' hf =>
            cases hla.symm.trans hla'
            cases hrb.symm.trans hrb'
            exact hfails hf
        · exact .inr ⟨hnone, .here hla hrb hfails⟩
      · refine .inr ⟨?_, .right hrf⟩
        rw [eval, hl, hr]
        rfl
    · refine .inr ⟨?_, .left hlf⟩
      rw [eval, hl]
      rfl

/-- Integer arithmetic gives the canonical numeral of the exact value. It fails exactly if a divisor
is zero or an operation leaves the range of 128 bits with a sign. -/
theorem eval_exact {e : Expr} (h : e.IsArithmetic) :
    (∀ v, e.eval = some v → ∃ d z, v = .bigint d ∧ e.exactValue? = some z ∧
      BigInt.IsNumeral d z) ∧ (e.eval = none ↔ e.Fails) := by
  rcases h.eval_cases with ⟨d, z, heval, hexact, hd, hfails⟩ | ⟨heval, hfails⟩
  · refine ⟨fun v hv => ?_, ?_⟩
    · cases heval.symm.trans hv
      exact ⟨d, z, rfl, hexact, hd⟩
    · simp [heval, hfails]
  · simp [heval, hfails]

/-- The least integer of 128 bits is divided by one, and has no remainder by minus one because the
quotient is out of range. -/
theorem eval_exact_least : ∃ tokens,
    tokenize "0x8000_0000_0000_0000_0000_0000_0000_0000n 01n" = .ok tokens ∧
    let n : Node := ⟨0, .start⟩
    let least := Expr.unary n .minus (.bigint n "170141183460469231731687303715884105728")
    let one := Expr.bigint n "1"
    (Expr.binary n .div least one).IsArithmetic ∧
    (∃ d, (Expr.binary n .div least one).eval = some (.bigint d) ∧
      BigInt.IsNumeral d BigInt.least) ∧
    (Expr.binary n .mod least (.unary n .minus one)).Fails := by
  have htest : (tokenize "0x8000_0000_0000_0000_0000_0000_0000_0000n 01n").toOption.map
      (List.map Token.kind) =
        some [.bigint "170141183460469231731687303715884105728", .bigint "1", .eof] := by
    decide +kernel
  cases htokens : tokenize "0x8000_0000_0000_0000_0000_0000_0000_0000n 01n" with
  | error e => simp [htokens, Except.toOption] at htest
  | ok tokens =>
    simp only [htokens, Except.toOption, Option.map_some, Option.some.injEq] at htest
    refine ⟨tokens, rfl, ?_⟩
    intro n least one
    have hliteral (digits : String) (hdigits : .bigint digits ∈ tokens.map Token.kind) :
        (Expr.bigint n digits).IsArithmetic := by
      obtain ⟨t, ht, hkind⟩ := List.mem_map.1 hdigits
      exact .literal n htokens ht hkind
    have hleast : least.IsArithmetic := .negate n (hliteral _ (by simp [htest]))
    have hone : one.IsArithmetic := hliteral _ (by simp [htest])
    have hquotient : (Expr.binary n .div least one).IsArithmetic :=
      .combine n (by decide) hleast hone
    refine ⟨hquotient, ?_, ?_⟩
    · have heval : (Expr.binary n .div least one).eval.isSome = true := by decide +kernel
      have hexact : (Expr.binary n .div least one).exactValue? = some BigInt.least := by
        decide +kernel
      obtain ⟨v, hv⟩ := Option.isSome_iff_exists.1 heval
      obtain ⟨d, z, rfl, hz, hd⟩ := (eval_exact hquotient).1 v hv
      cases hexact.symm.trans hz
      exact ⟨d, hv, hd⟩
    · have hnone : (Expr.binary n .mod least (.unary n .minus one)).eval.isNone = true := by
        decide +kernel
      have hremainder : (Expr.binary n .mod least (.unary n .minus one)).IsArithmetic :=
        .combine n (by decide) hleast (.negate n hone)
      exact (eval_exact hremainder).2.1 (Option.isNone_iff_eq_none.1 hnone)

end Expr
end TagCheck
