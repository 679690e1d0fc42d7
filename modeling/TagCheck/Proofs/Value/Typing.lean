import TagCheck.Check.Call
import TagCheck.Check.Operator
import TagCheck.Proofs.Value.ShapeSoundness

/-! The types of constant expressions by rules, and that evaluation respects them. The rules speak
of an expression and its operands only, and of no state of a check. -/
namespace TagCheck

def Double.tag (x : Double) : Tag :=
  if x.isSafeInteger then .int else if x.isFinite then .finite else .number

def BinaryOp.isArithmetic : BinaryOp → Bool
  | .add | .sub | .mul | .div => true
  | _ => false

/-- The types of operands of arithmetic that are not converted, and the type of the result. -/
inductive BinaryOp.Takes : BinaryOp → Tag → Tag → Tag → Prop
  | texts : Takes .add .string .string .string
  | integers {op : BinaryOp} (hop : op.isArithmetic = true) : Takes op .bint .bint .bint
  | numbers {op : BinaryOp} {t u : Tag} (hop : op.isArithmetic = true) (ht : t.isNumeric = true)
    (hu : u.isNumeric = true) : Takes op t u .number

/-- The rules of typing. Nothing is asked of an expression without a value, such as the operand that
is left out in the evaluation of a logical expression. -/
inductive Expr.Types : Expr → Tag → Prop
  | noValue {e : Expr} {t : Tag} (h : e.eval = none) : Types e t
  | number (n : Node) (x : Double) : Types (.number n x) x.tag
  | bigint (n : Node) (digits : String) : Types (.bigint n digits) .bint
  | str (n : Node) (s : String) : Types (.str n s) .string
  | bool (n : Node) (b : Bool) : Types (.bool n b) .bool
  | null (n : Node) : Types (.null n) .nul
  | regex (n : Node) (pattern flags : String) : Types (.regex n pattern flags) .regex
  | template (n : Node) (t : Template) : Types (.template n t) .string
  | array (n : Node) (es : List Element) : Types (.array n es) .array
  | object (n : Node) (ps : List Property) : Types (.object n ps) .object
  | function (f : Func) : Types (.function f) .func
  | global {i : Ident} {t : Tag} (h : Check.globalTag? i.name = some t) : Types (.ident i) t
  | minus {n : Node} {e : Expr} {t : Tag} (ht : t.isNumeric = true) (h : Types e t) :
    Types (.unary n .minus e) .number
  | plus (n : Node) (e : Expr) : Types (.unary n .plus e) .number
  | bitNot (n : Node) (e : Expr) : Types (.unary n .bitNot e) .number
  | not (n : Node) (e : Expr) : Types (.unary n .not e) .bool
  | typeof (n : Node) (e : Expr) : Types (.unary n .typeof e) .string
  | void (n : Node) (e : Expr) : Types (.unary n .void e) .undef
  | binary {n : Node} {op : BinaryOp} {l r : Expr} {t u w : Tag} (h : op.Takes t u w)
    (hl : Types l t) (hr : Types r u) : Types (.binary n op l r) w
  | logical {n : Node} {op : LogicalOp} {l r : Expr} {t : Tag} (hl : Types l t) (hr : Types r t) :
    Types (.logical n op l r) t
  | conditional {n : Node} {test c a : Expr} {t : Tag} (hc : Types c t) (ha : Types a t) :
    Types (.conditional n test c a) t
  | sequence {n : Node} {parts : List Expr} {e : Expr} {t : Tag} (hlast : parts.getLast? = some e)
    (h : Types e t) : Types (.sequence n parts) t
  | native {n : Node} {i : Ident} {args : List Element} {t : Tag}
    (h : nativeResult? i.name = some t) : Types (.call n (.ident i) args) t

namespace Value

theorem hasTag_tag (x : Double) : (number x).hasTag x.tag = true := by
  unfold Double.tag
  split
  · rwa [hasTag_int, isSafeInteger]
  · split
    · rwa [hasTag_finite, isFinite]
    · rfl

theorem exists_number_of_hasTag {v : Value} {t : Tag} (ht : t.isNumeric = true)
    (h : v.hasTag t = true) : ∃ x, v = number x := by
  cases v with
  | number x => exact ⟨x, rfl⟩
  | _ => cases t <;> simp [Tag.isNumeric] at ht <;> simp [hasTag, isFinite, isSafeInteger] at h

theorem exists_bigint_of_hasTag {v : Value} (h : v.hasTag .bint = true) :
    ∃ digits, v = bigint digits := by
  cases v with
  | bigint digits => exact ⟨digits, rfl⟩
  | _ => simp [hasTag] at h

theorem exists_str_of_hasTag {v : Value} (h : v.hasTag .string = true) : ∃ s, v = str s := by
  cases v with
  | str s => exact ⟨s, rfl⟩
  | _ => simp [hasTag] at h

/-- Operators other than those of arithmetic, and the remainder, have no value. -/
theorem applyBinary_eq_none {op : BinaryOp} (hop : op.isArithmetic = false) (hmod : op ≠ .mod)
    (l r : Value) : applyBinary op l r = none := by
  unfold applyBinary
  split
  · cases op <;> simp_all [BinaryOp.isArithmetic, BigInt.combine]
  · split
    · rfl
    · cases op <;> simp_all [BinaryOp.isArithmetic, applyNumeric]

/-- Operands that are not converted give a value of the type of the result. -/
theorem hasTag_applyBinary {op : BinaryOp} {t u w : Tag} (h : op.Takes t u w) {a b v : Value}
    (ha : a.hasTag t = true) (hb : b.hasTag u = true) (hv : applyBinary op a b = some v) :
    v.hasTag w = true := by
  cases h with
  | texts =>
    obtain ⟨s, rfl⟩ := exists_str_of_hasTag ha
    obtain ⟨s', rfl⟩ := exists_str_of_hasTag hb
    obtain rfl := Option.some.inj hv
    rfl
  | integers _ =>
    obtain ⟨m, rfl⟩ := exists_bigint_of_hasTag ha
    obtain ⟨n, rfl⟩ := exists_bigint_of_hasTag hb
    simp only [applyBinary, Option.bind_eq_bind, Option.bind_eq_some_iff] at hv
    obtain ⟨m, -, n, -, k, -, hk⟩ := hv
    obtain rfl := Option.some.inj hk
    rfl
  | numbers _ ht hu =>
    obtain ⟨x, rfl⟩ := exists_number_of_hasTag ht ha
    obtain ⟨y, rfl⟩ := exists_number_of_hasTag hu hb
    have hv : applyNumeric op (number x) (number y) = some v := hv
    cases op <;> simp [applyNumeric, joinsText] at hv <;> subst hv <;> rfl

theorem hasTag_toBigInt {v w : Value} (h : v.toBigInt = some w) : w.hasTag .bint = true := by
  cases v with
  | bigint digits | bool b =>
    obtain rfl := Option.some.inj h
    rfl
  | number x =>
    simp only [toBigInt] at h
    split at h
    · obtain rfl := Option.some.inj h
      rfl
    · cases h
  | str s =>
    simp only [toBigInt, Option.bind_eq_bind, Option.bind_eq_some_iff] at h
    obtain ⟨n, -, hn⟩ := h
    obtain rfl := Option.some.inj hn
    rfl
  | _ => simp [toBigInt] at h

theorem applyNamed_eq_none {name : String} (h : nativeResult? name = none) (args : List Value) :
    applyNamed name args = none := by
  unfold applyNamed
  split
  iterate 7 simp [nativeResult?] at h
  · rfl

/-- A conversion gives what its name says. -/
theorem hasTag_applyNamed {name : String} {args : List Value} {v : Value} {t : Tag}
    (ht : nativeResult? name = some t) (h : applyNamed name args = some v) : v.hasTag t = true := by
  unfold applyNamed at h
  split at h
  iterate 6
    obtain rfl := Option.some.inj h
    obtain rfl : _ = t := Option.some.inj ht
    rfl
  · obtain rfl : _ = t := Option.some.inj ht
    exact hasTag_toBigInt h
  · cases h

end Value

open Value

/-- The last of the values is that of the last part. -/
theorem Expr.eval_of_getLast? {parts : List Expr} {e : Expr} {vs : List Value}
    (he : parts.getLast? = some e) (hvs : Expr.evalList parts = some vs) :
    e.eval = some (vs.getLastD .undefined) := by
  induction parts generalizing vs with
  | nil => simp at he
  | cons x parts ih =>
    simp only [Expr.evalList, Option.bind_eq_bind, Option.bind_eq_some_iff] at hvs
    obtain ⟨v, hv, rest, hrest, hcons⟩ := hvs
    obtain rfl := Option.some.inj hcons
    cases parts with
    | nil =>
      obtain rfl : x = e := by simpa using he
      obtain rfl : [] = rest := by simpa [Expr.evalList] using hrest
      simpa using hv
    | cons y parts =>
      have hlast := ih (by simpa using he) hrest
      cases rest with
      | nil => simp [Expr.evalList, Option.bind_eq_some_iff] at hrest
      | cons w rest => simpa using hlast

theorem Expr.eval_unary_eq_some_iff {n : Node} {op : UnaryOp} {e : Expr} {v : Value} :
    (Expr.unary n op e).eval = some v ↔ ∃ w, e.eval = some w ∧ applyUnary op w = some v := by
  simp only [Expr.eval, Option.bind_eq_bind, Option.bind_eq_some_iff]

theorem Expr.eval_binary_eq_some_iff {n : Node} {op : BinaryOp} {l r : Expr} {v : Value} :
    (Expr.binary n op l r).eval = some v ↔
      ∃ a, l.eval = some a ∧ ∃ b, r.eval = some b ∧ applyBinary op a b = some v := by
  simp only [Expr.eval, Option.bind_eq_bind, Option.bind_eq_some_iff]

/-- Evaluation respects the types. -/
theorem Expr.Types.hasTag {e : Expr} {t : Tag} (h : e.Types t) {v : Value}
    (hv : e.eval = some v) : v.hasTag t = true := by
  induction h generalizing v with
  | noValue h => simp [h] at hv
  | number n x =>
    obtain rfl := Option.some.inj hv
    exact hasTag_tag x
  | bigint | str | bool | null | regex | function =>
    obtain rfl := Option.some.inj hv
    rfl
  | template n t =>
    obtain ⟨pos, quasis, parts⟩ := t
    simp only [Expr.eval, Option.bind_eq_bind, Option.bind_eq_some_iff] at hv
    obtain ⟨vs, -, hvs⟩ := hv
    obtain rfl := Option.some.inj hvs
    rfl
  | array n es =>
    simp only [Expr.eval, Option.bind_eq_bind, Option.bind_eq_some_iff] at hv
    obtain ⟨items, -, hitems⟩ := hv
    obtain rfl := Option.some.inj hitems
    rfl
  | object n ps =>
    simp only [Expr.eval, Option.bind_eq_bind, Option.bind_eq_some_iff] at hv
    obtain ⟨entries, -, hentries⟩ := hv
    obtain rfl := Option.some.inj hentries
    rfl
  | @global i t h =>
    simp only [Expr.eval, ofConstantName] at hv
    split at hv
    iterate 3
      rename_i hname
      rw [hname] at h
      obtain rfl := Option.some.inj hv
      obtain rfl : _ = t := Option.some.inj h
      rfl
    · cases hv
  | minus ht _ ih =>
    obtain ⟨w, hw, hv⟩ := Expr.eval_unary_eq_some_iff.1 hv
    obtain ⟨x, rfl⟩ := exists_number_of_hasTag ht (ih hw)
    obtain rfl := Option.some.inj hv
    rfl
  | plus | bitNot =>
    obtain ⟨w, -, hv⟩ := Expr.eval_unary_eq_some_iff.1 hv
    simp only [applyUnary] at hv
    split at hv
    · cases hv
    · obtain rfl := Option.some.inj hv
      rfl
  | not | typeof | void =>
    obtain ⟨w, -, hv⟩ := Expr.eval_unary_eq_some_iff.1 hv
    obtain rfl := Option.some.inj hv
    rfl
  | binary h _ _ ihl ihr =>
    obtain ⟨a, ha, b, hb, hv⟩ := Expr.eval_binary_eq_some_iff.1 hv
    exact hasTag_applyBinary h (ihl ha) (ihr hb) hv
  | @logical n op l r t _ _ ihl ihr =>
    cases op <;>
      simp only [Expr.eval, Option.bind_eq_bind, Option.bind_eq_some_iff] at hv
    all_goals
      obtain ⟨w, hw, hv⟩ := hv
      split at hv
    · exact ihr hv
    · exact ihl (hw.trans hv)
    · exact ihl (hw.trans hv)
    · exact ihr hv
  | conditional _ _ ihc iha =>
    simp only [Expr.eval, Option.bind_eq_bind, Option.bind_eq_some_iff] at hv
    obtain ⟨w, -, hv⟩ := hv
    split at hv
    · exact ihc hv
    · exact iha hv
  | sequence hlast _ ih =>
    simp only [Expr.eval, Option.bind_eq_bind, Option.bind_eq_some_iff] at hv
    obtain ⟨vs, hvs, hv⟩ := hv
    obtain rfl := Option.some.inj hv
    exact ih (Expr.eval_of_getLast? hlast hvs)
  | native h =>
    simp only [Expr.eval, Expr.asIdent?, Option.bind_eq_bind, Option.bind_some,
      Option.bind_eq_some_iff] at hv
    obtain ⟨vs, -, hv⟩ := hv
    exact hasTag_applyNamed h hv

end TagCheck
