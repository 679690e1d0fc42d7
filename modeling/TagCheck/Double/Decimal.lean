import TagCheck.Double.Basic

/-! Decimals against binary64 numbers: the number a decimal rounds to, and the shortest decimal
that rounds to a given number. -/
namespace TagCheck

/-- The number `digits * 10 ^ exponent`. -/
structure Decimal where
  digits : Nat
  exponent : Int
  deriving DecidableEq, Repr, Inhabited

namespace Decimal

/-- The place of the magnitude nearest to a decimal. -/
def index (d : Decimal) : Nat :=
  if 0 ≤ d.exponent then Double.nearest (d.digits * Nat.pow 10 d.exponent.toNat * Double.one) 1
  else Double.nearest (d.digits * Double.one) (Nat.pow 10 (-d.exponent).toNat)

/-- The count of decimal digits of a positive number. -/
def digitCount (n : Nat) : Nat := (Nat.toDigits 10 n).length

/-- Reads a decimal. One of a magnitude from 10^400 on is infinite and one below 10^-400 is zero
whatever its digits are, and their powers of ten are not formed. -/
def toDouble (negative : Bool) (d : Decimal) : Double :=
  let magnitude := d.exponent + digitCount d.digits
  if d.digits = 0 || magnitude < -400 then .zero negative
  else if 400 < magnitude then .infinity negative
  else .ofIndex negative d.index

/-- The decimal with the exact value of the magnitude at place `m`. -/
def exact (m : Nat) : Decimal := ⟨Double.unitsAt m * Nat.pow 5 1074, -1074⟩

/-- The exponent `p` for which the magnitude at a place `m > 0` lies in `[10 ^ (p - 1), 10 ^ p)`. -/
def magnitudeAt (m : Nat) : Int :=
  digitCount (Double.unitsAt m * Nat.pow 10 324 / Double.one) - 324

/-- The two neighbours of the magnitude at `m` among the multiples of `10 ^ e`, the nearer first;
half way between them the upper one comes first. -/
def neighbours (m : Nat) (e : Int) : List Decimal :=
  let num := Double.unitsAt m * Nat.pow 10 (-e).toNat
  let den := Double.one * Nat.pow 10 e.toNat
  let low := num / den
  if 2 * (num % den) < den then [⟨low, e⟩, ⟨low + 1, e⟩] else [⟨low + 1, e⟩, ⟨low, e⟩]

/-- The decimal of fewest digits, up to seventeen, that rounds to place `m`, and the nearest one
of these. -/
def shortest (m : Nat) : Decimal :=
  let p := magnitudeAt m
  let candidates := (List.range 17).flatMap fun (k : Nat) => neighbours m (p - (k + 1))
  (candidates.find? fun d => d.index = m).getD (exact m)

end Decimal
end TagCheck
