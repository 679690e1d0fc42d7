/-! IEEE 754 binary64 numbers. A finite one is a whole number of units of 2^-1074, so that sums,
products, quotients and remainders are integer computations followed by one rounding. -/
namespace TagCheck

structure Double where
  bits : UInt64
  deriving DecidableEq, Repr, Inhabited

namespace Double

/-- The units in one. -/
def one : Nat := Nat.pow 2 1074

/-- The bits of positive infinity. Magnitudes below it are finite, those above are NaN. -/
def infinityIndex : Nat := 2047 * Nat.pow 2 52

def negative (x : Double) : Bool := Nat.pow 2 63 ≤ x.bits.toNat

/-- The bits without the sign: the place of the magnitude among all magnitudes. -/
def index (x : Double) : Nat := x.bits.toNat % Nat.pow 2 63

def isNaN (x : Double) : Bool := infinityIndex < x.index

def isInfinite (x : Double) : Bool := x.index == infinityIndex

def isFinite (x : Double) : Bool := x.index < infinityIndex

def isZero (x : Double) : Bool := x.index == 0

/-- The magnitude at a finite place, in units. -/
def unitsAt (m : Nat) : Nat :=
  if m < Nat.pow 2 52 then m
  else (Nat.pow 2 52 + m % Nat.pow 2 52) * Nat.pow 2 (m / Nat.pow 2 52 - 1)

def units (x : Double) : Nat := unitsAt x.index

def signedUnits (x : Double) : Int := if x.negative then -(x.units : Int) else x.units

/-- The place nearest to `num / den` units; a half goes to the even neighbour. It may lie beyond
that of infinity. -/
def nearest (num den : Nat) : Nat :=
  let e := (num / den).log2 - 52
  let d := den * Nat.pow 2 e
  let q := num / d
  let r := num % d
  e * Nat.pow 2 52 + if d < 2 * r ∨ (2 * r = d ∧ q % 2 = 1) then q + 1 else q

def ofIndex (negative : Bool) (m : Nat) : Double :=
  ⟨UInt64.ofNat ((if negative then Nat.pow 2 63 else 0) + min m infinityIndex)⟩

def round (negative : Bool) (num den : Nat) : Double := ofIndex negative (nearest num den)

def nan : Double := ⟨UInt64.ofNat (infinityIndex + Nat.pow 2 51)⟩

def infinity (negative : Bool) : Double := ofIndex negative infinityIndex

def zero (negative : Bool) : Double := ofIndex negative 0

def ofInt (n : Int) : Double := round (n < 0) (n.natAbs * one) 1

/-- A whole number: neither a fraction nor infinite nor NaN. -/
def isIntegral (x : Double) : Bool := x.isFinite && x.units % one == 0

/-- The whole part of a finite number, cut towards zero. -/
def trunc (x : Double) : Int := x.signedUnits.tdiv one

def maxSafeInteger : Nat := Nat.pow 2 53 - 1

def isSafeInteger (x : Double) : Bool := x.isIntegral && x.units / one ≤ maxSafeInteger

def neg (x : Double) : Double :=
  if x.isNaN then nan else ofIndex (!x.negative) x.index

def add (x y : Double) : Double :=
  if x.isNaN || y.isNaN then nan
  else if x.isInfinite then
    if y.isInfinite && x.negative != y.negative then nan else x
  else if y.isInfinite then y
  else
    let sum := x.signedUnits + y.signedUnits
    if sum = 0 then zero (x.negative && y.negative) else round (sum < 0) sum.natAbs 1

def sub (x y : Double) : Double := add x (neg y)

def mul (x y : Double) : Double :=
  let sign := x.negative != y.negative
  if x.isNaN || y.isNaN then nan
  else if x.isInfinite || y.isInfinite then
    if x.isZero || y.isZero then nan else infinity sign
  else round sign (x.units * y.units) one

def div (x y : Double) : Double :=
  let sign := x.negative != y.negative
  if x.isNaN || y.isNaN then nan
  else if x.isInfinite then if y.isInfinite then nan else infinity sign
  else if y.isInfinite then zero sign
  else if y.isZero then if x.isZero then nan else infinity sign
  else round sign (x.units * one) y.units

/-- The remainder of the quotient cut towards zero; it has the sign of the dividend. -/
def rem (x y : Double) : Double :=
  if x.isNaN || y.isNaN || x.isInfinite || y.isZero then nan
  else if y.isInfinite then x
  else round x.negative (x.units % y.units) 1

end Double
end TagCheck
