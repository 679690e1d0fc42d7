import TagCheck.Double.Decimal
import TagCheck.Text.Basic

/-! The text of numbers: numerals as programs print them, and text read as a number. -/
namespace TagCheck
namespace Decimal

/-- The significant digits of a decimal, without zeros at the end. -/
def significant (d : Decimal) : List Char :=
  let cs := (Nat.toDigits 10 d.digits).reverse.dropWhile (· == '0')
  cs.reverse

/-- The power of ten right of which the significant digits stand. -/
def point (d : Decimal) : Int := d.exponent + digitCount d.digits

/-- Positional notation. -/
def positional (cs : List Char) (point : Int) : List Char :=
  if point ≤ 0 then '0' :: '.' :: List.replicate (-point).toNat '0' ++ cs
  else if cs.length ≤ point then cs ++ List.replicate (point.toNat - cs.length) '0'
  else cs.take point.toNat ++ '.' :: cs.drop point.toNat

/-- Scientific notation, with the sign of the exponent always written. -/
def scientific (cs : List Char) (point : Int) : List Char :=
  let mantissa := match cs with
    | c :: d :: ds => c :: '.' :: d :: ds
    | cs => cs
  let e := point - 1
  mantissa ++ 'e' :: (if e < 0 then '-' else '+') :: Nat.toDigits 10 e.natAbs

/-- Magnitudes in `[1e-6, 1e21)` are positional. -/
def numeral (d : Decimal) : List Char :=
  if -5 ≤ d.point ∧ d.point ≤ 21 then positional d.significant d.point
  else scientific d.significant d.point

/-- Digits with an optional point among them and an optional exponent behind them; at least one
digit stands before the exponent. -/
def parse? (cs : List Char) : Option Decimal :=
  let whole := cs.takeWhile Char.isDigit
  let tail := cs.dropWhile Char.isDigit
  let (fraction, tail) := match tail with
    | '.' :: tail => (tail.takeWhile Char.isDigit, tail.dropWhile Char.isDigit)
    | tail => ([], tail)
  let digits := whole ++ fraction
  let shift : Option Int := match tail with
    | [] => some 0
    | c :: tail => if c == 'e' || c == 'E' then Text.signedDecimal? tail else none
  if digits.isEmpty then none
  else shift.map fun s => ⟨Text.natOfDigits 10 digits, s - fraction.length⟩

end Decimal

namespace Double

/-- The shortest numeral that reads back; zero has no sign. -/
def numeral (x : Double) : List Char :=
  if x.isNaN then "NaN".toList
  else
    let magnitude :=
      if x.isInfinite then "Infinity".toList
      else if x.isZero then ['0']
      else (Decimal.shortest x.index).numeral
    if x.negative && !x.isZero then '-' :: magnitude else magnitude

def text (x : Double) : String := String.ofList x.numeral

/-- A decimal numeral with an optional sign. -/
def ofNumeral? : List Char → Option Double
  | '-' :: cs => (Decimal.parse? cs).map (·.toDouble true)
  | '+' :: cs => (Decimal.parse? cs).map (·.toDouble false)
  | cs => (Decimal.parse? cs).map (·.toDouble false)

/-- Digits of a radix, read one by one in floating point. -/
def ofRadix (radix : Nat) (cs : List Char) : Double :=
  if cs.isEmpty || !cs.all (Text.isDigitOf radix) then nan
  else cs.foldl (fun x c =>
    (x.mul (ofInt radix)).add (ofInt ((Text.digitValue? radix c).getD 0))) (zero false)

/-- The characters of decimal numerals. -/
def isNumeric (c : Char) : Bool := c.isDigit || ['.', 'e', 'E', '+', '-'].contains c

/-- What is tried as a decimal numeral: numeric characters with a digit among them. -/
def isWellFormed (cs : List Char) : Bool := cs.any Char.isDigit && cs.all isNumeric

/-- Text as a number: blanks around it are ignored, the empty text is zero, a radix is announced
by `0x`, `0o` or `0b`, and text that is no numeral is NaN. -/
def ofChars (cs : List Char) : Double :=
  match Text.trimChars cs with
  | [] => zero false
  | '0' :: 'x' :: ds | '0' :: 'X' :: ds => ofRadix 16 ds
  | '0' :: 'o' :: ds | '0' :: 'O' :: ds => ofRadix 8 ds
  | '0' :: 'b' :: ds | '0' :: 'B' :: ds => ofRadix 2 ds
  | cs =>
    if cs = "Infinity".toList ∨ cs = "+Infinity".toList then infinity false
    else if cs = "-Infinity".toList then infinity true
    else if isWellFormed cs then (ofNumeral? cs).getD nan
    else nan

def ofText (s : String) : Double := ofChars s.toList

end Double
end TagCheck
