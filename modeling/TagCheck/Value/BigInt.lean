import TagCheck.Program.Basic
import TagCheck.Text.Basic

/-! Integers of the checked language, written as digits and computed in 128 bits with a sign. -/
namespace TagCheck
namespace BigInt

def least : Int := -(Nat.pow 2 127 : Int)

def greatest : Int := (Nat.pow 2 127 : Int) - 1

def inRange (n : Int) : Bool := least ≤ n && n ≤ greatest

/-- The number nearest to `n` in range. -/
def clamp (n : Int) : Int := max least (min greatest n)

def ofDigits? (cs : List Char) : Option Int := (Text.signedDecimal? cs).filter inRange

def negate (digits : String) : String :=
  match digits.toList with
  | '-' :: ds => String.ofList ds
  | ds => if ds == ['0'] then digits else "-" ++ digits

/-- Division drops the fraction, and the remainder has the sign of the dividend. There is no
result if the divisor is zero or the result, or the quotient that goes with a remainder, is out of
range. -/
def combine (op : BinaryOp) (a b : Int) : Option Int :=
  match op with
  | .add => checked (a + b)
  | .sub => checked (a - b)
  | .mul => checked (a * b)
  | .div => if b = 0 then none else checked (a.tdiv b)
  | .mod => if b = 0 then none else (checked (a.tdiv b)).map fun _ => a.tmod b
  | _ => none
where
  checked (n : Int) : Option Int := if inRange n then some n else none

end BigInt
end TagCheck
