import TagCheck.Double.Text
import TagCheck.Toml.DateTime
import TagCheck.Toml.Reader

/-! Numbers, dates and times of TOML documents. -/
namespace TagCheck
namespace Toml
namespace Read

/-- Digits of a radix, which may have single underscores between them. -/
def digits (radix : Nat) : Read (List Char) := do
  let cs ← takeWhile fun c => c == '_' || Text.isDigitOf radix c
  let isGap (a b : Char) : Bool := a == '_' && b == '_'
  let gaps := (cs.zip (cs.drop 1)).any fun p => isGap p.1 p.2
  if cs.isEmpty || cs.head? == some '_' || cs.getLast? == some '_' || gaps then fail
  else return cs.filter (· != '_')

/-- Decimal digits, of which the first is zero only if it is the only one. -/
def decimal : Read (List Char) := do
  let cs ← digits 10
  if cs.length > 1 && cs.head? == some '0' then fail else return cs

/-- The sign that is next, if there is one. -/
def sign : Read (List Char) := do
  if ← accept "-" then return ['-']
  else if ← accept "+" then return ['+']
  else return []

def anyInteger : Read Int := do
  if ← accept "0x" then return Text.natOfDigits 16 (← digits 16)
  else if ← accept "0o" then return Text.natOfDigits 8 (← digits 8)
  else if ← accept "0b" then return Text.natOfDigits 2 (← digits 2)
  else
    let s ← sign
    let n := Text.natOfDigits 10 (← decimal)
    return if s == ['-'] then -(n : Int) else n

/-- An integer of 64 bits. -/
def integer : Read Int := do
  let n ← anyInteger
  if -(Nat.pow 2 63 : Int) ≤ n ∧ n < Nat.pow 2 63 then return n else fail

/-- A point and the digits behind it, if it is next. -/
def fraction : Read (List Char) := do
  if ← accept "." then return '.' :: (← digits 10) else return []

/-- The power of ten of a number, if it is next. -/
def power : Read (List Char) := do
  match ← peek with
  | some 'e' | some 'E' =>
    let _ ← next
    let s ← sign
    return 'e' :: s ++ (← digits 10)
  | _ => return []

/-- A number with a fraction or a power of ten. It must not be so large that it counts as positive
infinity, which has a name. -/
def numeral : Read Double := do
  let s ← sign
  let whole ← decimal
  let part ← fraction
  let scale ← power
  if part.isEmpty && scale.isEmpty then fail
  match Double.ofNumeral? (s ++ whole ++ part ++ scale) with
  | none => fail
  | some x => if x.isInfinite && !x.negative then fail else return x

/-- The numbers that have names. -/
def namedFloat : Read Double := do
  let s ← sign
  if ← accept "inf" then return .infinity (s == ['-'])
  else
    expect "nan"
    return .nan

def float : Read Double := numeral <|> namedFloat

/-- A number of exactly so many decimal digits. -/
def fixedDigits (count : Nat) : Read Nat := do
  let cs ← get
  let ds := cs.take count
  if ds.length == count && ds.all Char.isDigit then
    set (cs.drop count)
    return Text.natOfDigits 10 ds
  else
    fail

def date : Read Date := do
  let year ← fixedDigits 4
  expect "-"
  let month ← fixedDigits 2
  expect "-"
  let day ← fixedDigits 2
  let d : Date := ⟨year, month, day⟩
  if d.isValid then return d else fail

/-- The part of a second behind its point, if there is one. Digits beyond the ninth are dropped. -/
def nanoseconds : Read Nat := do
  if ← accept "." then
    let ds ← takeWhile Char.isDigit
    if ds.isEmpty then fail
    return Text.natOfDigits 10 ((ds ++ List.replicate 9 '0').take 9)
  else
    return 0

def time : Read Time := do
  let hour ← fixedDigits 2
  expect ":"
  let minute ← fixedDigits 2
  expect ":"
  let second ← fixedDigits 2
  let t : Time := ⟨hour, minute, second, ← nanoseconds⟩
  if t.isValid then return t else fail

def offset : Read (Option Offset) := do
  if ← accept "Z" then return some 0
  else if ← accept "z" then return some 0
  else
    let s ← sign
    if s.isEmpty then return none
    let hour ← fixedDigits 2
    expect ":"
    let minute ← fixedDigits 2
    let t : Time := ⟨hour, minute, 0, 0⟩
    if t.isValid then
      let n := hour * 60 + minute
      return some (if s == ['-'] then -(n : Int) else n)
    else
      fail

/-- The time behind a date, which a letter or a blank divides from it. -/
def timeOfDate (d : Date) : Read DateTime := do
  match ← next with
  | 'T' | 't' | ' ' =>
    let t ← time
    return .dateTime d t (← offset)
  | _ => fail

def dateTime : Read DateTime :=
  (do
    let d ← date
    timeOfDate d <|> return .date d) <|>
  DateTime.time <$> time

end Read
end Toml
end TagCheck
