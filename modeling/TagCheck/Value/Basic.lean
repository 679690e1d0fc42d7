import TagCheck.Double.Text
import TagCheck.Tag

/-! The values that constant expressions have, and their text, truth and number. -/
namespace TagCheck

inductive Value where
  | undefined
  | null
  | bool (b : Bool)
  | number (x : Double)
  /-- Decimal digits, behind a minus sign if the number is negative. -/
  | bigint (digits : String)
  | str (s : String)
  | symbol (description : Option String)
  | array (items : List Value)
  | object (entries : List (String × Value))
  | function (name : Option String)
  | regex (pattern flags : String)
  deriving Repr, Inhabited

namespace Value

/-- What `typeof` says of a value. -/
def kind : Value → String
  | undefined => "undefined"
  | null | array _ | object _ | regex _ _ => "object"
  | bool _ => "boolean"
  | number _ => "number"
  | bigint _ => "bigint"
  | str _ => "string"
  | symbol _ => "symbol"
  | function _ => "function"

def isObject : Value → Bool
  | array _ | object _ | regex _ _ => true
  | _ => false

def isFinite : Value → Bool
  | number x => x.isFinite
  | _ => false

def isSafeInteger : Value → Bool
  | number x => x.isSafeInteger
  | _ => false

def truthy : Value → Bool
  | undefined | null => false
  | bool b => b
  | number x => !x.isZero && !x.isNaN
  | bigint digits => digits.toList.dropWhile (· == '-') != ['0']
  | str s => !s.isEmpty
  | _ => true

mutual

def text : Value → String
  | undefined => "undefined"
  | null => "null"
  | bool b => if b then "true" else "false"
  | number x => x.text
  | bigint digits => digits
  | str s => s
  | symbol description => "Symbol(" ++ description.getD "" ++ ")"
  | array items => ",".intercalate (itemTexts items)
  | object _ => "[object Object]"
  | function name => "function " ++ name.getD "" ++ "() \x7b [code] \x7d"
  | regex pattern flags => "/" ++ pattern ++ "/" ++ flags

/-- The texts of the items of an array. Nothing is written for the two empty values. -/
def itemTexts : List Value → List String
  | [] => []
  | .undefined :: vs | .null :: vs => "" :: itemTexts vs
  | v :: vs => v.text :: itemTexts vs

end

/-- The strings of a template with the texts of values between them. -/
def joinTemplate : List String → List Value → String
  | [], _ => ""
  | s :: ss, [] => s ++ joinTemplate ss []
  | s :: ss, v :: vs => s ++ v.text ++ joinTemplate ss vs

/-- Arrays count as their text, and other objects as no number. -/
def toDouble : Value → Double
  | null => .zero false
  | bool b => .ofInt (if b then 1 else 0)
  | number x => x
  | str s => .ofText s
  | array items => .ofText (array items).text
  | _ => .nan

/-- Whether a value is of a type, as it stands. -/
def hasTag : Value → Tag → Bool
  | _, .any => true
  | .undefined, .undef => true
  | .null, .nul => true
  | .str _, .string => true
  | .bool _, .bool => true
  | .number _, .number => true
  | v, .finite => v.isFinite
  | v, .int => v.isSafeInteger
  | .bigint _, .bint => true
  | .symbol _, .symb => true
  | .array _, .array => true
  | v, .object => v.isObject
  | .function _, .func => true
  | .regex _ _, .regex => true
  | _, _ => false

end Value
end TagCheck
