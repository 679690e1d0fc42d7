/-! The type tags, when a value of one type may stand for another, and the types that the checker
attaches to program parts. -/
namespace TagCheck

/-- The type tags, and `unknown` for a type that could not be determined. -/
inductive Tag where
  | any | undef | nul | string | bool | number | finite | int | bint | symb | array | object | func
  | regex | unknown
  deriving DecidableEq, Repr, Inhabited

namespace Tag

/-- The tags that a program can name. -/
def recognized : List Tag :=
  [any, undef, nul, string, bool, number, finite, int, bint, symb, array, object, func, regex]

def name : Tag → String
  | any => "any" | undef => "undef" | nul => "nul" | string => "string" | bool => "bool"
  | number => "number" | finite => "finite" | int => "int" | bint => "bint" | symb => "symb"
  | array => "array" | object => "object" | func => "func" | regex => "regex"
  | unknown => "unknown"

def ofName? (s : String) : Option Tag := recognized.find? fun t => t.name == s

def isKnown (t : Tag) : Bool := t != unknown

def isNumeric : Tag → Bool
  | number | finite | int => true
  | _ => false

/-- The numeric tags and `bint`. -/
def isNumberLike (t : Tag) : Bool := t.isNumeric || t == bint

/-- Whether a value of the first tag may be used where the second is expected. Nothing is known
of `unknown`, so it fits nowhere and nothing fits it. -/
def fits (source target : Tag) : Bool :=
  source.isKnown && target.isKnown &&
    (source == target ||
      match target with
      | any => true
      | number => source == int || source == finite
      | finite => source == int
      | bint => source == int
      | _ => false)

/-- Two equal tags, neither of them `unknown`. -/
def agrees (a b : Tag) : Bool := a.isKnown && b.isKnown && a == b

end Tag

/-- Whether a type was written as a tag or derived by the checker. -/
inductive Origin where
  | tagged | inferred
  deriving DecidableEq, Repr, Inhabited

def Origin.label : Origin → String
  | tagged => "tagged"
  | inferred => "inferred"

/-- The type of a node, a binding or a slot of a function shape. -/
structure Ty where
  tag : Tag
  origin : Origin
  isRest : Bool
  deriving DecidableEq, Repr, Inhabited

namespace Ty

def tagged (t : Tag) : Ty := ⟨t, .tagged, false⟩

def inferred (t : Tag) : Ty := ⟨t, .inferred, false⟩

def unknown : Ty := inferred .unknown

def rest (ty : Ty) : Ty := { ty with isRest := true }

def isTagged (ty : Ty) : Bool := ty.origin == .tagged

def isKnown (ty : Ty) : Bool := ty.tag.isKnown

/-- A tag that was written if one of its sources was, derived otherwise. -/
def derived (t : Tag) (tagged : Bool) : Ty := if tagged then .tagged t else .inferred t

end Ty
end TagCheck
