import TagCheck.Program.Grammar
import TagCheck.Value.Basic
import TagCheck.Value.BigInt

/-! The values of constant expressions. An expression that refers to anything outside itself has
none. -/
namespace TagCheck
namespace Value

/-- The low 32 bits of the integer part, which is first brought into 64 bits, with their sign. -/
def toInt32 (x : Double) : Int :=
  let bound : Int := Nat.pow 2 63
  if x.isFinite then (max (-bound) (min (bound - 1) x.trunc)).bmod (Nat.pow 2 32) else 0

def isBigIntOrSymbol : Value → Bool
  | bigint _ | symbol _ => true
  | _ => false

def applyUnary : UnaryOp → Value → Option Value
  | .minus, .bigint digits => some (.bigint (BigInt.negate digits))
  | .plus, v => if v.isBigIntOrSymbol then none else some (.number v.toDouble)
  | .minus, v => if v.isBigIntOrSymbol then none else some (.number v.toDouble.neg)
  | .bitNot, v =>
    if v.isBigIntOrSymbol then none else some (.number (.ofInt (-toInt32 v.toDouble - 1)))
  | .not, v => some (.bool !v.truthy)
  | .typeof, v => some (.str v.kind)
  | .void, _ => some .undefined
  | .delete, _ => none

/-- Whether adding to the value joins texts. -/
def joinsText : Value → Bool
  | str _ | array _ | object _ => true
  | _ => false

def applyNumeric : BinaryOp → Value → Value → Option Value
  | .add, l, r =>
    if l.joinsText || r.joinsText then some (.str (l.text ++ r.text))
    else some (.number (l.toDouble.add r.toDouble))
  | .sub, l, r => some (.number (l.toDouble.sub r.toDouble))
  | .mul, l, r => some (.number (l.toDouble.mul r.toDouble))
  | .div, l, r => some (.number (l.toDouble.div r.toDouble))
  | .mod, l, r => some (.number (l.toDouble.rem r.toDouble))
  | _, _, _ => none

def applyBinary (op : BinaryOp) : Value → Value → Option Value
  | .bigint a, .bigint b => do
    let m ← BigInt.ofDigits? a.toList
    let n ← BigInt.ofDigits? b.toList
    return .bigint (toString (← BigInt.combine op m n))
  | l, r => if l.isBigIntOrSymbol || r.isBigIntOrSymbol then none else applyNumeric op l r

def toBigInt : Value → Option Value
  | .bigint digits => some (.bigint digits)
  | .number x =>
    if x.isIntegral then some (.bigint (toString (BigInt.clamp x.trunc))) else none
  | .str s => do
    let n ← BigInt.ofDigits? (Text.trimChars s.toList)
    return .bigint (toString n)
  | .bool b => some (.bigint (if b then "1" else "0"))
  | _ => none

/-- The conversions that a program can call by name. They look at their first argument only. -/
def applyNamed (name : String) (args : List Value) : Option Value :=
  match name, args.head? with
  | "Symbol", none | "Symbol", some .undefined => some (.symbol none)
  | "Symbol", some v => some (.symbol (some v.text))
  | "String", v => some (.str ((v.map text).getD ""))
  | "Number", v => some (.number ((v.map toDouble).getD (.zero false)))
  | "Boolean", v => some (.bool (v.any truthy))
  | "BigInt", some v => v.toBigInt
  | _, _ => none

/-- Sets an entry, in its old place if the key has one. -/
def setEntry (key : String) (value : Value) : List (String × Value) → List (String × Value)
  | [] => [(key, value)]
  | (k, v) :: rest => if k == key then (k, value) :: rest else (k, v) :: setEntry key value rest

def setEntries (entries new : List (String × Value)) : List (String × Value) :=
  new.foldl (fun acc e => setEntry e.1 e.2 acc) entries

/-- What spreading a value in an array gives. -/
def spreadItems : Value → Option (List Value)
  | .array items => some items
  | .str s => some (s.toList.map fun c => .str c.toString)
  | _ => none

/-- What spreading a value in an object gives. -/
def spreadEntries : Value → Option (List (String × Value))
  | .object entries => some entries
  | .undefined | .null => some []
  | _ => none

def ofConstantName : String → Option Value
  | "undefined" => some .undefined
  | "NaN" => some (.number .nan)
  | "Infinity" => some (.number (.infinity false))
  | _ => none

end Value

open Value

mutual

def Expr.eval : Expr → Option Value
  | .number _ x => some (.number x)
  | .bigint _ digits => some (.bigint digits)
  | .str _ s => some (.str s)
  | .bool _ b => some (.bool b)
  | .null _ => some .null
  | .regex _ pattern flags => some (.regex pattern flags)
  | .template _ ⟨_, quasis, parts⟩ => do
    return .str (joinTemplate (quasis.map (·.cooked)) (← Expr.evalList parts))
  | .ident i => ofConstantName i.name
  | .array _ elements => do return .array (← Element.evalItems elements)
  | .object _ props => do return .object (← Property.evalEntries [] props)
  | .function f => some (.function (f.name.map (·.name)))
  | .unary _ op e => do applyUnary op (← e.eval)
  | .binary _ op l r => do applyBinary op (← l.eval) (← r.eval)
  | .logical _ .and l r => do
    let v ← l.eval
    if v.truthy then r.eval else return v
  | .logical _ .or l r => do
    let v ← l.eval
    if v.truthy then return v else r.eval
  | .conditional _ t c a => do
    let v ← t.eval
    if v.truthy then c.eval else a.eval
  | .sequence _ parts => do return (← Expr.evalList parts).getLastD .undefined
  | .call _ callee args => do
    let i ← callee.asIdent?
    applyNamed i.name (← Element.evalArguments args)
  | .this _ | .tagged .. | .update .. | .assign .. | .assignMember .. | .new .. | .member .. => none

def Expr.evalList : List Expr → Option (List Value)
  | [] => some []
  | e :: es => do
    let v ← e.eval
    return v :: (← Expr.evalList es)

def Element.evalItems : List Element → Option (List Value)
  | [] => some []
  | .hole :: es => do return .undefined :: (← Element.evalItems es)
  | .item e :: es => do
    let v ← e.eval
    return v :: (← Element.evalItems es)
  | .spread _ e :: es => do
    let v ← e.eval
    return (← v.spreadItems) ++ (← Element.evalItems es)

def Element.evalArguments : List Element → Option (List Value)
  | [] => some []
  | .item e :: es => do
    let v ← e.eval
    return v :: (← Element.evalArguments es)
  | .hole :: _ | .spread _ _ :: _ => none

def Property.evalEntries (entries : List (String × Value)) :
    List Property → Option (List (String × Value))
  | [] => some entries
  | .keyValue k v _ :: ps => do
    let key ← k.eval
    let value ← v.eval
    Property.evalEntries (setEntry key value entries) ps
  | .method k f :: ps => do
    let key ← k.eval
    Property.evalEntries (setEntry key (.function (f.name.map (·.name))) entries) ps
  | .spread _ e :: ps => do
    let v ← e.eval
    Property.evalEntries (setEntries entries (← v.spreadEntries)) ps

def Key.eval : Key → Option String
  | .name s => some s
  | .computed e => do return (← e.eval).text

end

/-- The value of a text that is a constant expression. -/
def Value.ofConstant? (s : String) : Option Value :=
  match Expr.ofSource (Text.trim s) with
  | .ok e => e.eval
  | .error _ => none

end TagCheck
