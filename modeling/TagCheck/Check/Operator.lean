import TagCheck.Check.State

/-! Operators and conditions. -/
namespace TagCheck
namespace Check

/-- Reports a condition that is not `bool`. -/
def condition (code : Code) (label : String) (n : Node) : Check Unit := do
  let found ← tagOf (.node n.id)
  if found != .bool then unexpected code label found Tag.bool.name n.pos

def checkNumericOperand (op : String) (argument : Node) : Check Unit := do
  let found ← tagOf (.node argument.id)
  unless found.isNumberLike do
    unexpected .unaryNumericType ("Unary `" ++ op ++ "` operation, unexpected operand type") found
      Tag.number.name argument.pos

def unary (n : NodeId) (op : UnaryOp) (argument : Node) : Check Unit := do
  match op with
  | .void => markType (.node n) (.inferred .undef)
  | .typeof => markType (.node n) (.inferred .string)
  | .not | .delete => markType (.node n) (.inferred .bool)
  | .plus | .minus | .bitNot =>
    markType (.node n) (.inferred .number)
    checkNumericOperand op.text argument

def update (n : NodeId) (op : UpdateOp) (argument : Node) : Check Unit := do
  if let some ty ← ty? (.node argument.id) then
    markType (.node n) (if ty.tag.isNumberLike then ty else .inferred .number)
  checkNumericOperand op.text argument

/-- Reports each operand whose type is not accepted. -/
def rejectOperands (code : Code) (label expected : String) (accepts : Tag → Bool)
    (operands : List (Node × Tag)) : Check Unit :=
  operands.forM fun (n, t) => unless accepts t do unexpected code label t expected n.pos

def binaryLabel (op : BinaryOp) (what : String) : String :=
  "Binary `" ++ op.text ++ "` operation, " ++ what

def modulus (n left right : Node) (l r : Ty) : Check Unit := do
  let bothTagged := l.tag == .int && r.tag == .int && l.isTagged && r.isTagged
  markType (.node n.id) (.derived .int bothTagged)
  if l.tag.isNumeric && r.tag.isNumeric then return
  else if l.tag.agrees r.tag then
    unexpected .modulusBothTypes (binaryLabel .mod "operand types unexpected") l.tag
      Tag.number.name n.pos
  else
    rejectOperands .modulusType (binaryLabel .mod "unexpected operand type") Tag.number.name
      Tag.isNumeric [(left, l.tag), (right, r.tag)]

def arithmetic (n : Node) (op : BinaryOp) (left right : Node) : Check Unit := do
  let l ← tyOf left.id
  let r ← tyOf right.id
  let tagged := l.isTagged || r.isTagged
  if l.tag == .bint && r.tag == .bint then markType (.node n.id) (.derived .bint tagged)
  else if op == .mod then modulus n left right l r
  else if l.tag.isNumeric && r.tag.isNumeric then markType (.node n.id) (.derived .number tagged)
  else
    markType (.node n.id) (.inferred .number)
    rejectOperands .binaryNumericType (binaryLabel op "unexpected operand type") Tag.number.name
      Tag.isNumeric [(left, l.tag), (right, r.tag)]

/-- An addition with a string joins texts. -/
def addition (n left right : Node) : Check Unit := do
  let l ← tyOf left.id
  let r ← tyOf right.id
  if l.tag != .string && r.tag != .string then arithmetic n .add left right
  else if l.tag == r.tag then
    markType (.node n.id) (.derived .string (l.isTagged || r.isTagged))
  else
    markType (.node n.id) (.inferred .string)
    error .binaryPlusMixedTypes (typeMismatch (binaryLabel .add "mixed operand types") r.tag l.tag)
      n.pos

def isComparable : Tag → Bool
  | .string | .number | .finite | .int | .bint => true
  | _ => false

def relational (n : Node) (op : BinaryOp) (left right : Node) : Check Unit := do
  let l ← tagOf (.node left.id)
  let r ← tagOf (.node right.id)
  markType (.node n.id) (.inferred .bool)
  if l.agrees r then
    unless isComparable l do
      unexpected .relationalBothTypes (binaryLabel op "operand types unexpected") l "number|string"
        n.pos
  else if isComparable l && isComparable r then
    if l == .string || r == .string then
      error .relationalMixedTypes (typeMismatch (binaryLabel op "mixed operand types") r l) n.pos
  else
    rejectOperands .relationalType (binaryLabel op "unexpected operand type") "number|string"
      isComparable [(left, l), (right, r)]

/-- Values of the two types can be compared without conversion. -/
def comparesAlike (l r : Tag) : Bool := l.agrees r || (l.isNumberLike && r.isNumberLike)

def looseEquality (n : Node) (op : BinaryOp) (left right : Node) : Check Unit := do
  let l ← tagOf (.node left.id)
  let r ← tagOf (.node right.id)
  markType (.node n.id) (.inferred .bool)
  let unknown := "Coercive Equality `" ++ op.text ++ "` operation, unknown operand type"
  match l.isKnown, r.isKnown with
  | false, false => error .looseEqualityUnknownType (unknown ++ "s") n.pos
  | false, true => error .looseEqualityUnknownType unknown left.pos
  | true, false => error .looseEqualityUnknownType unknown right.pos
  | true, true =>
    unless comparesAlike l r do
      let label := "Equality `" ++ op.text ++ "` operation, mixed operand types"
      error .looseEqualityMixedTypes (typeMismatch label r l) n.pos

def strictEquality (env : CheckEnv) (n : Node) (op : BinaryOp) (left right : Node) :
    Check Unit := do
  let l ← tagOf (.node left.id)
  let r ← tagOf (.node right.id)
  markType (.node n.id) (.inferred .bool)
  if l.isKnown && r.isKnown then
    let label := "Strict equality `" ++ op.text ++ "`, known "
    if comparesAlike l r then
      report env.strictEquality .strictEqualityKnownMatchingTypes
        (unexpectedType (label ++ "matching operand types") l none) n.pos
    else
      error .strictEqualityKnownMixedTypes (typeMismatch (label ++ "mixed operand types") r l) n.pos

def membership (n left right : Node) : Check Unit := do
  let l ← tagOf (.node left.id)
  let r ← tagOf (.node right.id)
  markType (.node n.id) (.inferred .bool)
  let label := "`in` operation, unexpected operand type"
  unless l == .string || l == .number || l == .symb do
    unexpected .inOpType label l "string|number|symb" left.pos
  if r != .object then unexpected .inOpType label r Tag.object.name right.pos

def instanceOf (n left right : Node) : Check Unit := do
  let l ← tagOf (.node left.id)
  let r ← tagOf (.node right.id)
  markType (.node n.id) (.inferred .bool)
  let label := "`instanceof` operation, unexpected operand type"
  if l != .object then unexpected .instanceofOpType label l Tag.object.name left.pos
  if r != .func then unexpected .instanceofOpType label r Tag.func.name right.pos

def binary (env : CheckEnv) (n : Node) (op : BinaryOp) (left right : Node) : Check Unit :=
  match op with
  | .add => addition n left right
  | .sub | .mul | .div | .mod | .bitAnd | .bitOr | .bitXor | .shl | .shr | .ushr =>
    arithmetic n op left right
  | .lt | .le | .gt | .ge => relational n op left right
  | .eq | .notEq => looseEquality n op left right
  | .strictEq | .strictNotEq => strictEquality env n op left right
  | .in_ => membership n left right
  | .instanceof => instanceOf n left right

/-- A value that is one of two of the same type is of that type. If they differ, nothing is known
of it. -/
def select (n a b : NodeId) : Check Unit := do
  let l ← tyOf a
  let r ← tyOf b
  if l.tag.agrees r.tag then
    markType (.node n) (.derived l.tag (l.isTagged || r.isTagged))

/-- A node is of the type of another, if that has one. -/
def inherit (n source : NodeId) : Check Unit := do
  if let some ty ← ty? (.node source) then markType (.node n) ty

end Check
end TagCheck
