import TagCheck.Check.ArrayLiteral
import TagCheck.Check.Visit
import TagCheck.Value.Validate

/-! Templates behind a type tag. -/
namespace TagCheck
namespace Check

/-- The text of the template describes the shape of its value, and of that of the template whose
tag it is. -/
def annotate (n : Node) (text : String) (outer : Option NodeId) : Check Unit := do
  match Descriptor.parse text with
  | .ok shape =>
    if let some m := outer then markShape (.node m) (some (.array shape))
    markShape (.node n.id) (some (.array shape))
  | .error e => error .taggedLiteralShape ("(Type-Tag) " ++ e.message) n.pos

/-- Checks a value inside a tagged template. -/
def interpolated (tag : Tag) (label : String) (shape : Option ArrayShape) (value : Expr) :
    Check Unit := do
  let found ← tagOf (.node value.id)
  if !found.fits tag then
    unexpected .taggedExprType "(Type-Tag)" found label value.pos
  else if let some shape := shape then
    let store ← getStore
    let ok := match value with
      | .object _ _ => true
      | value => store.valueFits shape value
    unless ok do
      mismatched .taggedExprShape "(Type-Tag) Shape mismatch" (some (.array shape))
        (store.shape? (.node value.id)) value.pos

/-- Checks what stands in a tagged template against its tag and shape. -/
def contents (n : Node) (tag : Tag) (label : String) (quasi : Template)
    (shape : Option ArrayShape) : Check Unit := do
  match quasi.loneText? with
  | some text =>
    if let .error e := tag.validateLiteral text shape then
      error .taggedLiteralType ("(Type-Tag) " ++ e.message) n.pos
  | none =>
    let lone := quasi.parts.length == 1 && quasi.quasis.all fun q => Text.allBlank q.cooked
    if lone || tag == .string then
      quasi.parts.forM (interpolated tag label shape)
    else if tag != .any && tag != .regex then
      error .taggedInvalidLiteral "(Type-Tag) Invalid input" n.pos

/-- A chained template is checked only if its annotation gave it a shape. -/
def template (n : Node) (tag : Tag) (label : String) (quasi : Template) (chained : Bool) :
    Check Unit := do
  if chained then
    if let some shape := (← shape? (.node n.id)).bind Shape.asArray? then
      contents n tag label quasi (some shape)
  else
    contents n tag label quasi none

end Check
end TagCheck
