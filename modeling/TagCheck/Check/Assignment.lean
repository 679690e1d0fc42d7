import TagCheck.Check.ArrayLiteral
import TagCheck.Check.Visit

/-! Assignments, declarations and identifiers. -/
namespace TagCheck

def Element.asItem? : Element → Option Expr
  | .item e => some e
  | _ => none

/-- The value of the first property of a name that is written out. -/
def Property.find? (name : String) : List Property → Option Expr
  | [] => none
  | .keyValue (.name k) value _ :: ps => if k == name then some value else Property.find? name ps
  | _ :: ps => Property.find? name ps

/-- The word for how a type came about. -/
def Ty.provenance (ty : Ty) : String := ty.origin.label ++ "-type"

namespace Check

/-- Types a binding unless it was typed in this pass. -/
def typeBinding (b : BindingId) (name : String) (ty : Ty) (pos : Position) : Check Unit := do
  unless (← getStore).hasTypeThisPass (.binding b) do
    markType (.binding b) ty
    let code := if ty.isTagged then Code.implyVarTagged else .implyVarInferred
    info code ("Implying " ++ name ++ " as " ++ ty.provenance ++ " '" ++ ty.tag.name ++ "'") pos

/-- The type of a binding that was `undef` in this pass gives way to another. -/
def reimply (b : BindingId) (i : Ident) (ty : Ty) : Check Unit := do
  put (.reimply b ty)
  let code := if ty.isTagged then Code.reimplyUndefTagged else .reimplyUndefInferred
  let word := if ty.isTagged then "with " else "to "
  info code ("Re-implying " ++ i.name ++ " " ++ word ++ ty.provenance ++ " '" ++ ty.tag.name ++ "'")
    i.node.pos

/-- A value assigned to a binding that has a shape is to be of it. -/
def checkAssignedShape (b : BindingId) (source : Node) (literal : Option (List Element)) :
    Check Unit := do
  let store ← getStore
  match store.shape? (.binding b) with
  | none => return
  | some target =>
    let found := store.shape? (.node source.id)
    let ok := match literal, target with
      | some es, .array shape => shape.admits store es
      | _, _ => store.arena.fits found (some target)
    unless ok do mismatched .assignmentShape "Assignment shape mismatch" (some target) found source.pos

/-- The type of an assigned value meets that of the binding. -/
def unifyType (b : BindingId) (i : Ident) (source : Node) (literal : Option (List Element))
    (ty : Ty) : Check Unit := do
  if !(← getStore).hasTypeThisPass (.binding b) then
    markType (.node i.node.id) ty
    typeBinding b i.name ty i.node.pos
    markKnown (.binding b)
  else
    let target ← tagOf (.binding b)
    if ty.tag.fits target then checkAssignedShape b source literal
    else if target = .undef then reimply b i ty
    else unexpected .assignmentType "Assignment type mismatch" ty.tag target.name source.pos

/-- A binding without a shape of this pass takes that of the value. -/
def unifyShape (node : Option NodeId) (b : BindingId) (shape : Option Shape) : Check Unit := do
  if shape.isSome && !(← getStore).hasShapeThisPass (.binding b) then
    markKnown (.binding b)
    markShape (.binding b) shape
    if let some n := node then markShape (.node n) shape

/-- The value of a node goes to an identifier. If the value is an array literal, its elements are
given too. -/
def assignIdent (env : CheckEnv) (node : Option NodeId) (source : Node)
    (literal : Option (List Element)) (i : Ident) : Check Unit := do
  match env.bindingOf? i with
  | none =>
    error .assignmentUndeclared "Assignment to an unknown/undeclared variable" i.node.pos
  | some b =>
    match ← knownType? (.node source.id) with
    | none => if (← getStore).isUntyped (.binding b) then touch (.binding b)
    | some ty =>
      let shape ← shape? (.node source.id)
      if let some n := node then markType (.node n) ty
      unifyType b i source literal ty
      unifyShape node b shape

def arrayElements? : Expr → Option (List Element)
  | .array _ es => some es
  | _ => none

def objectProps? : Expr → Option (List Property)
  | .object _ ps => some ps
  | _ => none

/-- The node of a destructuring assignment is of the type of its value, or else of that which the
target asks for. -/
def markDestructured (node : Option NodeId) (value : Expr) (otherwise : Tag) : Check Unit := do
  if let some n := node then
    markType (.node n) ((← knownType? (.node value.id)).getD (.inferred otherwise))

mutual

/-- The value of an expression goes to a pattern, and that of its parts to the parts of the
pattern as far as they are written out. -/
def assign (env : CheckEnv) (node : Option NodeId) (value : Expr) : Pattern → Check Unit
  | .ident i => assignIdent env node value.node (arrayElements? value) i
  | .array _ targets => do
    markDestructured node value .array
    assignElements env ((arrayElements? value).getD []) targets
  | .object _ props => do
    markDestructured node value .object
    assignProps env ((objectProps? value).getD []) props
  | .withDefault _ target _ => assign env node value target
  | .rest _ _ => return

def assignElements (env : CheckEnv) : List Element → List (Option Pattern) → Check Unit
  | .item e :: es, some p :: ps => do
    assign env none e p
    assignElements env es ps
  | _ :: es, _ :: ps => assignElements env es ps
  | _, _ => return

def assignProps (env : CheckEnv) (source : List Property) : List PatternProp → Check Unit
  | [] => return
  | .prop key p :: ps => do
    if let some e := Property.find? key source then assign env none e p
    assignProps env source ps
  | .rest _ :: ps => assignProps env source ps

end

/-- A variable that is declared without a value. -/
def declare (env : CheckEnv) (i : Ident) : Check Unit := do
  if let some b := env.bindingOf? i then
    if (← getStore).isTouched (.binding b) then markKnown (.binding b)
    typeBinding b i.name (.inferred .undef) i.node.pos

def assignDefault (env : CheckEnv) (n : NodeId) (target : Pattern) (value : Expr) : Check Unit := do
  if let some b := target.asIdent?.bind env.bindingOf? then
    if (← getStore).isUntyped (.node value.id) then touch (.binding b)
  assign env (some n) value target

def rest (env : CheckEnv) (n : NodeId) (argument : Pattern) : Check Unit := do
  markType (.node n) (Ty.inferred .array).rest
  if let some i := argument.asIdent? then
    match env.bindingOf? i with
    | none =>
      error .restUndeclared "Rest element references unknown/undeclared variable" i.node.pos
    | some b =>
      let found ← tagOf (.binding b)
      if !found.isKnown then typeBinding b i.name (.inferred .array) i.node.pos
      else if found != .array then
        unexpected .restType "Rest element type mismatch" found Tag.array.name i.node.pos

/-- The types of the names that every program knows. -/
def globalTag? : String → Option Tag
  | "undefined" => some .undef
  | "NaN" | "Infinity" => some .number
  | _ => none

/-- A tag names itself, whatever is declared. -/
def tagIdentifier (t : Tag) (i : Ident) : Role → Check Unit
  | .templateTag n => markType (.node n) (.tagged t)
  | .defaultValue => markType (.node i.node.id) (.tagged t)
  | _ => markType (.node i.node.id) (.inferred .func)

/-- An identifier is of the type of its binding. One whose type is not known yet is noted, except
where it is about to get a type. -/
def readIdentifier (env : CheckEnv) (i : Ident) (role : Role) : Check Unit := do
  let b? := env.bindingOf? i
  let ty? ← match b? with
    | some b => knownType? (.binding b)
    | none => pure none
  match b?, ty?, globalTag? i.name with
  | some b, some ty, _ =>
    markType (.node i.node.id) ty
    markShape (.node i.node.id) (← shape? (.binding b))
  | _, _, some t => markType (.node i.node.id) (.inferred t)
  | some b, _, none =>
    let isTarget := match role with
      | .defaultTarget => true
      | _ => false
    if !env.resolution.isLocalNonParam i.node.id && !isTarget then touch (.binding b)
  | none, _, none => return

def identifier (env : CheckEnv) (i : Ident) (role : Role) : Check Unit :=
  match Tag.ofName? i.name, role with
  | some t, role => tagIdentifier t i role
  | none, .functionName n => assignIdent env (some n.id) n none i
  | none, role => readIdentifier env i role

end Check
end TagCheck
