import TagCheck.Check.Assignment

/-! Functions, their results and their calls. -/
namespace TagCheck

/-- The built-in constructors that can be called, and what they return. -/
def nativeResult? : String → Option Tag
  | "BigInt" => some .bint
  | "String" => some .string
  | "Number" => some .number
  | "Boolean" => some .bool
  | "Symbol" => some .symb
  | "Object" => some .object
  | "Array" => some .array
  | "Function" => some .func
  | "Date" => some .string
  | "RegExp" => some .regex
  | "Error" | "SyntaxError" | "TypeError" | "ReferenceError" | "RangeError" | "URIError"
  | "EvalError" => some .object
  | _ => none

namespace FuncShape

/-- Gives a parameter a type, unless it has the same one already, and a shape if there is one. -/
def setParam (f : FuncShape) (idx : Nat) (ty : Ty) (shape : Option Shape) : FuncShape :=
  let write (s : Slot) : Slot :=
    ⟨if s.ty.tag.agrees ty.tag then s.ty else ty, shape <|> s.shape⟩
  if idx < f.params.length then { f with params := f.params.modify idx write }
  else { f with params := f.params ++ [⟨ty, shape⟩] }

/-- Replaces the type of a parameter, and its shape if there is one. -/
def implyParam (f : FuncShape) (idx : Nat) (ty : Ty) (shape : Option Shape) : FuncShape :=
  { f with params := f.params.modify idx fun s => ⟨ty, shape <|> s.shape⟩ }

end FuncShape

namespace Check

/-- The result of a function is open again at the start of each pass. -/
def enterFunction (n : NodeId) (f : FuncId) : Check Unit := do
  markType (.node n) (.inferred .func)
  let (id, created) ← functionShape f
  unless created do modifyReturn id fun r => { r with isDefault := true }
  markShape (.node n) (some (.func id))
  put (.enter id)

/-- Notes the types of parameters in the shape of their function, up to the one that takes the
rest. -/
def parametersFrom (env : CheckEnv) (id : FuncShapeId) (idx : Nat) : List Pattern → Check Unit
  | [] => return
  | p :: ps => do
    match ← knownType? (.node p.id) with
    | some ty =>
      if ty.isRest then modifyFunc id fun f => { f with hasRest := true }
      else
        let shape ← shape? (.node p.id)
        modifyFunc id (·.setParam idx ty shape)
        parametersFrom env id (idx + 1) ps
    | none =>
      let known := ((← func? id).map (·.params.length)).getD 0
      unless idx < known do
        modifyFunc id fun f => { f with params := f.params ++ [⟨.unknown, none⟩] }
        if let some b := p.simpleName?.bind env.bindingOf? then touch (.binding b)
      parametersFrom env id (idx + 1) ps

def parameters (env : CheckEnv) (params : List Pattern) : Check Unit := do
  if let some id ← frame? then parametersFrom env id 0 params

/-- The result of a function whose body is an expression is that expression. A function without a
`return` keeps the result it has. -/
def settleResult (id : FuncShapeId) : Option NodeId → Check Unit
  | some result => do
    let ty ← knownType? (.node result)
    let shape ← shape? (.node result)
    modifyReturn id fun r =>
      { r with isDefault := false, ty := ty.getD .unknown, shape := shape <|> r.shape }
    if ty.isSome then markKnown (.ret id)
  | none =>
    modifyReturn id fun r => if r.isExplicit then r else { r with isDefault := false }

def leaveFunction (pos : Position) (name : String) (result : Option NodeId) : Check Unit := do
  if let some id ← frame? then
    settleResult id result
    let description ← describe (some (.func id))
    info .funcShape ("Function '" ++ name ++ "' shape: '" ++ description ++ "'") pos
    put .leave

/-- Whether the expression calls the function of this shape by name. -/
def isSelfCall (env : CheckEnv) (store : Store) (id : FuncShapeId) : Expr → Bool
  | .call _ (.ident i) _ =>
    ((env.bindingOf? i).bind fun b => store.shape? (.binding b)) == some (.func id)
  | _ => false

/-- The first known result of a pass counts, and later ones are compared with it. -/
def meetResult (id : FuncShapeId) (ty : Ty) (shape : Option Shape) (pos : Position) :
    Check Unit := do
  if let some f ← func? id then
    if f.ret.isDefault then
      if ty.isKnown then
        modifyReturn id fun r => { r with isDefault := false, ty, shape := shape <|> r.shape }
    else if !ty.tag.fits f.ret.ty.tag then
      unexpected .returnType "Return type mismatched" ty.tag f.ret.ty.tag.name pos
    else if (shape.isSome || f.ret.shape.isSome) && !(← shapeFits shape f.ret.shape) then
      mismatched .returnShape "Return shape mismatched" f.ret.shape shape pos

/-- A `return` gives the enclosing function its result, unless it only calls it again. -/
def return_ (env : CheckEnv) (pos : Position) (argument : Option Expr) : Check Unit := do
  if let some id ← frame? then
    let store ← getStore
    unless argument.any (isSelfCall env store id) do
      modifyReturn id fun r => { r with isExplicit := true }
      match argument with
      | some e =>
        let ty ← knownType? (.node e.id)
        let shape ← shape? (.node e.id)
        if ty.isSome || shape.isSome then markKnown (.ret id)
        meetResult id (ty.getD .unknown) shape e.pos
      | none =>
        markKnown (.ret id)
        meetResult id (.inferred .undef) none pos

/-- The shape by which a call is checked: that of a built-in constructor, of the function that the
callee is bound to, or of the function that is called where it is written. -/
def calleeShape? (env : CheckEnv) (n : NodeId) : Expr → Check (Option FuncShapeId)
  | .ident i => do
    match nativeResult? i.name with
    | some result =>
      let id ← nativeShape i.name result
      markType (.node n) (.inferred result)
      return some id
    | none =>
      let store ← getStore
      return ((env.bindingOf? i).bind fun b => store.shape? (.binding b)).bind Shape.asFunc?
  | .function f => return (← getStore).functionShape? f.func
  | _ => return none

/-- The name that an argument for this parameter gives a type to, and the node of the name if it
is only a part of the parameter. -/
def Parameter.implied? : Pattern → Option (Ident × Option NodeId)
  | .ident i => some (i, none)
  | .withDefault _ (.ident i) _ => some (i, some i.node.id)
  | _ => none

/-- A parameter of unknown type takes that of an argument. -/
def implyParam (env : CheckEnv) (id : FuncShapeId) (origin : FuncId) (idx : Nat) (ty : Ty)
    (shape : Option Shape) (pos : Position) : Check Unit := do
  let param? := (env.resolution.function? origin).bind (·.params[idx]?)
  match param?, param?.bind Parameter.implied? with
  | some param, some (i, inner) =>
    if let some n := inner then markType (.node n) ty
    if let some b := env.bindingOf? i then
      modifyFunc id (·.implyParam idx ty shape)
      markType (.node param.id) ty
      markType (.binding b) ty
      markKnown (.binding b)
      let described ← match shape with
        | some s => pure (" (and shape: " ++ (← describe (some s)) ++ ")")
        | none => pure ""
      markShape (.binding b) shape
      let code := if ty.isTagged then Code.implyParamFromArgTagged else .implyParamFromArgInferred
      info code ("Implying parameter " ++ i.name ++ " from argument, as " ++ ty.provenance ++ " '"
        ++ ty.tag.name ++ "'" ++ described) pos
  | _, _ => return

def argument (env : CheckEnv) (id : FuncShapeId) (origin : Option FuncId) (idx : Nat) (param : Slot)
    (arg : Expr) : Check Unit := do
  let ty ← tyOf arg.id
  let shape ← shape? (.node arg.id)
  if param.ty.isKnown then
    if !ty.tag.fits param.ty.tag then
      unexpected .callArgType "Argument type mismatch" ty.tag param.ty.tag.name arg.pos
    else if param.shape.isSome && !(← shapeFits shape param.shape) then
      mismatched .callArgShape "Argument shape mismatch" param.shape shape arg.pos
  else if ty.isKnown then
    if let some f := origin then implyParam env id f idx ty shape arg.pos

/-- Checks arguments against parameters, up to a spread. -/
def argumentsFrom (env : CheckEnv) (pos : Position) (id : FuncShapeId) (origin : Option FuncId)
    (idx : Nat) : List Element → List Slot → Check Unit
  | .spread _ _ :: _, _ =>
    error .callArgSpread "Not all arguments could be verified because of a `...` spread" pos
  | .item e :: es, p :: ps => do
    argument env id origin idx p e
    argumentsFrom env pos id origin (idx + 1) es ps
  | _, _ => return

def argumentCount (pos : Position) (f : FuncShape) (args : List Element) : Check Unit := do
  let expected := f.params.length
  if (!f.hasRest && expected < args.length) || args.length < expected then
    if args.any Element.isSpread then
      error .callArgCountUnverifiable ("Expected " ++ toString expected
        ++ " arguments, could not verify count because of a `...` spread") pos
    else
      error .callArgCount ("Expected " ++ toString expected ++ " arguments, found "
        ++ toString args.length) pos

/-- The value of a call is the result of the function. If that is not known yet it is noted, unless
the function calls itself in the end. -/
def callResult (n : NodeId) (id : FuncShapeId) (ret : ReturnSlot) (selfTail : Bool) :
    Check Unit := do
  unless ret.isDefault do markType (.node n) ret.ty
  if !ret.isDefault && ret.ty.isKnown then markShape (.node n) ret.shape
  else unless selfTail do touch (.ret id)

def call (env : CheckEnv) (n : Node) (callee : Expr) (args : List Element) (tail : Bool) :
    Check Unit := do
  let store ← getStore
  let selfTail := tail && (← frame?).any fun id => isSelfCall env store id (.call n callee args)
  match ← calleeShape? env n.id callee with
  | none =>
    if let some i := callee.asIdent? then
      error .callNoShape ("Could not find shape to check function call '" ++ i.name ++ "(..)'") n.pos
      if let some b := env.bindingOf? i then touch (.binding b)
  | some id =>
    if let some f ← func? id then
      callResult n.id id f.ret selfTail
      argumentCount n.pos f args
      argumentsFrom env n.pos id f.origin 0 args f.params

end Check
end TagCheck
