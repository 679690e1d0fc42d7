import TagCheck.Descriptor.Tree
import TagCheck.Value.Eval

/-! Validators of values: one per tag, which reads its value from a template, and those of array
shapes. -/
namespace TagCheck

inductive ValidationError where
  | invalidInput (text : String)
  | noDefault (type : String)
  | notType (value expected : String)
  | shape (e : Descriptor.Error)
  | unknownType (name : String)
  deriving DecidableEq, Repr

def ValidationError.message : ValidationError → String
  | invalidInput text => "Invalid input: " ++ text
  | noDefault type => "No default for type: " ++ type
  | notType value expected => value ++ " is not type: " ++ expected
  | shape e => e.message
  | unknownType name => "unknown type: " ++ name

/-- The strings of a tagged template and the values between them. -/
structure TemplateInput where
  strings : List String
  values : List Value
  deriving Repr, Inhabited

namespace TemplateInput

def literal (s : String) : TemplateInput := ⟨[s], []⟩

def value (v : Value) : TemplateInput := ⟨["", ""], [v]⟩

def text (t : TemplateInput) : String := Value.joinTemplate t.strings t.values

def firstValue (t : TemplateInput) : Value := t.values.headD .undefined

end TemplateInput

namespace Validate

/-- One line of text for a message: trimmed, with line breaks escaped. -/
def oneLine (s : String) : String :=
  String.ofList ((Text.trimChars s.toList).flatMap fun c =>
    if c == '\n' then ['\\', 'n'] else if c == '\r' then ['\\', 'r'] else [c])

def failed (v : Value) (expected : String) : ValidationError :=
  let text := match v with
    | .str s => "'" ++ s ++ "'"
    | v => v.text
  .notType (oneLine text) expected

/-- The one input of a tag: a literal, trimmed, or a value with only blanks around it. -/
def singleInput (t : TemplateInput) : Except ValidationError Value :=
  match t.strings with
  | [] => .ok (.str "")
  | [s] => .ok (.str (Text.trim s))
  | [a, b] =>
    if Text.allBlank a && Text.allBlank b then .ok t.firstValue
    else .error (.invalidInput (oneLine t.text))
  | _ => .error (.invalidInput (oneLine t.text))

def any (t : TemplateInput) : Value :=
  match t.strings with
  | [] => .undefined
  | [s] => if s.isEmpty then .undefined else .str s
  | [a, b] => if a.isEmpty && b.isEmpty then t.firstValue else .str t.text
  | _ => .str t.text

def isStr : Value → Bool
  | .str _ => true
  | _ => false

def string (t : TemplateInput) : Except ValidationError Value :=
  match t.strings with
  | [s] => .ok (.str s)
  | _ =>
    match t.values.find? fun v => !isStr v with
    | some v => .error (failed v "string")
    | none => .ok (any t)

/-- The value of a text that is an expression. -/
def evaluated (s expected : String) : Except ValidationError Value :=
  match Value.ofConstant? s with
  | some v => .ok v
  | none => .error (failed (.str s) expected)

def regexInput (t : TemplateInput) : Except ValidationError Value :=
  let written : String :=
    match any t with
    | .undefined => ""
    | v => v.text
  let source := if written.isEmpty then "/(?:)/" else Text.trim written
  match t.strings with
  | [a, b] =>
    if a.isEmpty && b.isEmpty then .ok t.firstValue else evaluated source "regular expression"
  | _ => evaluated source "regular expression"

def regex (t : TemplateInput) : Except ValidationError Value := do
  match ← regexInput t with
  | .regex pattern flags => return .regex pattern flags
  | v => throw (failed v "regular expression")

/-- A text that reads as a number becomes one. -/
def numeric (s : String) : Value :=
  let x := Double.ofText s
  if x.isNaN then .str s else .number x

/-- The word for the values of a tag. -/
def noun : Tag → String
  | .undef => "undefined"
  | .nul => "null"
  | .bool => "boolean"
  | .number => "number"
  | .finite => "finite number"
  | .int => "integer"
  | .bint => "bigint"
  | .symb => "symbol"
  | .array => "array"
  | .object => "object"
  | .func => "function"
  | t => t.name

/-- What a text stands for under a tag of one input. -/
def ofText (tag : Tag) (s : String) : Except ValidationError Value :=
  match tag with
  | .undef => .ok (if s == "" || s == "undefined" then .undefined else .str s)
  | .nul => .ok (if s == "" || s == "null" then .null else .str s)
  | .bool =>
    if s == "" then .error (.noDefault (noun .bool))
    else .ok (if s == "true" then .bool true else if s == "false" then .bool false else .str s)
  | .number =>
    if s == "" then .error (.noDefault (noun .number))
    else .ok (if s == "NaN" then .number .nan else numeric s)
  | .finite => if s == "" then .error (.noDefault (noun .finite)) else .ok (numeric s)
  | .int => if s == "" then .error (.noDefault (noun .int)) else .ok (numeric s)
  | .bint => if s == "" then .error (.noDefault (noun .bint)) else evaluated s (noun .bint)
  | .symb => evaluated (if s == "" then "Symbol()" else s) (noun .symb)
  | .array => evaluated (if s == "" then "[]" else s) (noun .array)
  | .object => evaluated (if s == "" then "\x7b\x7d" else s) (noun .object)
  | .func => evaluated (if s == "" then "()=>void 0" else s) (noun .func)
  | _ => .ok (.str s)

/-- A text is first read as what it stands for; any other value is taken as it is. -/
def coerced (tag : Tag) : Value → Except ValidationError Value
  | .str s => ofText tag s
  | v => .ok v

/-- Whether a tag of one input takes a value. -/
def takes : Tag → Value → Bool
  | .undef, .undefined | .nul, .null | .bool, .bool _ | .number, .number _ | .bint, .bigint _
  | .symb, .symbol _ | .array, .array _ | .func, .function _ => true
  | .finite, v => v.isFinite
  | .int, v => v.isSafeInteger
  | .object, v => v.isObject
  | .undef, _ | .nul, _ | .bool, _ | .number, _ | .bint, _ | .symb, _ | .array, _ | .func, _ => false
  | _, _ => true

def single (tag : Tag) (t : TemplateInput) : Except ValidationError Value := do
  let v ← coerced tag (← singleInput t)
  if takes tag v then return v else throw (failed v (noun tag))

end Validate

/-- The value that a tagged template stands for. -/
def Tag.validate (tag : Tag) (t : TemplateInput) : Except ValidationError Value :=
  match tag with
  | .any => .ok (Validate.any t)
  | .string => Validate.string t
  | .regex => Validate.regex t
  | .unknown => .error (.unknownType tag.name)
  | _ => Validate.single tag t

/-- The element types that are no tags, by name. Of two of one name the later counts. -/
structure Validators where
  custom : List (String × (Value → Bool)) := []

namespace Validators

def register (vs : Validators) (name : String) (accepts : Value → Bool) : Validators :=
  ⟨(name, accepts) :: vs.custom⟩

def hasType (vs : Validators) (v : Value) : ElemName → Except ValidationError Bool
  | .builtin t => .ok (v.hasTag t)
  | .named name =>
    match vs.custom.lookup name with
    | some accepts => .ok (accepts v)
    | none => .error (.unknownType name)

/-- Whether all of them pass. The first that fails, or has an error, decides. -/
def allPass (test : Value → Except ValidationError Bool) : List Value → Except ValidationError Bool
  | [] => .ok true
  | v :: vs => do if ← test v then allPass test vs else return false

mutual

/-- Whether a value is an array of this shape. -/
def accepts (vs : Validators) : ArrayShape → Value → Except ValidationError Bool
  | ⟨contents, nonEmpty, _⟩, .array items =>
    if nonEmpty && items.isEmpty then .ok false else vs.acceptsItems contents items
  | _, _ => .ok false

def acceptsItems (vs : Validators) : Contents → List Value → Except ValidationError Bool
  | .simple name, items => allPass (fun v => vs.hasType v name) items
  | .tuple members, items =>
    if items.length = members.length then vs.acceptsMembers members items else .ok false
  | .nested inner, items => allPass (vs.accepts inner) items

def acceptsMember (vs : Validators) : Member → Value → Except ValidationError Bool
  | .elem name, v => vs.hasType v name
  | .shape inner, v => vs.accepts inner v

def acceptsMembers (vs : Validators) : List Member → List Value → Except ValidationError Bool
  | m :: ms, v :: rest => do
    if ← vs.acceptsMember m v then vs.acceptsMembers ms rest else return false
  | _, _ => .ok true

end

def checkArray (vs : Validators) (v : Value) (s : ArrayShape) : Except ValidationError Unit := do
  unless ← vs.accepts s v do throw (Validate.failed v s.description)

def check (vs : Validators) (v : Value) (descriptor : String) : Except ValidationError Unit :=
  match Descriptor.parse descriptor with
  | .error e => .error (.shape e)
  | .ok s => vs.checkArray v s

end Validators

/-- The value of a literal, which is to be of the given shape, if there is one. -/
def Tag.validateLiteral (tag : Tag) (text : String) (shape : Option ArrayShape) :
    Except ValidationError Value := do
  let v ← tag.validate (.literal text)
  match shape with
  | none => return v
  | some s =>
    ({} : Validators).checkArray v s
    return v

end TagCheck
