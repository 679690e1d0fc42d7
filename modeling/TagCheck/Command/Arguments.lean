/-! The arguments of a command: flags, options with a value, and values by position. -/
namespace TagCheck

/-- What arguments a command takes. -/
structure Usage where
  flags : List String := []
  options : List String := []
  /-- For each value by position, whether it may begin with a hyphen. -/
  positionals : List Bool := []
  deriving Repr, Inhabited

structure Arguments where
  flags : List String := []
  options : List (String × String) := []
  positionals : List String := []
  deriving DecidableEq, Repr, Inhabited

namespace Arguments

/-- The arguments read so far, and what the next one may be. -/
structure Reading where
  found : Arguments := {}
  /-- The option whose value comes next. -/
  pending : Option String := none
  /-- Only values by position are left. -/
  trailing : Bool := false
  deriving DecidableEq, Repr, Inhabited

/-- How an argument looks. -/
inductive Form where
  | separator
  | long (name : String) (value : Option String)
  | short
  | plain
  deriving DecidableEq, Repr

def splitValue (cs : List Char) : String × Option String :=
  let name := cs.takeWhile (· != '=')
  (String.ofList name,
    if name.length < cs.length then some (String.ofList (cs.drop (name.length + 1))) else none)

def Form.of (arg : String) : Form :=
  match arg.toList with
  | ['-', '-'] => .separator
  | '-' :: '-' :: cs => let (name, value) := splitValue cs; .long name value
  | ['-'] => .plain
  | '-' :: _ => .short
  | _ => .plain

namespace Reading

def positional (u : Usage) (r : Reading) (arg : String) : Option Reading :=
  if r.found.positionals.length < u.positionals.length then
    some { r with found := { r.found with positionals := r.found.positionals ++ [arg] } }
  else none

/-- A flag may be given once. -/
def flag (r : Reading) (name : String) : Option Reading :=
  if name ∈ r.found.flags then none
  else some { r with found := { r.found with flags := r.found.flags ++ [name] } }

/-- An option may be given once. -/
def option (r : Reading) (name value : String) : Option Reading :=
  match r.found.options.lookup name with
  | some _ => none
  | none => some { r with
      pending := none
      found := { r.found with options := r.found.options ++ [(name, value)] } }

/-- An argument that is the value of an option or a value by position. -/
def value (u : Usage) (r : Reading) (arg : String) : Option Reading :=
  match r.pending with
  | some name => r.option name arg
  | none => r.positional u arg

/-- An argument with a hyphen that names nothing is a value where one may begin so. -/
def hyphenated (u : Usage) (r : Reading) (arg : String) : Option Reading :=
  if (u.positionals[r.found.positionals.length]?).getD false then r.value u arg else none

/-- A named argument. No option is left waiting for its value. -/
def named (u : Usage) (r : Reading) (arg name : String) (value : Option String) : Option Reading :=
  if name ∈ u.flags then
    if r.pending.isSome || value.isSome then none else r.flag name
  else if name ∈ u.options then
    if r.pending.isSome then none
    else match value with
      | some v => r.option name v
      | none => some { r with pending := some name }
  else r.hyphenated u arg

def step (u : Usage) (r : Reading) (arg : String) : Option Reading :=
  if r.trailing then r.positional u arg
  else match Form.of arg with
    | .separator => if r.pending.isSome then none else some { r with trailing := true }
    | .long name value => r.named u arg name value
    | .short => r.hyphenated u arg
    | .plain => r.value u arg

end Reading

/-- The arguments, if they are as the command takes them. All values by position are needed. -/
def parse? (u : Usage) (args : List String) : Option Arguments := do
  let r ← args.foldlM (Reading.step u) {}
  if r.pending.isSome || r.found.positionals.length < u.positionals.length then none
  else return r.found

end Arguments
end TagCheck
