import TagCheck.Toml.Basic
import TagCheck.Toml.Quoted
import TagCheck.Toml.Scalar

/-! Reading TOML documents. -/
namespace TagCheck
namespace Toml
namespace Read

/-- The items of an array behind its bracket. -/
def arrayItems (value : Read Value) : Nat → Read (List Value)
  | 0 => fail
  | n + 1 => do
    gap (← fuel)
    if ← accept "]" then return []
    let v ← value
    gap (← fuel)
    if ← accept "," then return v :: (← arrayItems value n)
    expect "]"
    return [v]

/-- The entries of an inline table, of which there is at least one. -/
def inlineEntries (value : Read Value) (es : Entries) : Nat → Read Entries
  | 0 => fail
  | n + 1 => do
    let (path, k) ← key
    expect "="
    spaces
    let v ← value
    spaces
    match es.addDotted k v path with
    | none => fail
    | some es => if ← accept "," then inlineEntries value es n else return es

/-- A value without parts. -/
def scalar : Read Value := do
  match ← peek with
  | some '"' | some '\x27' => return .string (← string)
  | _ =>
    if ← accept "true" then return .boolean true
    else if ← accept "false" then return .boolean false
    else Value.dateTime <$> dateTime <|> Value.float <$> float <|> Value.integer <$> integer

/-- A value, with at most `n` brackets nested. -/
def value : Nat → Read Value
  | 0 => scalar
  | n + 1 => do
    match ← peek with
    | some '[' =>
      let _ ← next
      return .array (← arrayItems (value n) (← fuel))
    | some '{' =>
      let _ ← next
      spaces
      if ← accept "\x7d" then return .table .inline []
      let es ← inlineEntries (value n) [] (← fuel)
      expect "\x7d"
      return .table .inline es
    | _ => scalar

/-- The tables read so far and the header of the current one. -/
structure Document where
  entries : Entries := []
  header : List String := []

def ofOption : Option α → Read α
  | some a => return a
  | none => fail

def header (d : Document) (double : Bool) : Read Document := do
  let (path, k) ← key
  expect (if double then "]]" else "]")
  endLine
  let open_ := if double then Entries.openTables k else Entries.openTable k
  return ⟨← ofOption (d.entries.under open_ path), path ++ [k]⟩

def setting (d : Document) : Read Document := do
  let (path, k) ← key
  expect "="
  spaces
  let v ← value (nestingLimit - 1)
  endLine
  return { d with entries := ← ofOption (d.entries.under (Entries.addDotted k v path) d.header) }

def lines (d : Document) : Nat → Read Document
  | 0 => fail
  | n + 1 => do
    spaces
    match ← peek with
    | none => return d
    | some '#' | some '\n' | some '\r' =>
      endLine
      lines d n
    | some '[' =>
      if ← accept "[[" then lines (← header d true) n
      else
        expect "["
        lines (← header d false) n
    | some _ => lines (← setting d) n

def document : Read Entries := do
  let _ ← accept "\ufeff"
  return (← lines {} (← fuel)).entries

end Read

/-- The table that a text describes, unless it is no TOML. -/
def parse? (s : String) : Option Entries := (Read.document.run s.toList).map Prod.fst

end Toml
end TagCheck
