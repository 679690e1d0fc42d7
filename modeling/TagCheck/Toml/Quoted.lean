import TagCheck.Text.Basic
import TagCheck.Toml.Reader

/-! Strings and keys of TOML documents. -/
namespace TagCheck
namespace Toml
namespace Read

/-- A character by the hexadecimal digits of its number. -/
def unicode (digits : Nat) : Read Char := do
  let cs ← get
  let hex := cs.take digits
  if hex.length == digits && hex.all Text.isHexDigit then
    set (cs.drop digits)
    let n := Text.natOfDigits 16 hex
    if n.isValidChar then return Char.ofNat n else fail
  else
    fail

def escape : Read Char := do
  match ← next with
  | 'b' => return '\x08'
  | 't' => return '\t'
  | 'n' => return '\n'
  | 'f' => return '\x0c'
  | 'r' => return '\r'
  | '"' => return '"'
  | '\\' => return '\\'
  | 'u' => unicode 4
  | 'U' => unicode 8
  | _ => fail

/-- A character of a string in double quotes on one line, unless the string ends. -/
def basicChar : Read (Option Char) := do
  match ← next with
  | '"' => return none
  | '\\' => some <$> escape
  | c => if isPlain c then return some c else fail

def literalChar : Read (Option Char) := do
  match ← next with
  | '\x27' => return none
  | c => if isPlain c then return some c else fail

/-- The quotes that end a string of several lines, with up to two more that belong to it. -/
def closing (quote : Char) : Read (Option (List Char)) := do
  let cs ← get
  let quotes := (cs.takeWhile (· == quote)).length
  if quotes < 3 then return none
  else if quotes ≤ 5 then
    set (cs.drop quotes)
    return some (List.replicate (quotes - 3) quote)
  else fail

/-- Blanks and the ends of lines. -/
def blankLines : Nat → Read Unit
  | 0 => fail
  | n + 1 => do
    spaces
    if ← newline then blankLines n

/-- A backslash that ends its line takes the blanks behind it away. -/
def foldedLine : Read (List Char) := do
  spaces
  unless ← newline do fail
  blankLines (← fuel)
  return []

/-- A piece of a string of several lines, with a flag that tells whether it is the last. -/
def multiPiece (quote : Char) (escapes : Bool) : Read (List Char × Bool) := do
  match ← closing quote with
  | some extra => return (extra, true)
  | none =>
    if ← newline then return (['\n'], false)
    let c ← next
    if escapes && c == '\\' then
      match ← peek with
      | some d =>
        if isSpace d || d == '\n' || d == '\r' then return (← foldedLine, false)
        else return ([← escape], false)
      | none => fail
    else if isPlain c then return ([c], false)
    else fail

def multiLine (quote : Char) (escapes : Bool) : Nat → Read (List Char)
  | 0 => fail
  | n + 1 => do
    let (cs, last) ← multiPiece quote escapes
    if last then return cs else return cs ++ (← multiLine quote escapes n)

/-- A string on one line, whose quote is next. -/
def quotedLine : Read String := do
  if ← accept "\"" then return String.ofList (← many basicChar (← fuel))
  else
    expect "'"
    return String.ofList (← many literalChar (← fuel))

def string : Read String := do
  if ← accept "\"\"\"" then
    let _ ← newline
    return String.ofList (← multiLine '"' true (← fuel))
  else if ← accept "'''" then
    let _ ← newline
    return String.ofList (← multiLine '\x27' false (← fuel))
  else quotedLine

def keyPart : Read String := do
  match ← peek with
  | some '"' | some '\x27' => quotedLine
  | _ =>
    let cs ← takeWhile isBare
    if cs.isEmpty then fail else return String.ofList cs

/-- The parts of a key, which has dots between them. -/
def keyParts : Nat → Read (List String)
  | 0 => fail
  | n + 1 => do
    spaces
    let k ← keyPart
    spaces
    if ← accept "." then return k :: (← keyParts n) else return [k]

/-- A key: what leads to it and its last part. -/
def key : Read (List String × String) := do
  let parts ← keyParts (← fuel)
  if nestingLimit ≤ parts.length then fail
  match parts.getLast? with
  | some k => return (parts.dropLast, k)
  | none => fail

end Read
end Toml
end TagCheck
