/-! Reading characters from left to right, and what may stand between the parts of a TOML
document. -/
namespace TagCheck
namespace Toml

abbrev Read := StateT (List Char) Option

namespace Read

def fail : Read α := fun _ => none

def peek : Read (Option Char) := return (← get).head?

def next : Read Char := do
  match ← get with
  | [] => fail
  | c :: cs =>
    set cs
    return c

/-- Steps over a text if it is next. -/
def accept (s : String) : Read Bool := do
  let cs ← get
  if s.toList.isPrefixOf cs then
    set (cs.drop s.toList.length)
    return true
  else
    return false

def expect (s : String) : Read Unit := do
  unless ← accept s do fail

def takeWhile (p : Char → Bool) : Read (List Char) :=
  modifyGet fun cs => (cs.takeWhile p, cs.dropWhile p)

def fuel : Read Nat := return (← get).length + 1

/-- A document in which so many brackets are open at once, or a key has so many parts, is
refused. -/
def nestingLimit : Nat := 80

/-- Collects until there is no more. -/
def many (step : Read (Option α)) : Nat → Read (List α)
  | 0 => fail
  | n + 1 => do
    match ← step with
    | none => return []
    | some a => return a :: (← many step n)

def isSpace (c : Char) : Bool := c == ' ' || c == '\t'

/-- Characters that stand for themselves in comments and literal strings. -/
def isPlain (c : Char) : Bool := c == '\t' || (32 ≤ c.toNat && c.toNat != 127)

def isBare (c : Char) : Bool := c.isAlphanum || c == '_' || c == '-'

def spaces : Read Unit := do
  let _ ← takeWhile isSpace

/-- Steps over the end of a line, if it is next. -/
def newline : Read Bool := do
  if ← accept "\n" then return true else accept "\r\n"

def comment : Read Unit := do
  if ← accept "#" then
    let _ ← takeWhile isPlain

/-- The rest of a line holds nothing but a comment. -/
def endLine : Read Unit := do
  spaces
  comment
  unless (← get).isEmpty do
    unless ← newline do fail

/-- Blanks, comments and ends of lines between the items of an array. -/
def gap : Nat → Read Unit
  | 0 => fail
  | n + 1 => do
    spaces
    comment
    if ← newline then gap n

end Read
end Toml
end TagCheck
