import TagCheck.Program.Basic
import TagCheck.SourceError

/-! Reading a list of tokens from left to right while numbering the nodes of the tree. -/
namespace TagCheck

structure Cursor where
  rest : List Token
  nextNode : NodeId
  nextFunc : FuncId
  deriving Repr, Inhabited

def Cursor.ofTokens (tokens : List Token) : Cursor := ⟨tokens, 0, 0⟩

abbrev Parse := StateT Cursor (Except SourceError)

namespace Parse

/-- The kind of the next token. Behind the last token there is only the end. -/
def peek : Parse TokenKind := do
  match (← get).rest with
  | [] => return .eof
  | t :: _ => return t.kind

def position : Parse Position := do
  match (← get).rest with
  | [] => return .start
  | t :: _ => return t.pos

/-- Whether the next token begins a line. -/
def onNewLine : Parse Bool := do
  match (← get).rest with
  | [] => return false
  | t :: _ => return t.newlineBefore

/-- Steps over the next token unless it is the end. -/
def advance : Parse Unit :=
  modify fun c => match c.rest with
    | [] => c
    | t :: ts => if t.kind = .eof then c else { c with rest := ts }

def failAt (pos : Position) (cause : Cause) : Parse α := throw ⟨cause, pos⟩

def fail (cause : Cause) : Parse α := do failAt (← position) cause

def isNext (kind : TokenKind) : Parse Bool := return (← peek) = kind

def isAtEnd : Parse Bool := isNext .eof

/-- Steps over a token of this kind, if it is the next one. -/
def accept (kind : TokenKind) : Parse Bool := do
  if ← isNext kind then
    advance
    return true
  else
    return false

def expect (kind : TokenKind) : Parse Unit := do
  unless ← accept kind do fail (.expected kind)

def newNode (pos : Position) : Parse Node :=
  modifyGet fun c => (⟨c.nextNode, pos⟩, { c with nextNode := c.nextNode + 1 })

def newFunc : Parse FuncId :=
  modifyGet fun c => (c.nextFunc, { c with nextFunc := c.nextFunc + 1 })

/-- More steps than any loop takes that steps over a token each time. -/
def budget : Parse Nat := return (← get).rest.length + 1

/-- Collects items until there is none. -/
def collect (item : Parse (Option α)) : Nat → Parse (List α)
  | 0 => return []
  | fuel + 1 => do
    match ← item with
    | none => return []
    | some a => return a :: (← collect item fuel)

/-- One item or several with commas between them. -/
def separated (item : Parse α) : Nat → Parse (List α)
  | 0 => return []
  | fuel + 1 => do
    let a ← item
    if ← accept (.punct .comma) then return a :: (← separated item fuel) else return [a]

/-- The items up to a closing token, with commas between them and perhaps one at the end. -/
def commaList (close : TokenKind) (item : Parse α) : Nat → Parse (List α)
  | 0 => return []
  | fuel + 1 => do
    if ← isNext close then return []
    let a ← item
    if ← accept (.punct .comma) then return a :: (← commaList close item fuel) else return [a]

/-- The items up to a closing token, where a comma without an item before it stands for a hole. -/
def holeyList (close : TokenKind) (item : Parse α) : Nat → Parse (List (Option α))
  | 0 => return []
  | fuel + 1 => do
    if ← isNext close then return []
    if ← accept (.punct .comma) then return none :: (← holeyList close item fuel)
    let a ← item
    if ← accept (.punct .comma) then return some a :: (← holeyList close item fuel)
    else return [some a]

/-- Extends what is read as long as something follows that extends it. -/
def extend (step : α → Parse (Option α)) : Nat → α → Parse α
  | 0, a => return a
  | fuel + 1, a => do
    match ← step a with
    | none => return a
    | some b => extend step fuel b

end Parse

end TagCheck
