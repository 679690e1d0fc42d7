import TagCheck.Text.Basic

/-! The tokens of array shape descriptors such as `<int[],string>[]`, each with the byte offset
where it starts, and the faults that a descriptor can have. -/
namespace TagCheck
namespace Descriptor

inductive Error where
  | empty
  | unexpectedChar (c : Char) (offset : Nat)
  | consecutiveTypes (name : String) (offset : Nat)
  | missingOperand (nonEmpty : Bool) (offset : Nat)
  | unexpectedOpen (opener : Char) (offset : Nat)
  | commaOutsideTuple (offset : Nat)
  | missingMember (closer : Char) (offset : Nat)
  | emptyTuple (offset : Nat)
  | emptyGroup (offset : Nat)
  | unmatched (closer : Char) (offset : Nat)
  | unterminated (opener : Char) (offset : Nat)
  | notAnArray (name : String)
  deriving DecidableEq, Repr

/-- The two array brackets. -/
def brackets (nonEmpty : Bool) : String := if nonEmpty then "[+]" else "[]"

def Error.message : Error → String
  | .empty => "empty shape descriptor"
  | .unexpectedChar c o => "unexpected character '" ++ c.toString ++ "' at offset " ++ toString o
  | .consecutiveTypes name o =>
    "unexpected type '" ++ name ++ "' at offset " ++ toString o ++
      ", expected `[]`, `,` or a closing bracket"
  | .missingOperand nonEmpty o =>
    "`" ++ brackets nonEmpty ++ "` at offset " ++ toString o ++ " does not follow a shape"
  | .unexpectedOpen c o =>
    "unexpected `" ++ c.toString ++ "` at offset " ++ toString o ++ " after a complete shape"
  | .commaOutsideTuple o => "`,` at offset " ++ toString o ++ " is outside of a tuple"
  | .missingMember c o =>
    "missing tuple member before `" ++ c.toString ++ "` at offset " ++ toString o
  | .emptyTuple o => "empty tuple `<>` at offset " ++ toString o
  | .emptyGroup o => "empty group `()` at offset " ++ toString o
  | .unmatched c o => "unmatched `" ++ c.toString ++ "` at offset " ++ toString o
  | .unterminated c o => "unterminated `" ++ c.toString ++ "` opened at offset " ++ toString o
  | .notAnArray name => "shape '" ++ name ++ "' is not an array"

inductive Token where
  | name (s : String)
  | arrayOf (nonEmpty : Bool)
  | openGroup | closeGroup | openTuple | closeTuple | comma
  deriving DecidableEq, Repr

/-- Characters with their byte offsets. -/
def withOffsets (offset : Nat) : List Char → List (Char × Nat)
  | [] => []
  | c :: cs => (c, offset) :: withOffsets (offset + c.utf8Size) cs

def isNameStart (c : Char) : Bool := c.isAlpha || c == '_' || c == '$'

def isNamePart (c : Char) : Bool := c.isAlphanum || c == '_' || c == '$'

/-- Between tokens, in a name that began at an offset (its characters last first), or behind a
`[` at an offset. -/
inductive Mode where
  | between
  | name (start : Nat) (chars : List Char)
  | bracket (start : Nat) (nonEmpty : Bool)

/-- What a character between tokens begins, and the token that it is by itself. -/
def begin (c : Char) (offset : Nat) : Except Error (Mode × List (Token × Nat)) :=
  if Text.isBlank c then .ok (.between, [])
  else if c = '(' then .ok (.between, [(.openGroup, offset)])
  else if c = ')' then .ok (.between, [(.closeGroup, offset)])
  else if c = '<' then .ok (.between, [(.openTuple, offset)])
  else if c = '>' then .ok (.between, [(.closeTuple, offset)])
  else if c = ',' then .ok (.between, [(.comma, offset)])
  else if c = '[' then .ok (.bracket offset false, [])
  else if isNameStart c then .ok (.name offset [c], [])
  else .error (.unexpectedChar c offset)

def tokensFrom : Mode → List (Char × Nat) → Except Error (List (Token × Nat))
  | .between, [] => .ok []
  | .name start chars, [] => .ok [(.name (String.ofList chars.reverse), start)]
  | .bracket start _, [] => .error (.unterminated '[' start)
  | .between, (c, offset) :: rest => do
    let (mode, tokens) ← begin c offset
    return tokens ++ (← tokensFrom mode rest)
  | .name start chars, (c, offset) :: rest =>
    if isNamePart c then tokensFrom (.name start (c :: chars)) rest
    else do
      let (mode, tokens) ← begin c offset
      return (.name (String.ofList chars.reverse), start) :: tokens ++ (← tokensFrom mode rest)
  | .bracket start nonEmpty, (c, offset) :: rest =>
    if Text.isBlank c then tokensFrom (.bracket start nonEmpty) rest
    else if c = '+' ∧ nonEmpty = false then tokensFrom (.bracket start true) rest
    else if c = ']' then do
      return (.arrayOf nonEmpty, start) :: (← tokensFrom .between rest)
    else .error (.unexpectedChar c offset)

def tokens (s : String) : Except Error (List (Token × Nat)) :=
  tokensFrom .between (withOffsets 0 s.toList)

end Descriptor
end TagCheck
