/-! Source text with the position of each character, and the numbers by which what is read from it is
known. Columns count characters, lines end at line feeds, and both start at one. -/
namespace TagCheck

structure Position where
  line : Nat
  column : Nat
  deriving DecidableEq, Repr, Inhabited

namespace Position

def start : Position := ⟨1, 1⟩

/-- The position behind a character. -/
def after (p : Position) (c : Char) : Position :=
  if c = '\n' then ⟨p.line + 1, 1⟩ else ⟨p.line, p.column + 1⟩

end Position

/-- A character of the source and where it stands. -/
structure Glyph where
  char : Char
  pos : Position
  deriving DecidableEq, Repr, Inhabited

def glyphsFrom (p : Position) : List Char → List Glyph
  | [] => []
  | c :: cs => ⟨c, p⟩ :: glyphsFrom (p.after c) cs

/-- The position behind a text that begins at a position. -/
def endFrom (p : Position) (cs : List Char) : Position := cs.foldl Position.after p

/-- Where the rest of a source begins, given where the source ends. -/
def positionOf (eof : Position) : List Glyph → Position
  | [] => eof
  | g :: _ => g.pos

/-- The number of an expression or pattern. An identifier shares the number of the expression or
pattern that it is, and a function that of the expression that it is. -/
abbrev NodeId := Nat

/-- The number of a function: a declaration, an expression, an arrow or a method. -/
abbrev FuncId := Nat

/-- The number of a declared name. -/
abbrev BindingId := Nat

/-- A place in the arena of function shapes. -/
abbrev FuncShapeId := Nat

end TagCheck
