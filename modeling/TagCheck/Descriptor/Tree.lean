import TagCheck.Descriptor.Token
import TagCheck.Shape.Array

/-! The trees that descriptors denote, their canonical text, and the array shapes they stand for.
Parentheses leave no trace in a tree. -/
namespace TagCheck
namespace Descriptor

inductive Tree where
  | name (s : String)
  | arrayOf (inner : Tree) (nonEmpty : Bool)
  | tuple (members : List Tree)

mutual

def Tree.text : Tree → String
  | .name s => s
  | .arrayOf inner nonEmpty => inner.text ++ brackets nonEmpty
  | .tuple members => "<" ++ ",".intercalate (Tree.texts members) ++ ">"

def Tree.texts : List Tree → List String
  | [] => []
  | t :: ts => t.text :: Tree.texts ts

end

/-- The contents of an array of such members. -/
def contentsOf : Member → Contents
  | .elem e => .simple e
  | .shape s => .nested s

mutual

/-- A tree as a member of a tuple: a bare name is an element type, all else is an array. -/
def Tree.toMember : Tree → Member
  | .name s => .elem (.ofName s)
  | .arrayOf inner nonEmpty =>
    .shape ⟨contentsOf inner.toMember, nonEmpty, (Tree.arrayOf inner nonEmpty).text⟩
  | .tuple members => .shape ⟨.tuple (Tree.toMembers members), false, (Tree.tuple members).text⟩

def Tree.toMembers : List Tree → List Member
  | [] => []
  | t :: ts => t.toMember :: Tree.toMembers ts

end

def Tree.toShape? (t : Tree) : Option ArrayShape :=
  match t.toMember with
  | .elem _ => none
  | .shape s => some s

/-- The open groups and tuples around the current place, innermost first. An opener stands only
where no shape is complete yet, so an open group has no content besides. -/
inductive Context where
  | root
  | group (opened : Nat) (outer : Context)
  | tuple (opened : Nat) (members : List Tree) (outer : Context)

/-- The beginning of a descriptor: what is open, and the shape completed last in it. -/
structure Progress where
  context : Context
  current : Option Tree

namespace Progress

/-- Reads one token. -/
def step (p : Progress) : Token × Nat → Except Error Progress
  | (.name s, offset) =>
    match p.current with
    | some _ => .error (.consecutiveTypes s offset)
    | none => .ok { p with current := some (.name s) }
  | (.arrayOf nonEmpty, offset) =>
    match p.current with
    | some t => .ok { p with current := some (.arrayOf t nonEmpty) }
    | none => .error (.missingOperand nonEmpty offset)
  | (.openGroup, offset) =>
    match p.current with
    | some _ => .error (.unexpectedOpen '(' offset)
    | none => .ok ⟨.group offset p.context, none⟩
  | (.openTuple, offset) =>
    match p.current with
    | some _ => .error (.unexpectedOpen '<' offset)
    | none => .ok ⟨.tuple offset [] p.context, none⟩
  | (.comma, offset) =>
    match p.context, p.current with
    | .tuple opened members outer, some t => .ok ⟨.tuple opened (members ++ [t]) outer, none⟩
    | .tuple _ _ _, none => .error (.missingMember ',' offset)
    | _, _ => .error (.commaOutsideTuple offset)
  | (.closeGroup, offset) =>
    match p.context, p.current with
    | .group _ outer, some t => .ok ⟨outer, some t⟩
    | .group opened _, none => .error (.emptyGroup opened)
    | _, _ => .error (.unmatched ')' offset)
  | (.closeTuple, offset) =>
    match p.context, p.current with
    | .tuple _ members outer, some t => .ok ⟨outer, some (.tuple (members ++ [t]))⟩
    | .tuple opened [] _, none => .error (.emptyTuple opened)
    | .tuple _ _ _, none => .error (.missingMember '>' offset)
    | _, _ => .error (.unmatched '>' offset)

def finish (p : Progress) : Except Error Tree :=
  match p.context, p.current with
  | .root, some t => .ok t
  | .root, none => .error .empty
  | .group opened _, _ => .error (.unterminated '(' opened)
  | .tuple opened _ _, _ => .error (.unterminated '<' opened)

end Progress

def treeOfTokens (ts : List (Token × Nat)) : Except Error Tree := do
  (← ts.foldlM Progress.step ⟨.root, none⟩).finish

def parseTree (s : String) : Except Error Tree := do treeOfTokens (← tokens s)

/-- The array shape that a descriptor denotes. -/
def parse (s : String) : Except Error ArrayShape := do
  let t ← parseTree s
  match t.toShape? with
  | some shape => return shape
  | none => throw (.notAnArray t.text)

end Descriptor
end TagCheck
