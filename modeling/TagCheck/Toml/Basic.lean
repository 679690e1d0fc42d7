import TagCheck.Double.Basic
import TagCheck.Toml.DateTime

/-! Tables of settings, as a TOML document gives them, and how the lines of a document build
them. -/
namespace TagCheck
namespace Toml

/-- How a table came about, which decides what may be added to it. -/
inductive TableKind where
  /-- It has a header of its own. -/
  | header
  /-- It is only named on the way to a header. -/
  | implicit
  /-- It is named by a key with dots. -/
  | dotted
  /-- It is written between braces. -/
  | inline
  deriving DecidableEq, Repr, Inhabited

inductive Value where
  | integer (n : Int)
  | float (x : Double)
  | dateTime (d : DateTime)
  | boolean (b : Bool)
  | string (s : String)
  | array (items : List Value)
  | table (kind : TableKind) (entries : List (String × Value))
  /-- Tables that share a header in double brackets. -/
  | tables (items : List (List (String × Value)))
  deriving Inhabited

abbrev Entries := List (String × Value)

namespace Entries

def replace (es : Entries) (key : String) (v : Value) : Entries :=
  es.map fun e => if e.1 == key then (key, v) else e

/-- Adds an entry whose key is new. -/
def add (es : Entries) (key : String) (v : Value) : Option Entries :=
  match es.lookup key with
  | some _ => none
  | none => some (es ++ [(key, v)])

/-- Adds an entry under the tables that the dots of its key name. A table that exists otherwise
than by dots cannot be added to. -/
def addDotted (key : String) (v : Value) : List String → Entries → Option Entries
  | [], es => es.add key v
  | k :: path, es =>
    match es.lookup k with
    | none => do es.add k (.table .dotted (← addDotted key v path []))
    | some (.table .dotted inner) => do
      return es.replace k (.table .dotted (← addDotted key v path inner))
    | some (.table .implicit inner) =>
      if path.isEmpty then none
      else do return es.replace k (.table .implicit (← addDotted key v path inner))
    | some _ => none

/-- Changes the table under a header, with the tables on the way to it. Of several tables under
one header the last counts. -/
def under (f : Entries → Option Entries) : List String → Entries → Option Entries
  | [], es => f es
  | k :: path, es =>
    match es.lookup k with
    | none => do es.add k (.table .implicit (← under f path []))
    | some (.table .inline _) => none
    | some (.table kind inner) => do return es.replace k (.table kind (← under f path inner))
    | some (.tables items) => do
      let last ← under f path (items.getLastD [])
      return es.replace k (.tables (items.dropLast ++ [last]))
    | some _ => none

/-- A header opens a new table, or one that other headers only passed through. -/
def openTable (key : String) (es : Entries) : Option Entries :=
  match es.lookup key with
  | none => es.add key (.table .header [])
  | some (.table .implicit inner) => some (es.replace key (.table .header inner))
  | some _ => none

def openTables (key : String) (es : Entries) : Option Entries :=
  match es.lookup key with
  | none => es.add key (.tables [[]])
  | some (.tables items) => some (es.replace key (.tables (items ++ [[]])))
  | some _ => none

end Entries
end Toml
end TagCheck
