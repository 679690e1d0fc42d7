import TagCheck.Diagnostic.Reporter
import TagCheck.Files.Basic
import TagCheck.Toml.Read

/-! What a run of the checker can be told, read from a file, and where that file is looked for. -/
namespace TagCheck

inductive OutputFormat where
  | human | json
  deriving DecidableEq, Repr, Inhabited

structure Config where
  /-- The passes after which the checker gives up. -/
  passLimit : Nat := 10
  /-- How to report a strict comparison of operands of the same known type. -/
  strictEquality : Severity := .error
  showInfo : Bool := false
  format : OutputFormat := .human
  deriving DecidableEq, Repr, Inhabited

/-- A run has at least one pass. -/
def Config.isValid (c : Config) : Bool := c.passLimit != 0

def Config.invalidMessage : String := "pass_limit must be at least 1"

inductive ConfigError where
  | unreadable (path : String) (e : FileError)
  | malformed (path : String)
  | invalid
  deriving DecidableEq, Repr

def ConfigError.message : ConfigError → String
  | unreadable path e => "failed to read " ++ path ++ ": " ++ e.message
  | malformed path => "failed to parse " ++ path ++ ": not a valid configuration"
  | invalid => Config.invalidMessage

namespace Config

open Toml (Value Entries)

/-- A choice is written as its name, or as a table that holds nothing but an empty table or array
of that name. -/
def choice? (options : List (String × α)) : Value → Option α
  | .string s => options.lookup s
  | .table _ [(name, inner)] =>
    match inner with
    | .table _ [] | .array [] => options.lookup name
    | _ => none
  | _ => none

def severity? : Value → Option Severity := choice? [("info", .info), ("error", .error)]

def outputFormat? : Value → Option OutputFormat := choice? [("human", .human), ("json", .json)]

def boolean? : Value → Option Bool
  | .boolean b => some b
  | _ => none

/-- A count of passes is a number of 32 bits. -/
def count? : Value → Option Nat
  | .integer n => if 0 ≤ n ∧ n < Nat.pow 2 32 then some n.toNat else none
  | _ => none

/-- The settings by name. -/
def set? (c : Config) (name : String) (v : Value) : Option Config :=
  match name with
  | "pass_limit" => (count? v).map fun n => { c with passLimit := n }
  | "strict_equality" => (severity? v).map fun s => { c with strictEquality := s }
  | "show_info" => (boolean? v).map fun b => { c with showInfo := b }
  | "format" => (outputFormat? v).map fun f => { c with format := f }
  | _ => none

/-- The names of the settings, in the order in which an array gives them. -/
def names : List String := ["pass_limit", "strict_equality", "show_info", "format"]

def ofEntries? (es : Entries) : Option Config := es.foldlM (fun c e => c.set? e.1 e.2) {}

/-- The settings of the table `check`, which may also be an array of their first values. -/
def ofValue? : Value → Option Config
  | .table _ es => ofEntries? es
  | .array vs => ofEntries? (names.zip vs)
  | _ => none

def ofDocument? : Entries → Option Config
  | [] => some {}
  | [("check", v)] => ofValue? v
  | _ => none

/-- The settings that a text holds. -/
def parse? (s : String) : Option Config := (Toml.parse? s).bind ofDocument?

def fileName : String := "typtag.toml"

variable {m : Type → Type} [Monad m]

def load (fs : FileSystem m) (path : String) : m (Except ConfigError Config) := do
  match ← fs.read path with
  | .error e => return .error (.unreadable path e)
  | .ok s =>
    match parse? s with
    | none => return .error (.malformed path)
    | some c => return if c.isValid then .ok c else .error .invalid

/-- The first of some paths that leads to a file. -/
def firstFile (fs : FileSystem m) : List String → m (Option String)
  | [] => return none
  | p :: ps => do if ← fs.isFile p then return some p else firstFile fs ps

/-- The nearest file of settings in the directory of a file or above it. -/
def discover (fs : FileSystem m) (file : String) : m (Option String) := do
  let directory := match Path.parent? file with
    | none | some "" => "."
    | some d => d
  let start := (← fs.resolve? directory).getD directory
  firstFile fs ((Path.ancestors start).map (Path.join · fileName))

/-- The settings for a file: those of the nearest file of settings, if there is one. -/
def forFile (fs : FileSystem m) (file : String) : m (Except ConfigError Config) := do
  match ← discover fs file with
  | some path => load fs path
  | none => return .ok {}

end Config
end TagCheck
