import TagCheck.Diagnostic.Render
import TagCheck.Proofs.Check.Diagnostics
import TagCheck.Proofs.Renaming.Invariance

/-! The lines of the text for people. Each diagnostic takes a line to say where it is, and before it
as many lines as its message has. Messages are of one line unless they show a text of the source
that is not: names can be written as strings, and labels show templates as they are written. -/
namespace TagCheck

namespace Text

/-- What stands between the line breaks of a text. After a break that ends it, nothing stands. -/
def lines (s : String) : List String := (s.toList.splitOn '\n').map String.ofList

theorem lines_empty : lines "" = [""] := by decide

theorem lines_break (a b : String) : lines (a ++ "\n" ++ b) = lines a ++ lines b := by
  have hlist : (a ++ "\n" ++ b).toList = a.toList ++ '\n' :: b.toList := by simp
  rw [lines, hlist, List.splitOn_append_cons_self, List.map_append]
  rfl

theorem OneLine.lines {s : String} (h : OneLine s) : lines s = [s] := by
  rw [Text.lines, List.splitOn_eq_singleton h, List.map_singleton, String.ofList_toList]

end Text

open Text

namespace Diagnostic

def finding (d : Diagnostic) : String :=
  d.severity.text ++ "[" ++ d.severity.letter ++ toString d.code.number ++ "]: " ++ d.message

theorem human_eq (file : String) (d : Diagnostic) :
    human file d = d.finding ++ "\n" ++ place file d.pos ++ "\n" :=
  rfl

theorem oneLine_place {file : String} (h : OneLine file) (pos : Option Position) :
    OneLine (place file pos) := by
  cases pos <;> simp +decide [place, h]

theorem oneLine_finding {d : Diagnostic} (h : OneLine d.message) : OneLine d.finding := by
  have hword : OneLine d.severity.text ∧ OneLine d.severity.letter := by
    cases d.severity <;> decide
  simp +decide [finding, hword, h]

/-- It begins with its severity and the first letter of its code. -/
theorem finding_begins (d : Diagnostic) :
    "error[E".toList <+: d.finding.toList ∨ "info[I".toList <+: d.finding.toList := by
  unfold finding
  cases d.severity with
  | error => exact .inl (by simp [Severity.text, Severity.letter])
  | info => exact .inr (by simp [Severity.text, Severity.letter])

theorem place_begins (file : String) (pos : Option Position) :
    "  --> ".toList <+: (place file pos).toList := by
  cases pos <;> simp [place]

theorem lines_humanList {file : String} (h : OneLine file) (ds : List Diagnostic) :
    lines (humanList file ds) =
      (ds.flatMap fun d => lines d.finding ++ [place file d.pos]) ++ [""] := by
  induction ds with
  | nil => exact lines_empty
  | cons d ds ih =>
    have hcons : humanList file (d :: ds) =
        d.finding ++ "\n" ++ (place file d.pos ++ "\n" ++ humanList file ds) := by
      simp [humanList, human_eq, String.append_assoc]
    rw [hcons, lines_break, lines_break, (oneLine_place h d.pos).lines, ih]
    simp

end Diagnostic

def Visit.label? : Visit → Option String
  | leaveFunction _ name _ => some name
  | template _ _ label _ _ => some label
  | _ => none

theorem Visit.oneLine_of_suits {v : Visit} {P : Ident → Prop} (h : v.Suits P)
    (hnames : ∀ i, P i → Text.OneLine i.name) (hlabel : ∀ text ∈ v.label?, Text.OneLine text) :
    v.OneLine := by
  cases v with
  | identifier i role | declare i => exact hnames i h
  | assign n value target | assignDefault n target value => exact fun i hi => hnames i (h i hi)
  | rest n argument | call n callee args tail => exact fun i hi => hnames i (h i hi)
  | leaveFunction pos name result => exact hlabel name rfl
  | template n tag label quasi chained => exact hlabel label rfl
  | _ => trivial

namespace Program

variable {p : Program}

def shownTexts (p : Program) : List String :=
  p.identifiers.map (·.name) ++ p.visits.filterMap Visit.label?

theorem visits_suit (p : Program) : ∀ v ∈ p.visits, v.Suits (· ∈ p.identifiers) := by
  have hmirrors : Mirrors (· ∈ p.identifiers) id p.nodes p.visits
      (Stmt.visitsList (Stmt.renameList id p.body)) :=
    Stmt.mirrorsList ⟨id, fun _ => rfl, fun _ _ => .inl rfl⟩ p.body
  have hsuits : ∀ v v', Visit.Follows (· ∈ p.identifiers) id v v' →
      v.Suits (· ∈ p.identifiers) ∧ True := by
    rintro v v' (h | _)
    · exact ⟨h, trivial⟩
    · exact ⟨trivial, trivial⟩
  exact ((List.forall₂_and_left _ _).1 ((hmirrors.follows p.named_nodes).imp hsuits)).1

theorem oneLine_of_mem_identifiers (h : ∀ text ∈ p.shownTexts, OneLine text) (i : Ident)
    (hi : i ∈ p.identifiers) : OneLine i.name :=
  h _ (List.mem_append_left _ (List.mem_map_of_mem hi))

theorem oneLine_visits (h : ∀ text ∈ p.shownTexts, OneLine text) : ∀ v ∈ p.visits, v.OneLine :=
  fun v hv => Visit.oneLine_of_suits (p.visits_suit v hv) (oneLine_of_mem_identifiers h)
    fun _ htext => h _ (List.mem_append_right _ (List.mem_filterMap.2 ⟨v, hv, htext⟩))

theorem oneLineParams (h : ∀ text ∈ p.shownTexts, OneLine text) (config : Config) :
    (p.checkEnv config).OneLineParams :=
  fun _ _ hf _ hparam i _ himplied =>
    oneLine_of_mem_identifiers h i (mem_identifiers_of_implied? hf hparam himplied)

/-- Messages are of one line if all that they can show is. -/
theorem oneLine_message (h : ∀ text ∈ p.shownTexts, OneLine text) {config : Config} :
    ∀ d ∈ (p.check config).diagnostics, OneLine d.message := by
  let r : Scene (p.checkEnv config) :=
    { node _ := True, func _ := True, return_ _ := True, plain := True
      params _ := oneLineParams h config }
  have hvisits : ∀ v ∈ p.visits, v.On r :=
    fun v hv => ⟨visits_in p.has_everything v hv, fun _ => oneLine_visits h v hv⟩
  obtain ⟨rep, hrecords, -, hdiagnostics⟩ := exists_records hvisits
  intro d hd
  rw [hdiagnostics] at hd
  rcases Config.mem_append_overrun.1 hd with hd | ⟨-, rfl⟩
  · exact hrecords.messages d hd trivial
  · simp +decide [Config.overrun]

/-- A diagnostic stands on the lines of what was found and on one that begins with an arrow: on two
lines, if no text that is shown has a line break. -/
theorem lines_of_diagnostics (p : Program) (config : Config) {file : String}
    (hfile : OneLine file) :
    let ds := (p.check config).diagnostics
    lines (Diagnostic.humanList file ds) =
        (ds.flatMap fun d => lines d.finding ++ [Diagnostic.place file d.pos]) ++ [""] ∧
      (∀ d ∈ ds,
        ("error[E".toList <+: d.finding.toList ∨ "info[I".toList <+: d.finding.toList) ∧
          "  --> ".toList <+: (Diagnostic.place file d.pos).toList) ∧
      ((∀ text ∈ p.shownTexts, OneLine text) →
        lines (Diagnostic.humanList file ds) =
          (ds.flatMap fun d => [d.finding, Diagnostic.place file d.pos]) ++ [""]) := by
  intro ds
  refine ⟨Diagnostic.lines_humanList hfile ds,
    fun d _ => ⟨d.finding_begins, Diagnostic.place_begins file d.pos⟩, fun htexts => ?_⟩
  rw [Diagnostic.lines_humanList hfile, List.flatMap_congr fun d hd => ?_]
  rw [(Diagnostic.oneLine_finding (oneLine_message htexts d hd)).lines, List.singleton_append]

theorem lines_of_diagnostics_of_mismatch :
    ∃ p, Program.ofSource "function f(a) \x7b return a; \x7d var x = 1; x = f(\"b\");" = .ok p ∧
      (p.check {}).diagnostics.length = 6 ∧
      lines (Diagnostic.humanList "a.js" (p.check {}).diagnostics) =
        ((p.check {}).diagnostics.flatMap fun d => [d.finding, Diagnostic.place "a.js" d.pos])
          ++ [""] := by
  obtain ⟨p, hp, htest⟩ := exists_of_any
    "function f(a) \x7b return a; \x7d var x = 1; x = f(\"b\");"
    (fun p => (p.check {}).diagnostics.length == 6 && p.shownTexts.all fun t => decide (OneLine t))
    (by decide +kernel)
  rw [Bool.and_eq_true, beq_iff_eq, List.all_eq_true] at htest
  exact ⟨p, hp, htest.1, (lines_of_diagnostics p {} (by decide)).2.2
    fun t ht => of_decide_eq_true (htest.2 t ht)⟩

/-- A function is reported under the key that it is given to, which may be a string with a line
break in it. -/
theorem lines_of_broken_key :
    ∃ p, Program.ofSource "(\x7b\"a\\nb\": function () \x7b\x7d\x7d);" = .ok p ∧
      (p.check {}).diagnostics.length = 1 ∧
      lines (Diagnostic.humanList "test.js" (p.check {}).diagnostics) =
        ["info[I101]: Function 'a", "b' shape: '() => undef'", "  --> test.js:1:11", ""] := by
  obtain ⟨p, hp, htest⟩ := exists_of_any "(\x7b\"a\\nb\": function () \x7b\x7d\x7d);"
    (fun p => (p.check {}).diagnostics.length == 1 &&
      lines (Diagnostic.humanList "test.js" (p.check {}).diagnostics) ==
        ["info[I101]: Function 'a", "b' shape: '() => undef'", "  --> test.js:1:11", ""])
    (by decide +kernel)
  rw [Bool.and_eq_true, beq_iff_eq, beq_iff_eq] at htest
  exact ⟨p, hp, htest⟩

end Program

end TagCheck
