import TagCheck.Proofs.Check.Alike
import TagCheck.Text.Letter

/-! Reports under other names. Information is given once, so whether a report is new depends on what
the earlier ones say. Main statement: reports that differ in names only are new in one run just when
they are new in the other, since a report can be taken apart into the name and the text around
it. -/
namespace TagCheck

namespace Reporter

/-- Wordings that tell the same reports apart. -/
structure Faithful (M : Code → Position → Wording → Wording → Prop) : Prop where
  severity {code : Code} {pos : Position} {x x' : Wording} : M code pos x x' → x.1 = x'.1
  message {code : Code} {pos : Position} {x x' y y' : Wording} : M code pos x x' → M code pos y y' →
    y.1 = .info → (x.2 = y.2 ↔ x'.2 = y'.2)

inductive Reworded (M : Code → Position → Wording → Wording → Prop) : Diagnostic → Diagnostic → Prop
  | report {severity severity' : Severity} {code : Code} {message message' : String}
    {pos : Position} (pass : Nat) (h : M code pos (severity, message) (severity', message')) :
    Reworded M ⟨severity, code, message, some pos, pass⟩ ⟨severity', code, message', some pos, pass⟩

def AgreeUpTo (M : Code → Position → Wording → Wording → Prop) (r r' : Reporter) : Prop :=
  List.Forall₂ (Reworded M) r.entries r'.entries ∧ r.pass = r'.pass

variable {M : Code → Position → Wording → Wording → Prop}

theorem states_congr (hM : Faithful M) {d d' : Diagnostic} (hd : Reworded M d d') {code : Code}
    {pos : Position} {message message' : String}
    (h : M code pos (.info, message) (.info, message')) :
    d.states code message (some pos) = d'.states code message' (some pos) := by
  obtain @⟨severity, severity', code', old, old', pos', pass, hd⟩ := hd
  by_cases hplace : code' = code ∧ pos' = pos
  · obtain ⟨rfl, rfl⟩ := hplace
    have hsame : (old == message) = (old' == message') := by
      rw [Bool.eq_iff_iff, beq_iff_eq, beq_iff_eq]
      exact hM.message hd h rfl
    simp only [Diagnostic.states, hsame]
  · rw [Bool.eq_iff_iff]
    simp only [Diagnostic.states, Bool.and_eq_true, beq_iff_eq, Option.some.injEq, hplace,
      false_and]

theorem any_states_congr (hM : Faithful M) {ds ds' : List Diagnostic}
    (hds : List.Forall₂ (Reworded M) ds ds') {code : Code} {pos : Position}
    {message message' : String} (h : M code pos (.info, message) (.info, message')) :
    ds.any (·.states code message (some pos)) = ds'.any (·.states code message' (some pos)) := by
  induction hds with
  | nil => rfl
  | cons hd _ ih => simp only [List.any_cons, states_congr hM hd h, ih]

theorem keeps_agreeUpTo (hM : Faithful M) : Keeps M (AgreeUpTo M) where
  emit := by
    intro r r' severity severity' code message message' pos hr h
    obtain rfl : severity = severity' := hM.severity h
    have hnew : List.Forall₂ (Reworded M)
        (r.entries ++ [⟨severity, code, message, some pos, r.pass⟩])
        (r'.entries ++ [⟨severity, code, message', some pos, r'.pass⟩]) :=
      List.rel_append hr.1 (.cons (hr.2 ▸ .report r.pass h) .nil)
    cases severity with
    | error => exact ⟨hnew, hr.2⟩
    | info =>
      simp only [emit, any_states_congr hM hr.1 h]
      split
      · exact hr
      · exact ⟨hnew, hr.2⟩
  beginPass := by
    intro r r' pass hr
    refine ⟨List.rel_filter ?_ hr.1, rfl⟩
    rintro d d' ⟨pass, h⟩
    have hseverity := hM.severity h
    simp only at hseverity
    simp [hseverity]

end Reporter

inductive Subject where
  /-- The value at a place. -/
  | value
  | binding
  | parameter
  | function
  /-- Something is wrong. -/
  | fault
  deriving DecidableEq

namespace Code

def subject : Code → Subject
  | .arrayShape | .strictEqualityKnownMatchingTypes => .value
  | .implyVarTagged | .implyVarInferred | .reimplyUndefTagged | .reimplyUndefInferred => .binding
  | .implyParamFromArgTagged | .implyParamFromArgInferred => .parameter
  | .funcShape => .function
  | _ => .fault

theorem subject_eq_fault_iff {c : Code} : c.subject = .fault ↔
    c ∉ [arrayShape, strictEqualityKnownMatchingTypes, implyVarTagged, implyVarInferred,
      reimplyUndefTagged, reimplyUndefInferred, implyParamFromArgTagged,
      implyParamFromArgInferred, funcShape] := by
  cases c <;> decide

def opening : Code → String
  | .implyVarTagged | .implyVarInferred => "Implying "
  | .reimplyUndefTagged | .reimplyUndefInferred => "Re-implying "
  | .implyParamFromArgTagged | .implyParamFromArgInferred => "Implying parameter "
  | .funcShape => "Function '"
  | _ => ""

end Code

/-- The text that may stand behind a name. -/
def Subject.Closes : Subject → String → Prop
  | .binding, text => text.toList.head? = some ' ' ∧ text.toList.count ' ' = 3
  | .parameter, text => text.toList.head? = some ' '
  | _, _ => True

/-- Old names and the new ones for them. A function goes by a name that its place gives it. -/
structure Naming where
  binding : String → String → Prop
  function : Position → String → String → Prop

namespace Naming

/-- The names that a report may mention. The name of a parameter has no blanks. -/
def Names (N : Naming) (pos : Position) : Subject → String → String → Prop
  | .value, x, y => x = "" ∧ y = ""
  | .binding, x, y => N.binding x y
  | .parameter, x, y => N.binding x y ∧ ' ' ∉ x.toList ∧ ' ' ∉ y.toList
  | .function, x, y => N.function pos x y
  | .fault, _, _ => False

/-- The same report, with a new name for the old one. Errors may say anything. -/
def Rewords (N : Naming) (code : Code) (pos : Position) (x y : Wording) : Prop :=
  x.1 = y.1 ∧
    (code.subject = .fault ∧ x.1 = .error ∨
      ∃ old new text, N.Names pos code.subject old new ∧ code.subject.Closes text ∧
        x.2 = code.opening ++ (old ++ text) ∧ y.2 = code.opening ++ (new ++ text))

/-- One new name for each old name, and no new name for two of them. A function has one name. -/
structure Unambiguous (N : Naming) : Prop where
  binding {x x' y y' : String} : N.binding x x' → N.binding y y' → (x = y ↔ x' = y')
  function {pos : Position} {x x' y y' : String} : N.function pos x x' → N.function pos y y' →
    x = y ∧ x' = y'

theorem eq_nil_of_eq_append {c : Char} {r s e : List Char} (hr : r.head? = some c)
    (h : r = e ++ s) (he : c ∉ e) : e = [] := by
  cases e with
  | nil => rfl
  | cons d e =>
    subst h
    simp only [List.cons_append, List.head?_cons, Option.some.injEq] at hr
    simp [hr] at he

/-- Names and the texts behind them can be told apart if neither text goes on inside the other
name. -/
theorem append_eq_append_iff {x y s t : String} (hs : s.toList.head? = some ' ')
    (ht : t.toList.head? = some ' ')
    (hx : ∀ e, x.toList = y.toList ++ e → t.toList = e ++ s.toList → ' ' ∉ e)
    (hy : ∀ e, y.toList = x.toList ++ e → s.toList = e ++ t.toList → ' ' ∉ e) :
    x ++ s = y ++ t ↔ x = y ∧ s = t := by
  refine ⟨fun h => ?_, by rintro ⟨rfl, rfl⟩; rfl⟩
  rw [← String.toList_inj, String.toList_append, String.toList_append,
    List.append_eq_append_iff] at h
  rcases h with ⟨e, hname, htext⟩ | ⟨e, hname, htext⟩
  · obtain rfl := eq_nil_of_eq_append hs htext (hy e hname htext)
    exact ⟨String.toList_inj.1 (by simpa using hname.symm), String.toList_inj.1 htext⟩
  · obtain rfl := eq_nil_of_eq_append ht htext (hx e hname htext)
    exact ⟨String.toList_inj.1 (by simpa using hname), String.toList_inj.1 htext.symm⟩

theorem append_eq_append_iff_of_count {x y s t : String} (hs : Subject.binding.Closes s)
    (ht : Subject.binding.Closes t) : x ++ s = y ++ t ↔ x = y ∧ s = t := by
  refine append_eq_append_iff hs.1 ht.1 (fun e _ htext => ?_) fun e _ htext => ?_
  · have hcount := ht.2
    rw [htext, List.count_append, hs.2] at hcount
    exact List.count_eq_zero.1 (by omega)
  · have hcount := hs.2
    rw [htext, List.count_append, ht.2] at hcount
    exact List.count_eq_zero.1 (by omega)

theorem append_eq_append_iff_of_notMem {x y s t : String} (hs : Subject.parameter.Closes s)
    (ht : Subject.parameter.Closes t) (hx : ' ' ∉ x.toList) (hy : ' ' ∉ y.toList) :
    x ++ s = y ++ t ↔ x = y ∧ s = t := by
  refine append_eq_append_iff hs ht (fun e hname _ he => hx ?_) fun e hname _ he => hy ?_
  · exact hname ▸ List.mem_append_right _ he
  · exact hname ▸ List.mem_append_right _ he

theorem append_right_inj (s : String) {t u : String} : s ++ t = s ++ u ↔ t = u := by
  rw [← String.toList_inj, String.toList_append, String.toList_append, List.append_right_inj,
    String.toList_inj]

variable {N : Naming}

theorem Names.append_eq_append_iff (hN : N.Unambiguous) {pos : Position} {subject : Subject}
    {x x' y y' s t : String} (hx : N.Names pos subject x x') (hy : N.Names pos subject y y')
    (hs : subject.Closes s) (ht : subject.Closes t) : x ++ s = y ++ t ↔ x' ++ s = y' ++ t := by
  cases subject with
  | value =>
    obtain ⟨rfl, rfl⟩ := hx
    obtain ⟨rfl, rfl⟩ := hy
    rfl
  | binding =>
    rw [append_eq_append_iff_of_count hs ht, append_eq_append_iff_of_count hs ht,
      hN.binding hx hy]
  | parameter =>
    obtain ⟨hx, hold, hnew⟩ := hx
    obtain ⟨hy, hold', hnew'⟩ := hy
    rw [append_eq_append_iff_of_notMem hs ht hold hold',
      append_eq_append_iff_of_notMem hs ht hnew hnew', hN.binding hx hy]
  | function =>
    obtain ⟨rfl, rfl⟩ := hN.function hx hy
    rw [append_right_inj, append_right_inj]
  | fault => exact hx.elim

theorem Unambiguous.faithful (hN : N.Unambiguous) : Reporter.Faithful N.Rewords where
  severity h := h.1
  message := by
    rintro code pos x x' y y' ⟨-, hx⟩ ⟨-, hy⟩ hinfo
    rcases hy with ⟨-, herror⟩ | ⟨b, b', t, hb, ht, hy, hy'⟩
    · simp [hinfo] at herror
    rcases hx with ⟨hfault, -⟩ | ⟨a, a', s, ha, hs, hx, hx'⟩
    · rw [hfault] at hb
      exact hb.elim
    rw [hx, hy, hx', hy', append_right_inj, append_right_inj]
    exact ha.append_eq_append_iff hN hb hs ht

theorem rewords_error {code : Code} (h : code.subject = .fault) (pos : Position)
    (message message' : String) : N.Rewords code pos (.error, message) (.error, message') :=
  ⟨rfl, .inl ⟨h, rfl⟩⟩

theorem rewords_of_names (code : Code) (severity : Severity) {pos : Position}
    {x x' text : String} (hnames : N.Names pos code.subject x x')
    (htext : code.subject.Closes text) :
    N.Rewords code pos (severity, code.opening ++ (x ++ text))
      (severity, code.opening ++ (x' ++ text)) :=
  ⟨rfl, .inr ⟨x, x', text, hnames, htext, rfl, rfl⟩⟩

/-- A report about a value names nothing. -/
theorem rewords_arrayShape (pos : Position) (message : String) :
    N.Rewords .arrayShape pos (.info, message) (.info, message) := by
  simpa [Code.opening] using rewords_of_names .arrayShape .info ⟨rfl, rfl⟩ trivial

theorem rewords_comparison (severity : Severity) (pos : Position) (message : String) :
    N.Rewords .strictEqualityKnownMatchingTypes pos (severity, message) (severity, message) := by
  simpa [Code.opening] using
    rewords_of_names .strictEqualityKnownMatchingTypes severity ⟨rfl, rfl⟩ trivial

theorem count_provenance (ty : Ty) : ty.provenance.toList.count ' ' = 0 := by
  cases h : ty.origin <;> simp [Ty.provenance, Origin.label, h]

theorem count_name (t : Tag) : t.name.toList.count ' ' = 0 := by
  cases t <;> decide

theorem rewords_imply {x x' : String} (h : N.binding x x') (ty : Ty) (pos : Position) :
    N.Rewords (if ty.isTagged then .implyVarTagged else .implyVarInferred) pos
      (.info, "Implying " ++ x ++ " as " ++ ty.provenance ++ " '" ++ ty.tag.name ++ "'")
      (.info, "Implying " ++ x' ++ " as " ++ ty.provenance ++ " '" ++ ty.tag.name ++ "'") := by
  have htext : Subject.binding.Closes
      (" as " ++ (ty.provenance ++ (" '" ++ (ty.tag.name ++ "'")))) := by
    refine ⟨?_, ?_⟩
    · simp [String.toList_append]
    · simp [String.toList_append, count_provenance, count_name]
  simp only [String.append_assoc]
  split
  · exact rewords_of_names .implyVarTagged .info h htext
  · exact rewords_of_names .implyVarInferred .info h htext

theorem rewords_reimply {x x' : String} (h : N.binding x x') (ty : Ty) (pos : Position) :
    N.Rewords (if ty.isTagged then .reimplyUndefTagged else .reimplyUndefInferred) pos
      (.info, "Re-implying " ++ x ++ " " ++ (if ty.isTagged then "with " else "to ")
        ++ ty.provenance ++ " '" ++ ty.tag.name ++ "'")
      (.info, "Re-implying " ++ x' ++ " " ++ (if ty.isTagged then "with " else "to ")
        ++ ty.provenance ++ " '" ++ ty.tag.name ++ "'") := by
  have htext (word : String) (hword : word.toList.count ' ' = 1) : Subject.binding.Closes
      (" " ++ (word ++ (ty.provenance ++ (" '" ++ (ty.tag.name ++ "'"))))) := by
    refine ⟨?_, ?_⟩
    · simp [String.toList_append]
    · simp [String.toList_append, count_provenance, count_name, hword]
  simp only [String.append_assoc]
  split
  · exact rewords_of_names .reimplyUndefTagged .info h (htext "with " (by decide))
  · exact rewords_of_names .reimplyUndefInferred .info h (htext "to " (by decide))

theorem rewords_parameter {x x' : String} (h : N.binding x x') (hx : ' ' ∉ x.toList)
    (hx' : ' ' ∉ x'.toList) (ty : Ty) (described : String) (pos : Position) :
    N.Rewords (if ty.isTagged then .implyParamFromArgTagged else .implyParamFromArgInferred) pos
      (.info, "Implying parameter " ++ x ++ " from argument, as " ++ ty.provenance ++ " '"
        ++ ty.tag.name ++ "'" ++ described)
      (.info, "Implying parameter " ++ x' ++ " from argument, as " ++ ty.provenance ++ " '"
        ++ ty.tag.name ++ "'" ++ described) := by
  have htext : Subject.parameter.Closes (" from argument, as " ++
      (ty.provenance ++ (" '" ++ (ty.tag.name ++ ("'" ++ described))))) := by
    simp [Subject.Closes, String.toList_append]
  simp only [String.append_assoc]
  split
  · exact rewords_of_names .implyParamFromArgTagged .info ⟨h, hx, hx'⟩ htext
  · exact rewords_of_names .implyParamFromArgInferred .info ⟨h, hx, hx'⟩ htext

theorem rewords_function {x x' : String} {pos : Position} (h : N.function pos x x')
    (description : String) :
    N.Rewords .funcShape pos
      (.info, "Function '" ++ x ++ "' shape: '" ++ description ++ "'")
      (.info, "Function '" ++ x' ++ "' shape: '" ++ description ++ "'") := by
  simp only [String.append_assoc]
  exact rewords_of_names .funcShape .info h trivial

end Naming
end TagCheck
