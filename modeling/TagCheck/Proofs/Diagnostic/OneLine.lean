import TagCheck.Check.Assignment
import TagCheck.Check.Operator

/-! Texts without line breaks, among them the words that messages are made of. -/
namespace TagCheck

namespace Text

def OneLine (s : String) : Prop := '\n' ∉ s.toList

instance (s : String) : Decidable (OneLine s) := inferInstanceAs (Decidable ('\n' ∉ s.toList))

@[simp] theorem oneLine_append {a b : String} : OneLine (a ++ b) ↔ OneLine a ∧ OneLine b := by
  simp [OneLine, not_or]

theorem OneLine.append {a b : String} (ha : OneLine a) (hb : OneLine b) : OneLine (a ++ b) :=
  oneLine_append.2 ⟨ha, hb⟩

@[simp] theorem oneLine_repr (n : Nat) : OneLine n.repr := by
  intro hn
  rw [Nat.repr, String.toList_ofList] at hn
  exact absurd (Nat.isDigit_of_mem_toDigits (by decide) (by decide) hn) (by decide)

theorem oneLine_toString (n : Nat) : OneLine (toString n) := oneLine_repr n

theorem oneLine_intercalate {texts : List String} :
    OneLine (",".intercalate texts) ↔ ∀ t ∈ texts, OneLine t := by
  have hcomma : OneLine "," := by decide
  induction texts with
  | nil => simpa using (by decide : OneLine "")
  | cons t texts ih =>
    cases texts with
    | nil => simp
    | cons u texts =>
      rw [String.intercalate_cons_cons, oneLine_append, oneLine_append, List.forall_mem_cons]
      simp only [hcomma, and_true, ih]

end Text

open Text

@[simp] theorem Tag.oneLine_name (t : Tag) : OneLine t.name := by
  cases t <;> decide

@[simp] theorem Ty.oneLine_provenance (ty : Ty) : OneLine ty.provenance := by
  unfold Ty.provenance
  cases ty.origin <;> decide

@[simp] theorem BinaryOp.oneLine_text (op : BinaryOp) : OneLine op.text := by
  cases op <;> decide

@[simp] theorem UnaryOp.oneLine_text (op : UnaryOp) : OneLine op.text := by
  cases op <;> decide

@[simp] theorem UpdateOp.oneLine_text (op : UpdateOp) : OneLine op.text := by
  cases op <;> decide

theorem Check.oneLine_binaryLabel (op : BinaryOp) {what : String} (h : OneLine what) :
    OneLine (binaryLabel op what) := by
  simp +decide [binaryLabel, h]

theorem oneLine_unexpectedType {label : String} (hlabel : OneLine label) (found : Tag)
    {expected : Option String} (h : ∀ e ∈ expected, OneLine e) :
    OneLine (unexpectedType label found expected) := by
  unfold unexpectedType
  split <;> simp +decide [hlabel, h]

theorem oneLine_typeMismatch {label : String} (hlabel : OneLine label) (a b : Tag) :
    OneLine (typeMismatch label a b) := by
  simp +decide [typeMismatch, hlabel]

theorem oneLine_unexpectedShape {label expected found : String} (hlabel : OneLine label)
    (hexpected : OneLine expected) (hfound : OneLine found) :
    OneLine (unexpectedShape label expected found) := by
  simp +decide [unexpectedShape, hlabel, hexpected, hfound]

end TagCheck
