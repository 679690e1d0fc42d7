import Mathlib.Data.List.Forall2
import TagCheck.Check.Run

/-! Two runs side by side. Rules are alike if they look at the same things and write the same, up to
how a report is worded and weighed. Main statement: runs of alike rules go through the same stores,
pass by pass, and what they report stays related if one report keeps it related. -/
namespace TagCheck

/-- What is said by a report, besides its code and its place. -/
abbrev Wording := Severity × String

/-- Two writes that differ at most in the wording of a report. -/
inductive Write.Alike (M : Code → Position → Wording → Wording → Prop) : Write → Write → Prop
  | same (w : Write) (h : ∀ severity code message pos, w ≠ .report severity code message pos) :
    Alike M w w
  | report {severity severity' : Severity} {code : Code} {message message' : String}
    {pos : Position} (h : M code pos (severity, message) (severity', message')) :
    Alike M (.report severity code message pos) (.report severity' code message' pos)

namespace Check

variable {M : Code → Position → Wording → Wording → Prop}

/-- Two rules that go the same way for the same store and the same open functions. -/
inductive Alike (M : Code → Position → Wording → Wording → Prop) {α : Type} :
    Check α → Check α → Prop
  | done (a : α) : Alike M (.done a) (.done a)
  | read {next next' : Store → List FuncShapeId → Check α}
    (h : ∀ store frames, Alike M (next store frames) (next' store frames)) :
    Alike M (.read next) (.read next')
  | write {w w' : Write} {next next' : Check α} (hw : w.Alike M w') (h : Alike M next next') :
    Alike M (.write w next) (.write w' next')

namespace Alike

theorem pure (a : α) : Alike M (pure a : Check α) (pure a) := .done a

theorem look (f : Store → List FuncShapeId → α) :
    Alike M (.read fun store frames => .done (f store frames))
      (.read fun store frames => .done (f store frames)) :=
  .read fun _ _ => .done _

theorem bind {m m' : Check α} {f f' : α → Check β} (h : Alike M m m')
    (hf : ∀ a, Alike M (f a) (f' a)) : Alike M (m >>= f) (m' >>= f') := by
  induction h with
  | done a => exact hf a
  | read _ ih => exact .read ih
  | write hw _ ih => exact .write hw ih

theorem put {w w' : Write} (h : w.Alike M w') : Alike M (put w) (put w') := .write h (.done ())

theorem report {severity severity' : Severity} {code : Code} {message message' : String}
    {pos : Position} (h : M code pos (severity, message) (severity', message')) :
    Alike M (report severity code message pos) (Check.report severity' code message' pos) :=
  put (.report h)

theorem forM {l : List α} {l' : List β} {f : α → Check PUnit} {f' : β → Check PUnit}
    (h : List.Forall₂ (fun a b => Alike M (f a) (f' b)) l l') :
    Alike M (l.forM f) (l'.forM f') := by
  induction h with
  | nil => exact .pure _
  | cons hab _ ih => exact .bind hab fun _ => ih

/-- A rule is like itself if a wording may always stay as it is. -/
theorem refl (hM : ∀ code pos x, M code pos x x) (m : Check α) : Alike M m m := by
  induction m with
  | done a => exact .done a
  | read next ih => exact .read ih
  | write w next ih =>
    refine .write ?_ ih
    cases w with
    | report severity code message pos => exact .report (hM _ _ _)
    | _ => exact .same _ (by simp)

end Alike
end Check

@[simp] theorem Write.alike_report {M : Code → Position → Wording → Wording → Prop}
    {severity severity' : Severity} {code : Code} {message message' : String} {pos : Position} :
    (report severity code message pos).Alike M (report severity' code message' pos) ↔
      M code pos (severity, message) (severity', message') := by
  refine ⟨fun h => ?_, .report⟩
  cases h with
  | same w hw => exact absurd rfl (hw severity code message pos)
  | report h => exact h

@[simp] theorem Write.alike_self {M : Code → Position → Wording → Wording → Prop} {w : Write}
    (h : ∀ severity code message pos, w ≠ .report severity code message pos) : w.Alike M w :=
  .same w h

namespace Check

theorem lawful : LawfulMonad Check := LawfulMonad.mk' Check
  (by
    intro α m
    change m.bind done = m
    induction m with
    | done a => rfl
    | read next ih => exact congrArg read (funext fun store => funext fun frames => ih store frames)
    | write w next ih => exact congrArg (write w) ih)
  (fun _ _ => rfl)
  (by
    intro α β γ m f g
    change (m.bind f).bind g = m.bind fun a => (f a).bind g
    induction m with
    | done a => rfl
    | read next ih => exact congrArg read (funext fun store => funext fun frames => ih store frames)
    | write w next ih => exact congrArg (write w) ih)

attribute [local instance] lawful

@[simp] theorem alike_pure {a b : α} : Alike M (pure a : Check α) (pure b) ↔ a = b := by
  refine ⟨fun h => ?_, fun h => h ▸ .pure a⟩
  cases h
  rfl

@[simp] theorem alike_put {w w' : Write} : Alike M (put w) (put w') ↔ w.Alike M w' := by
  refine ⟨fun h => ?_, .put⟩
  cases h with
  | write hw _ => exact hw

@[simp] theorem alike_put_bind {w w' : Write} {f f' : Unit → Check α} :
    Alike M (put w >>= f) (put w' >>= f') ↔ w.Alike M w' ∧ Alike M (f ()) (f' ()) := by
  refine ⟨fun h => ?_, fun h => .write h.1 h.2⟩
  cases h with
  | write hw hf => exact ⟨hw, hf⟩

@[simp] theorem alike_map_put {w w' : Write} {g g' : Unit → α} :
    Alike M (g <$> put w) (g' <$> put w') ↔ w.Alike M w' ∧ g () = g' () := by
  rw [map_eq_pure_bind, map_eq_pure_bind, alike_put_bind, alike_pure]

@[simp] theorem alike_getStore_bind {f f' : Store → Check α} :
    Alike M (getStore >>= f) (getStore >>= f') ↔ ∀ store, Alike M (f store) (f' store) := by
  refine ⟨fun h store => ?_, fun h => .read fun store _ => h store⟩
  cases h with
  | read h => exact h store []

@[simp] theorem alike_map_getStore {g g' : Store → α} :
    Alike M (g <$> getStore) (g' <$> getStore) ↔ ∀ store, g store = g' store := by
  rw [map_eq_pure_bind, map_eq_pure_bind, alike_getStore_bind]
  simp only [alike_pure]

@[simp] theorem alike_ite {c : Prop} [Decidable c] {m m' n n' : Check α} :
    Alike M (if c then m else n) (if c then m' else n') ↔
      (c → Alike M m m') ∧ (¬ c → Alike M n n') := by
  split <;> simp [*]

end Check

/-- A relation between reporters that alike reports and the start of a pass keep. -/
structure Reporter.Keeps (M : Code → Position → Wording → Wording → Prop)
    (Q : Reporter → Reporter → Prop) : Prop where
  emit : ∀ {r r' severity severity' code message message' pos}, Q r r' →
    M code pos (severity, message) (severity', message') →
    Q (r.emit severity code message (some pos)) (r'.emit severity' code message' (some pos))
  beginPass : ∀ {r r'} (pass : Nat), Q r r' → Q (r.beginPass pass) (r'.beginPass pass)

structure CheckState.Agree (Q : Reporter → Reporter → Prop) (s s' : CheckState) : Prop where
  store : s.store = s'.store
  frames : s.frames = s'.frames
  reporter : Q s.reporter s'.reporter

namespace CheckState.Agree

variable {M : Code → Position → Wording → Wording → Prop} {Q : Reporter → Reporter → Prop}
  {s s' : CheckState}

theorem write (hQ : Reporter.Keeps M Q) {w w' : Write} (hw : w.Alike M w') (h : Agree Q s s') :
    Agree Q (w.apply s) (w'.apply s') := by
  cases hw with
  | report hM => exact ⟨h.store, h.frames, hQ.emit h.reporter hM⟩
  | same w hw =>
    cases w with
    | report severity code message pos => exact absurd rfl (hw severity code message pos)
    | enter id => exact ⟨h.store, by simp [Write.apply, h.frames], h.reporter⟩
    | leave => exact ⟨h.store, by simp [Write.apply, h.frames], h.reporter⟩
    | _ => exact ⟨by simp [Write.apply, h.store], h.frames, h.reporter⟩

theorem run (hQ : Reporter.Keeps M Q) {m m' : Check α} (hm : Check.Alike M m m')
    (h : Agree Q s s') : (m.run s).1 = (m'.run s').1 ∧ Agree Q (m.run s).2 (m'.run s').2 := by
  induction hm generalizing s s' with
  | done a => exact ⟨rfl, h⟩
  | read hnext ih =>
    rw [Check.run, Check.run, ← h.store, ← h.frames]
    exact ih _ _ h
  | write hw _ ih => exact ih (h.write hQ hw)

theorem foldl_visit (hQ : Reporter.Keeps M Q) {env env' : CheckEnv} {vs vs' : List Visit}
    (hvs : List.Forall₂ (fun v v' => Check.Alike M (v.apply env) (v'.apply env')) vs vs')
    (h : Agree Q s s') :
    Agree Q (vs.foldl (Check.visit env) s) (vs'.foldl (Check.visit env') s') := by
  induction hvs generalizing s s' with
  | nil => exact h
  | cons hv _ ih => exact ih (h.run hQ hv).2

theorem beginPass (hQ : Reporter.Keeps M Q) (h : Agree Q s s') :
    Agree Q s.beginPass s'.beginPass := by
  have hstore : s.beginPass.store = s'.beginPass.store := by
    simp [CheckState.beginPass, h.store]
  exact ⟨hstore, rfl, by simpa [CheckState.beginPass, h.store] using hQ.beginPass _ h.reporter⟩

/-- Both runs need the same passes. -/
theorem passes (hQ : Reporter.Keeps M Q) {env env' : CheckEnv} {vs vs' : List Visit}
    (hvs : List.Forall₂ (fun v v' => Check.Alike M (v.apply env) (v'.apply env')) vs vs')
    (limit : Nat) (h : Agree Q s s') :
    (Check.passes env vs limit s).1 = (Check.passes env' vs' limit s').1 ∧
    Agree Q (Check.passes env vs limit s).2 (Check.passes env' vs' limit s').2 := by
  induction limit generalizing s s' with
  | zero => exact ⟨rfl, h⟩
  | succ limit ih =>
    have hpass : Agree Q (Check.pass env vs s) (Check.pass env' vs' s') :=
      (h.beginPass hQ).foldl_visit hQ hvs
    simp only [Check.passes, ← hpass.store]
    split
    · exact ih hpass
    · exact ⟨rfl, hpass⟩

end CheckState.Agree
end TagCheck
