import TagCheck.Proofs.Check.Phrase

/-! A rule as the list of its writes: what it writes in one step after the other, and what it
reports. -/
namespace TagCheck

abbrev Remark := Severity × Code × Position

def Write.report? : Write → Option Remark
  | report severity code _ pos => some (severity, code, pos)
  | type _ _ | reimply _ _ | shape _ _ | forceShape _ _ | touch _ | known _ | function _
  | native _ _ | func _ _ | enter _ | leave => none

namespace Check

theorem trace_bind (m : Check α) (f : α → Check β) (s : CheckState) :
    (m >>= f).trace s = m.trace s ++ (f (m.run s).1).trace (m.run s).2 := by
  change (m.bind f).trace s = _
  induction m generalizing s with
  | done a => rfl
  | read next ih => exact ih s.store s.frames s
  | write w next ih => exact congrArg ((s, w) :: ·) (ih (w.apply s))

section

variable {α : Type}

theorem run_pure (a : α) (s : CheckState) : (pure a : Check α).run s = (a, s) := rfl

theorem trace_pure (a : α) (s : CheckState) : (pure a : Check α).trace s = [] := rfl

theorem run_getStore (s : CheckState) : getStore.run s = (s.store, s) := rfl

theorem trace_getStore (s : CheckState) : getStore.trace s = [] := rfl

theorem run_frame? (s : CheckState) : frame?.run s = (s.frames.head?, s) := rfl

theorem trace_frame? (s : CheckState) : frame?.trace s = [] := rfl

theorem run_put (w : Write) (s : CheckState) : (put w).run s = ((), w.apply s) := rfl

theorem trace_put (w : Write) (s : CheckState) : (put w).trace s = [(s, w)] := rfl

end

end Check

end TagCheck
