import TagCheck.Program.Basic
import TagCheck.SourceError

/-! Expressions that stand for what an assignment gives values to. -/
namespace TagCheck

private def notATarget (pos : Position) : SourceError := ⟨.badDestructuringTarget, pos⟩

mutual

/-- Reads an expression as a pattern of the same nodes. -/
def Expr.toPattern : Expr → Except SourceError Pattern
  | .ident i => return .ident i
  | .array n elements => return .array n (← Element.toPatterns elements)
  | .object n props => return .object n (← Property.toPatterns n.pos props)
  | .assign n target value => return .withDefault n target value
  | e => throw (notATarget e.pos)

def Element.toPatterns : List Element → Except SourceError (List (Option Pattern))
  | [] => return []
  | .hole :: es => return none :: (← Element.toPatterns es)
  | .item e :: es => do
    let p ← e.toPattern
    return some p :: (← Element.toPatterns es)
  | .spread n argument :: es => do
    let p ← argument.toPattern
    return some (.rest n p) :: (← Element.toPatterns es)

def Property.toPatterns (pos : Position) : List Property → Except SourceError (List PatternProp)
  | [] => return []
  | .keyValue (.name key) value _ :: ps => do
    let p ← value.toPattern
    return .prop key p :: (← Property.toPatterns pos ps)
  | .spread n argument :: ps => do
    let p ← argument.toPattern
    return .rest (.rest n p) :: (← Property.toPatterns pos ps)
  | _ :: _ => throw (notATarget pos)

end

end TagCheck
