import TradeIn.Condition.Basic
import TradeIn.Json.Comparison

/-!
# Evaluating conditions

Every condition holds or does not hold for given answers. A question without an answer has the value null. A
literal or an unrecognized object holds for no answers, and neither does a condition with a node below the 32
equalities that a condition may nest.
-/

namespace TradeIn

/-- The answers to a questionnaire by the keys of the questions. -/
abbrev Answers := Members Json

namespace Answers

/-- Read answers, which may be any values. -/
def reader : Reader Answers := .members .json

/-- Write answers. -/
def toJson (answers : Answers) : Json := .object answers

end Answers

namespace Condition

/-- The value of a node below `depth` equalities; none if it or a node in it lies too deep. -/
def valueAt (answers : Answers) : (depth : Nat) → Condition → Option Json
  | depth, answer key => if maxDepth < depth then none else some ((Members.get? answers key).getD .null)
  | depth, literal value => if maxDepth < depth then none else some value
  | depth, unrecognized value => if maxDepth < depth then none else some value
  | depth, equal left right =>
    if maxDepth < depth then none
    else do
      let leftValue ← valueAt answers (depth + 1) left
      let rightValue ← valueAt answers (depth + 1) right
      return .bool (leftValue.deepEqual rightValue)

/-- Whether the condition holds for the answers. -/
def holds (answers : Answers) (condition : Condition) : Bool :=
  condition.isRecognized && ((valueAt answers 0 condition).map Json.isTruthy).getD false

end Condition

end TradeIn
