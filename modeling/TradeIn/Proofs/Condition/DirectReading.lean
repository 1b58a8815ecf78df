import TradeIn.Proofs.Condition.Depth

/-!
# Conditions read and evaluated in one pass

A condition is read with one count of levels, downwards, and evaluated with another, upwards. The two limits fit each
other: evaluating a condition that was read gives what one pass over the JSON gives, in which an object 32 equalities
down is a plain value (`Condition.holds_ofJson_eq`). So only reading ever stops; a condition that was read always has
a value.
-/

namespace TradeIn

/-- Whether a value has the shape of a condition: the answer to a question, or the equality of two operands. -/
def Json.isConditionShape : Json → Bool
  | .object [("var", .string _)] => true
  | .object [("==", .array [_, _])] => true
  | _ => false

namespace Condition

/-- The value of an operand `depth` equalities down, in one pass over the JSON. Above the last level an object of the
shape of a condition stands for its value; any other operand stands for itself. -/
def operandValue (answers : Answers) (depth : Nat) : Json → Json
  | .object [("var", .string key)] =>
    if maxDepth ≤ depth then .object [("var", .string key)] else (Members.get? answers key).getD .null
  | .object [("==", .array [left, right])] =>
    if maxDepth ≤ depth then .object [("==", .array [left, right])]
    else .bool ((operandValue answers (depth + 1) left).deepEqual (operandValue answers (depth + 1) right))
  | value => value

/-- Whether the condition holds that a value stands for, in one pass over the JSON. -/
def holdsDirectly (answers : Answers) : Json → Bool
  | .object [("var", .string key)] => ((Members.get? answers key).getD .null).isTruthy
  | .object [("==", .array [left, right])] => (operandValue answers 1 left).deepEqual (operandValue answers 1 right)
  | _ => false

variable {answers : Answers} {depth levels : Nat} {json : Json}

/-- Below the last level an operand stands for itself. -/
theorem operandValue_of_le (hdepth : maxDepth ≤ depth) : operandValue answers depth json = json := by
  unfold operandValue
  split
  · exact if_pos hdepth
  · exact if_pos hdepth
  · rfl

/-- A value of another shape stands for itself on every level. -/
theorem operandValue_of_not_shape (hshape : json.isConditionShape = false) :
    operandValue answers depth json = json := by
  unfold operandValue
  split
  · cases hshape
  · cases hshape
  · rfl

/-- Exactly the values of the two shapes are read as conditions. -/
theorem isRecognized_ofJsonWithin_succ (levels : Nat) (json : Json) :
    (ofJsonWithin (levels + 1) json).isRecognized = json.isConditionShape := by
  unfold Json.isConditionShape
  split
  · simp [ofJsonWithin, isRecognized]
  · simp [ofJsonWithin, isRecognized]
  · next hvar hequal => fun_cases ofJsonWithin (levels + 1) json <;> simp_all [isRecognized]

/-- What is no condition stands for the value that it was read from. -/
theorem value_eq_toJson {condition : Condition} (hplain : condition.isRecognized = false) :
    condition.value answers = condition.toJson := by
  cases condition with
  | answer | equal => cases hplain
  | literal | unrecognized => rfl

/-- The levels that are left when reading and the depth when evaluating add up, so reading and evaluating an operand
gives its value in one pass. -/
theorem value_ofJsonWithin (hdepth : depth + levels = maxDepth) :
    (ofJsonWithin levels json).value answers = operandValue answers depth json := by
  induction levels generalizing depth json with
  | zero => rw [value_ofJsonWithin_zero, operandValue_of_le (by omega)]
  | succ levels ih =>
    have hlevel : ¬maxDepth ≤ depth := by omega
    have hnext : depth + 1 + levels = maxDepth := by omega
    cases hshape : json.isConditionShape with
    | false =>
      have hplain : (ofJsonWithin (levels + 1) json).isRecognized = false := by
        rw [isRecognized_ofJsonWithin_succ, hshape]
      rw [value_eq_toJson hplain, toJson_ofJsonWithin, operandValue_of_not_shape hshape]
    | true =>
      unfold Json.isConditionShape at hshape
      split at hshape
      · simp [ofJsonWithin, value, operandValue, hlevel]
      · simp [ofJsonWithin, value, operandValue, hlevel, ih hnext]
      · cases hshape

/-- A value of one of the two shapes holds as a condition if its value is truthy; no other value holds. -/
theorem holdsDirectly_eq (answers : Answers) (json : Json) :
    holdsDirectly answers json = (json.isConditionShape && (operandValue answers 0 json).isTruthy) := by
  unfold holdsDirectly Json.isConditionShape
  split
  · simp [operandValue, maxDepth]
  · simp [operandValue, maxDepth, Json.isTruthy]
  · rfl

/-- A condition that is read from any JSON holds for any answers exactly if one pass over the JSON says so, and it
always has a value: the depth at which evaluation stops is never reached. -/
theorem holds_ofJson_eq (answers : Answers) (json : Json) :
    (ofJson json).holds answers = holdsDirectly answers json ∧
      valueAt answers 0 (ofJson json) = some (operandValue answers 0 json) := by
  have hvalue : (ofJson json).value answers = operandValue answers 0 json := value_ofJsonWithin (Nat.zero_add maxDepth)
  have hrecognized : (ofJson json).isRecognized = json.isConditionShape := isRecognized_ofJsonWithin_succ 31 json
  have hheight : (ofJson json).height ≤ maxDepth := height_ofJsonWithin_le maxDepth json
  constructor
  · rw [holds_ofJson, hvalue, hrecognized, holdsDirectly_eq]
  · rw [valueAt_eq, if_neg (by omega), hvalue]

end Condition

end TradeIn
