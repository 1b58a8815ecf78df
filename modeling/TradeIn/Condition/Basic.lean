import TradeIn.Json.Reader

/-!
# Conditions

An adjustment applies when its condition holds. In JSON a condition is `{"var": key}`, the answer to a question, or
`{"==": [left, right]}`, the equality of two operands; an operand is a condition or any value that is no object.
Reading a condition never fails: another object, and any object below 32 levels of equality, is kept as it stands,
so that writing the condition gives back the value that was read.
-/

namespace TradeIn

/-- A condition, or an operand of one. -/
inductive Condition where
  /-- The answer to the question with this key. -/
  | answer (key : String)
  /-- Whether two operands are equal. -/
  | equal (left right : Condition)
  /-- A value that is no object. -/
  | literal (value : Json)
  /-- An object of any other shape. -/
  | unrecognized (value : Json)
  deriving DecidableEq, Repr

namespace Condition

/-- How many equalities may be nested in a condition. -/
def maxDepth : Nat := 32

/-- The condition that compares the answer to a question with a value. -/
def answerEquals (key : String) (value : Json) : Condition := .equal (.answer key) (.literal value)

/-- Read a condition that may nest `levels` more equalities. -/
def ofJsonWithin : (levels : Nat) → Json → Condition
  | 0, .object members => .unrecognized (.object members)
  | levels + 1, .object [(name, operand)] =>
    match operand with
    | .string key => if name = "var" then .answer key else .unrecognized (.object [(name, operand)])
    | .array [left, right] =>
      if name = "==" then .equal (ofJsonWithin levels left) (ofJsonWithin levels right)
      else .unrecognized (.object [(name, operand)])
    | _ => .unrecognized (.object [(name, operand)])
  | _, .object members => .unrecognized (.object members)
  | _, value => .literal value

/-- Read a condition. -/
def ofJson (value : Json) : Condition := ofJsonWithin maxDepth value

/-- Write a condition. -/
def toJson : Condition → Json
  | answer key => .object [("var", .string key)]
  | equal left right => .object [("==", .array [left.toJson, right.toJson])]
  | literal value => value
  | unrecognized value => value

/-- Whether the condition is one of the two supported shapes. -/
def isRecognized : Condition → Bool
  | answer _ => true
  | equal _ _ => true
  | _ => false

/-- Read a condition from a text, which fails only where the text is no JSON. -/
def reader : Reader Condition := fun parsed => (parsed.toJson).map ofJson

end Condition

end TradeIn
