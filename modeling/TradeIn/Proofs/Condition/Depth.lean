import Mathlib.Algebra.Group.Nat.Even
import TradeIn.Price.Calculation
import TradeIn.Proofs.Condition.Codec

/-!
# Conditions nested too deeply

A condition with a node below 32 equalities holds for no answers. A condition that was read from JSON has no such node:
reading stops before, and keeps the object below 32 equalities as a plain value. So an over-deep condition is evaluated
after all, with the object where reading has stopped compared as it stands. The equalities around it pass the outcome on
to the outermost one, and each that compares it with `false` turns it over. The condition therefore does hold if an odd
number of operands on the way are `false`, although its equalities are nested too deeply.
-/

namespace TradeIn

namespace Json

/-- Whether the value is a boolean. -/
def isBool : Json → Bool
  | bool _ => true
  | _ => false

/-- The condition that two operands are equal, in JSON. -/
def equality (left right : Json) : Json := .object [("==", .array [left, right])]

/-- A boolean equals another value only if that is the same boolean. -/
theorem bool_deepEqual (b : Bool) (value : Json) : (bool b).deepEqual value = (value == .bool b) := by
  cases value with
  | bool c => cases b <;> cases c <;> rfl
  | null | number | string | array | object => rfl

/-- Another value equals a boolean only if it is the same boolean. -/
theorem deepEqual_bool (b : Bool) (value : Json) : value.deepEqual (.bool b) = (value == .bool b) := by
  cases value with
  | bool c => cases b <;> cases c <;> rfl
  | null | number | string | array | object => rfl

end Json

namespace Condition

variable {answers : Answers}

/-- How many equalities are nested in each other. -/
def height : Condition → Nat
  | equal left right => max left.height right.height + 1
  | _ => 0

/-- The value of a condition, however deep its nodes are. -/
def value (answers : Answers) : Condition → Json
  | answer key => (Members.get? answers key).getD .null
  | equal left right => .bool ((left.value answers).deepEqual (right.value answers))
  | literal value => value
  | unrecognized value => value

/-- A condition has no value exactly where one of its nodes is too deep. -/
theorem valueAt_eq (answers : Answers) (depth : Nat) (condition : Condition) :
    valueAt answers depth condition =
      if maxDepth < depth + condition.height then none else some (condition.value answers) := by
  induction condition generalizing depth with
  | answer | literal | unrecognized => rfl
  | equal left right ihLeft ihRight =>
    simp only [valueAt, ihLeft, ihRight, height]
    by_cases hleft : maxDepth < depth + 1 + left.height
    · have hwhole : maxDepth < depth + (max left.height right.height + 1) := by omega
      simp [hleft, hwhole]
    · by_cases hright : maxDepth < depth + 1 + right.height
      · have hwhole : maxDepth < depth + (max left.height right.height + 1) := by omega
        simp [hleft, hright, hwhole]
      · have hwhole : ¬maxDepth < depth + (max left.height right.height + 1) := by omega
        have hdepth : ¬maxDepth < depth := by omega
        simp [hleft, hright, hwhole, hdepth, value]

/-- Reading nests no more equalities than it may. -/
theorem height_ofJsonWithin_le (levels : Nat) (json : Json) : (ofJsonWithin levels json).height ≤ levels := by
  fun_induction ofJsonWithin levels json with
  | case4 levels left right ihLeft ihRight =>
    rw [height]
    omega
  | case1 | case2 | case3 | case5 | case6 | case7 | case8 => exact Nat.zero_le _

/-- A condition that was read is never too deep. -/
theorem holds_ofJson (answers : Answers) (json : Json) :
    (ofJson json).holds answers = ((ofJson json).isRecognized && ((ofJson json).value answers).isTruthy) := by
  have hheight : ¬maxDepth < 0 + (ofJson json).height := by
    have hle := height_ofJsonWithin_le maxDepth json
    rw [ofJson]
    omega
  rw [holds, valueAt_eq, if_neg hheight]
  rfl

/-- Below the last level every value is kept as it stands. -/
theorem value_ofJsonWithin_zero (answers : Answers) (json : Json) : (ofJsonWithin 0 json).value answers = json := by
  cases json <;> rfl

/-- The operands of an equality are read with one level less. -/
theorem ofJsonWithin_equality (levels : Nat) (left right : Json) :
    ofJsonWithin (levels + 1) (.equality left right) =
      .equal (ofJsonWithin levels left) (ofJsonWithin levels right) := by
  simp [Json.equality, ofJsonWithin]

/-- One operand of an equality, beside the other one, in which more equalities are nested. -/
structure Beside where
  operand : Json
  /-- The other operand comes first. -/
  isSecond : Bool
  deriving DecidableEq, Repr

namespace Beside

/-- The equality with the other operand. -/
def around (beside : Beside) (inner : Json) : Json :=
  if beside.isSecond then .equality inner beside.operand else .equality beside.operand inner

/-- Whether the value of the operand equals the value of the other one. -/
def agrees (beside : Beside) (own inner : Json) : Bool :=
  if beside.isSecond then inner.deepEqual own else own.deepEqual inner

/-- A boolean agrees with nothing but itself. -/
theorem agrees_bool (beside : Beside) (own : Json) (b : Bool) : beside.agrees own (.bool b) = (own == .bool b) := by
  rw [agrees, Json.bool_deepEqual, Json.deepEqual_bool, ite_self]

/-- An equality is read as one, and holds if the values of both operands agree. -/
theorem value_around (answers : Answers) (levels : Nat) (beside : Beside) (inner : Json) :
    (ofJsonWithin (levels + 1) (beside.around inner)).isRecognized = true ∧
      (ofJsonWithin (levels + 1) (beside.around inner)).value answers =
        .bool (beside.agrees ((ofJsonWithin levels beside.operand).value answers)
          ((ofJsonWithin levels inner).value answers)) := by
  unfold around agrees
  split <;> rw [ofJsonWithin_equality] <;> exact ⟨rfl, rfl⟩

end Beside

/-- Equalities nested in each other around a value, given by their other operands, the outermost first. -/
def nested (path : List Beside) (inner : Json) : Json := path.foldr Beside.around inner

/-- The values of the other operands, of which the outermost one may nest `levels` equalities. -/
def besideValues (answers : Answers) : (levels : Nat) → List Beside → List Json
  | _, [] => []
  | levels, beside :: path =>
    (ofJsonWithin levels beside.operand).value answers :: besideValues answers (levels - 1) path

/-- Whether the outermost of nested equalities holds, given the values of their other operands and whether the innermost
holds. -/
def outermost (values : List Json) (innermost : Bool) : Bool :=
  values.foldr (fun own inner => own == .bool inner) innermost

/-- Equalities around the value where reading stops hold by the values of their other operands, and by whether the
last of these equals the value as it stands. -/
theorem value_nested (answers : Answers) (path : List Beside) (last : Beside) (inner : Json) :
    (ofJsonWithin (path.length + 1) (nested (path ++ [last]) inner)).isRecognized = true ∧
      (ofJsonWithin (path.length + 1) (nested (path ++ [last]) inner)).value answers =
        .bool (outermost (besideValues answers path.length path) (last.agrees last.operand inner)) := by
  induction path with
  | nil =>
    have hlast := last.value_around answers 0 inner
    rw [value_ofJsonWithin_zero, value_ofJsonWithin_zero] at hlast
    exact hlast
  | cons beside path ih =>
    have haround := beside.value_around answers (path.length + 1) (nested (path ++ [last]) inner)
    rw [ih.2, Beside.agrees_bool] at haround
    exact haround

/-- The outermost equality holds by how many of the values up to the first one that is no boolean are false. -/
theorem outermost_iff (values : List Json) (innermost : Bool) :
    outermost values innermost = true ↔
      (Even ((values.takeWhile Json.isBool).count (.bool false)) ↔
        (∀ value ∈ values, value.isBool = true) ∧ innermost = true) := by
  induction values with
  | nil => simp [outermost]
  | cons own values ih =>
    have hcons : outermost (own :: values) innermost = (own == .bool (outermost values innermost)) := rfl
    rw [hcons, List.forall_mem_cons]
    cases own with
    | bool b =>
      have htake : (Json.bool b :: values).takeWhile Json.isBool = .bool b :: values.takeWhile Json.isBool := rfl
      have hbool : (Json.bool b).isBool = true := rfl
      rw [htake, and_iff_right hbool, beq_iff_eq, Json.bool.injEq]
      cases b with
      | true => rw [eq_comm, ih, List.count_cons_of_ne (by simp)]
      | false =>
        -- A false operand turns the outcome over, and the count from even to odd or from odd to even.
        rw [eq_comm, ← Bool.not_eq_true, ih, List.count_cons_self, Nat.even_add_one, not_iff]
    | null | number | string | array | object =>
      constructor
      · exact fun hequal => nomatch hequal
      · exact fun hparity => nomatch (hparity.1 Even.zero).1.1

/-- A condition of more than 32 nested equalities holds by the values beside the outermost 31 of them, and by whether
the value where reading stops equals the operand beside it. -/
theorem holds_overDeep (answers : Answers) {path : List Beside} (hlength : path.length + 1 = maxDepth) (last : Beside)
    (inner : Json) :
    (ofJson (nested (path ++ [last]) inner)).holds answers =
      outermost (besideValues answers path.length path) (last.agrees last.operand inner) := by
  obtain ⟨hrecognized, hvalue⟩ := value_nested answers path last inner
  rw [hlength] at hrecognized hvalue
  rw [holds_ofJson, ofJson, hrecognized, hvalue]
  rfl

/-- An over-deep condition is inert if none of the operands beside its equalities is false, and the value where reading
stops does not equal the operand beside it. -/
theorem holds_overDeep_eq_false (answers : Answers) {path : List Beside} (hlength : path.length + 1 = maxDepth)
    {last : Beside} {inner : Json} (hvalues : Json.bool false ∉ besideValues answers path.length path)
    (hlast : last.agrees last.operand inner = false) :
    (ofJson (nested (path ++ [last]) inner)).holds answers = false := by
  have hcount : ((besideValues answers path.length path).takeWhile Json.isBool).count (.bool false) = 0 :=
    List.count_eq_zero.2 fun hmem => hvalues ((List.takeWhile_sublist _).subset hmem)
  rw [holds_overDeep answers hlength, ← Bool.not_eq_true, outermost_iff, hcount, hlast]
  simp

/-- A condition whose equalities are nested more than 32 levels deep along `path` and `last`, with any value `inner`
below them, holds exactly if an odd number of the operands beside them are false, not counting any inside the first one
that is no boolean. Where all of them are booleans and the operand `last` equals `inner` as it stands, it holds exactly
if that number is even. -/
theorem holds_overDeep_iff (answers : Answers) {path : List Beside} (hlength : path.length + 1 = maxDepth)
    (last : Beside) (inner : Json) :
    (ofJson (nested (path ++ [last]) inner)).holds answers = true ↔
      (Even (((besideValues answers path.length path).takeWhile Json.isBool).count (.bool false)) ↔
        (∀ value ∈ besideValues answers path.length path, value.isBool = true) ∧
          last.agrees last.operand inner = true) := by
  rw [holds_overDeep answers hlength]
  exact outermost_iff _ _

/-- The equality of two texts, compared with `true` again and again, but once with `false`. -/
private def oneFalse : List Beside := List.replicate 30 ⟨.bool true, true⟩ ++ [⟨.bool false, true⟩]

/-- A single false operand makes a condition of 33 nested equalities hold. -/
theorem holds_overDeep_iff_oneFalse :
    oneFalse.length + 1 = maxDepth ∧
      (ofJson (nested (oneFalse ++ [⟨.bool true, true⟩]) (.equality (.string "a") (.string "b")))).holds [] = true :=
  ⟨rfl, (holds_overDeep_iff [] rfl _ _).2 (by decide +kernel)⟩

/-- A condition whose equalities are nested 33 levels deep can hold, and then its adjustment changes the price. -/
theorem overDeep_changes_price :
    ∃ path left right adjustment, maxDepth ≤ path.length ∧
      adjustment.condition = ofJson (nested path (.equality left right)) ∧
      adjustment.condition.holds [] = true ∧
      PriceModel.price ⟨.finite .zero, .finite .zero, [adjustment], []⟩ [] ≠
        PriceModel.price ⟨.finite .zero, .finite .zero, [], []⟩ [] := by
  refine ⟨oneFalse ++ [⟨.bool true, true⟩], .string "a", .string "b", ⟨_, .finite (.ofNat false 5 (by decide))⟩,
    by decide, rfl, by decide +kernel, by decide +kernel⟩

end Condition

end TradeIn
