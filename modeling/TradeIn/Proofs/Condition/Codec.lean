import TradeIn.Condition.Evaluation

/-!
# Conditions in JSON

Writing a condition that was read gives back the value it was read from. The other way round is not so: an object that
is kept as it stands and a value that is no object may be written alike. What matters for a price is that a condition
that was written and read again holds for the same answers (`Condition.IsFaithful`).
-/

namespace TradeIn.Condition

/-- Writing what was read gives back the value, however many equalities may be nested. -/
theorem toJson_ofJsonWithin (levels : Nat) (value : Json) : (ofJsonWithin levels value).toJson = value := by
  fun_induction ofJsonWithin levels value with
  | case4 levels left right ihLeft ihRight => rw [toJson, ihLeft, ihRight]
  | case1 | case2 | case3 | case5 | case6 | case7 | case8 => rfl

/-- Writing what was read gives back the value. -/
theorem toJson_ofJson (value : Json) : (ofJson value).toJson = value := toJson_ofJsonWithin maxDepth value

/-- The condition holds for the same answers after it was written and read again. -/
def IsFaithful (condition : Condition) : Prop :=
  ∀ answers, (ofJson condition.toJson).holds answers = condition.holds answers

/-- A condition that was read is faithful. -/
theorem isFaithful_ofJson (value : Json) : (ofJson value).IsFaithful := by
  intro answers
  rw [toJson_ofJson]

/-- The condition of an entry without one is read again as another one, but neither holds for any answers. -/
theorem isFaithful_unrecognized_null : (unrecognized .null).IsFaithful := fun _ => rfl

/-- The answer to a question is faithful. -/
theorem isFaithful_answer (key : String) : (answer key).IsFaithful := fun _ => rfl

/-- A comparison of an answer with a value that is no object is faithful. -/
theorem isFaithful_answerEquals {key : String} {value : Json} (hvalue : value.isObject = false) :
    (answerEquals key value).IsFaithful := by
  intro answers
  cases value with
  | object members => cases hvalue
  | null | bool | number | string | array => rfl

end TradeIn.Condition
