import TradeIn.Proofs.Condition.Depth
import TradeIn.Proofs.Json.Equality

/-!
# The order of operands

Equality of well formed values is reflexive and symmetric, although the members of one object are only looked up in the
other. So the operands of an equality may change places: a condition in which any equalities have their operands
swapped has the same value at every depth, and also none where the other one has none.
-/

namespace TradeIn.Condition

/-- The second condition is the first one with the operands of some of its equalities swapped. -/
inductive Reordered : Condition → Condition → Prop
  | answer (key : String) : Reordered (answer key) (answer key)
  | literal (value : Json) : Reordered (literal value) (literal value)
  | unrecognized (value : Json) : Reordered (unrecognized value) (unrecognized value)
  | kept {left right left' right' : Condition} :
      Reordered left left' → Reordered right right' → Reordered (equal left right) (equal left' right')
  | swapped {left right left' right' : Condition} :
      Reordered left left' → Reordered right right' → Reordered (equal left right) (equal right' left')

variable {answers : Answers} {condition other : Condition}

/-- The operands of a well formed equality are well formed. -/
theorem wellFormed_toJson_equal {left right : Condition} :
    (equal left right).toJson.WellFormed ↔ left.toJson.WellFormed ∧ right.toJson.WellFormed := by
  simp [toJson, Json.WellFormed, Json.MembersWellFormed, Json.ItemsWellFormed, Members.Sorted]

/-- The value of a well formed condition for well formed answers is well formed. -/
theorem wellFormed_value (hanswers : answers.toJson.WellFormed) (h : condition.toJson.WellFormed) :
    (condition.value answers).WellFormed := by
  cases condition with
  | answer key =>
    cases hanswer : Members.get? answers key with
    | none => simp [value, hanswer, Json.WellFormed]
    | some given =>
      have hgiven : given.WellFormed := hanswers.get? hanswer
      simpa [value, hanswer] using hgiven
  | equal left right => simp [value, Json.WellFormed]
  | literal plain => exact h
  | unrecognized kept => exact h

/-- Swapping operands nests no equality deeper. -/
theorem Reordered.height_eq (h : condition.Reordered other) : other.height = condition.height := by
  induction h with
  | answer | literal | unrecognized => rfl
  | kept _ _ ihLeft ihRight => rw [height, height, ihLeft, ihRight]
  | swapped _ _ ihLeft ihRight => rw [height, height, ihLeft, ihRight, max_comm]

/-- Swapping operands makes a condition of the same shape. -/
theorem Reordered.isRecognized_eq (h : condition.Reordered other) : other.isRecognized = condition.isRecognized := by
  cases h <;> rfl

/-- Swapping operands does not change the value. -/
theorem Reordered.value_eq (h : condition.Reordered other) (hanswers : answers.toJson.WellFormed)
    (hcondition : condition.toJson.WellFormed) : other.value answers = condition.value answers := by
  induction h with
  | answer | literal | unrecognized => rfl
  | kept _ _ ihLeft ihRight =>
    obtain ⟨hleft, hright⟩ := wellFormed_toJson_equal.1 hcondition
    rw [value, value, ihLeft hleft, ihRight hright]
  | swapped _ _ ihLeft ihRight =>
    obtain ⟨hleft, hright⟩ := wellFormed_toJson_equal.1 hcondition
    rw [value, value, ihLeft hleft, ihRight hright,
      Json.deepEqual_comm (wellFormed_value hanswers hright) (wellFormed_value hanswers hleft)]

/-- Swapping operands changes the value at no depth, nor whether there is one. -/
theorem Reordered.valueAt_eq (h : condition.Reordered other) (hanswers : answers.toJson.WellFormed)
    (hcondition : condition.toJson.WellFormed) (depth : Nat) :
    valueAt answers depth other = valueAt answers depth condition := by
  rw [Condition.valueAt_eq, Condition.valueAt_eq, h.height_eq, h.value_eq hanswers hcondition]

/-- Every value equals itself, two values equal each other in both orders, and a condition holds for the same answers
after the operands of any of its equalities have been swapped, however deep they are nested. -/
theorem holds_eq_of_reordered {a b : Json} (ha : a.WellFormed) (hb : b.WellFormed)
    (hanswers : answers.toJson.WellFormed) (hcondition : condition.toJson.WellFormed) (h : condition.Reordered other) :
    a.deepEqual a = true ∧ a.deepEqual b = b.deepEqual a ∧ other.holds answers = condition.holds answers := by
  refine ⟨Json.deepEqual_self ha, Json.deepEqual_comm ha hb, ?_⟩
  rw [holds, holds, h.isRecognized_eq, h.valueAt_eq hanswers hcondition]

/-- The answer to the question for the storage. -/
private def storageAnswers : Answers := [("gb", .ofInt64 256)]

/-- The storage compared with a binary64 number, and the outcome with a boolean. -/
private def storageCondition : Condition :=
  .equal (.equal (.answer "gb") (.literal (.number (.binary (.ofNat false 256 (by decide)))))) (.literal (.bool true))

/-- The same with the operands of both equalities swapped. -/
private def swappedStorageCondition : Condition :=
  .equal (.literal (.bool true)) (.equal (.literal (.number (.binary (.ofNat false 256 (by decide))))) (.answer "gb"))

/-- The swapped condition on the storage holds as the original one does. -/
theorem holds_eq_of_reordered_storage :
    storageAnswers.toJson.WellFormed ∧ storageCondition.toJson.WellFormed ∧
      storageCondition.Reordered swappedStorageCondition ∧
      swappedStorageCondition.holds storageAnswers = true := by
  have hanswers : storageAnswers.toJson.WellFormed := by
    simp [storageAnswers, Answers.toJson, Json.ofInt64, Json.WellFormed, Json.MembersWellFormed, Members.Sorted]
  have hcondition : storageCondition.toJson.WellFormed := by
    simp only [storageCondition, wellFormed_toJson_equal]
    simp [toJson, Json.WellFormed, Json.MembersWellFormed, Members.Sorted]
  have hreordered : storageCondition.Reordered swappedStorageCondition :=
    .swapped (.swapped (.answer _) (.literal _)) (.literal _)
  have hholds := (holds_eq_of_reordered hanswers hanswers hanswers hcondition hreordered).2.2
  exact ⟨hanswers, hcondition, hreordered, hholds.trans (by decide +kernel)⟩

end TradeIn.Condition
