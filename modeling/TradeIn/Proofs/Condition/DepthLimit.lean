import TradeIn.Proofs.Condition.RoundTrip

/-!
# The depth limit of evaluation

Evaluation counts the equalities above each node, and a single node below 32 of them leaves the whole condition without
a value, whichever operand it is in. No node above that is ever refused: a condition without such a node has the value
that evaluation without a limit gives (`Condition.evaluation_stops_iff`). This concerns conditions however they were
built; those that were read from JSON have no node that deep.
-/

namespace TradeIn.Condition

variable {answers : Answers} {condition : Condition}

/-- Whether the condition holds when nodes of any depth are evaluated. -/
def holdsWithoutLimit (answers : Answers) (condition : Condition) : Bool :=
  condition.isRecognized && (condition.value answers).isTruthy

/-- A condition nests so many equalities exactly if it has a node below them. -/
theorem le_height_iff_exists_hasNode {depth : Nat} :
    depth ≤ condition.height ↔ ∃ node, condition.HasNode depth node := by
  constructor
  · intro hle
    induction condition generalizing depth with
    | answer | literal | unrecognized =>
      obtain rfl : depth = 0 := Nat.le_zero.1 hle
      exact ⟨_, .root _⟩
    | equal left right ihLeft ihRight =>
      cases depth with
      | zero => exact ⟨_, .root _⟩
      | succ depth =>
        -- The node is in the operand that nests more equalities.
        have hoperand : depth ≤ left.height ∨ depth ≤ right.height := by
          rw [height] at hle
          omega
        rcases hoperand with hleft | hright
        · obtain ⟨node, hnode⟩ := ihLeft hleft
          exact ⟨node, hnode.left⟩
        · obtain ⟨node, hnode⟩ := ihRight hright
          exact ⟨node, hnode.right⟩
  · rintro ⟨node, hnode⟩
    induction hnode with
    | root => exact Nat.zero_le _
    | left _ ih =>
      rw [height]
      omega
    | right _ ih =>
      rw [height]
      omega

/-- A condition below so many equalities has no value exactly if one of its nodes is too deep. -/
theorem valueAt_eq_none_iff {start : Nat} :
    valueAt answers start condition = none ↔ ∃ depth node, condition.HasNode depth node ∧ maxDepth < start + depth := by
  have hheight : valueAt answers start condition = none ↔ maxDepth < start + condition.height := by
    rw [valueAt_eq]
    split <;> simp_all
  rw [hheight]
  constructor
  · intro hdeep
    obtain ⟨node, hnode⟩ := le_height_iff_exists_hasNode.1 (Nat.le_refl condition.height)
    exact ⟨_, node, hnode, hdeep⟩
  · rintro ⟨depth, node, hnode, hdeep⟩
    have hle := le_height_iff_exists_hasNode.2 ⟨node, hnode⟩
    omega

/-- Without a value a condition does not hold. -/
theorem holds_of_valueAt_eq_none (h : valueAt answers 0 condition = none) : condition.holds answers = false := by
  rw [holds, h, Option.map_none, Option.getD_none, Bool.and_false]

/-- With a value a condition has that of an evaluation without a limit, and holds if that one says so. -/
theorem holds_of_valueAt_ne_none (h : valueAt answers 0 condition ≠ none) :
    valueAt answers 0 condition = some (condition.value answers) ∧
      condition.holds answers = condition.holdsWithoutLimit answers := by
  have hvalue : valueAt answers 0 condition = some (condition.value answers) := by
    rw [valueAt_eq] at h ⊢
    split at h
    · exact absurd rfl h
    · next hheight => rw [if_neg hheight]
  refine ⟨hvalue, ?_⟩
  rw [holds, hvalue]
  rfl

/-- Any condition has no value exactly if it has a node more than 32 equalities down, and then it does not hold.
Otherwise it has the value, and holds by it, that evaluation without a limit gives. A plain value and an object that is
kept as it stands never hold. -/
theorem evaluation_stops_iff (answers : Answers) (condition : Condition) :
    (valueAt answers 0 condition = none ↔ ∃ depth node, condition.HasNode depth node ∧ maxDepth < depth) ∧
      (valueAt answers 0 condition = none → condition.holds answers = false) ∧
      (valueAt answers 0 condition ≠ none → valueAt answers 0 condition = some (condition.value answers) ∧
        condition.holds answers = condition.holdsWithoutLimit answers) ∧
      ∀ value, (literal value).holds answers = false ∧ (unrecognized value).holds answers = false := by
  refine ⟨?_, holds_of_valueAt_eq_none, holds_of_valueAt_ne_none, fun _ => ⟨rfl, rfl⟩⟩
  have hstops : valueAt answers 0 condition = none ↔
      ∃ depth node, condition.HasNode depth node ∧ maxDepth < 0 + depth := valueAt_eq_none_iff
  simpa only [Nat.zero_add] using hstops

end TradeIn.Condition
