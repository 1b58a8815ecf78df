import TradeIn.Proofs.Condition.DirectReading

/-!
# Conditions that are read back

A value that was read as a condition is written as it was. The other way round, a condition is read back exactly if
reading can give it: with no node of the two supported shapes below 32 equalities, no object in the place of a plain
value, and no plain value or supported shape kept as an object of another shape (`Condition.FitsAt`).
-/

namespace TradeIn.Condition

/-- A node of a condition, `depth` equalities down. -/
inductive HasNode : (condition : Condition) → (depth : Nat) → (node : Condition) → Prop
  | root (condition : Condition) : HasNode condition 0 condition
  | left {left right node : Condition} {depth : Nat} :
      HasNode left depth node → HasNode (equal left right) (depth + 1) node
  | right {left right node : Condition} {depth : Nat} :
      HasNode right depth node → HasNode (equal left right) (depth + 1) node

/-- Whether reading can give the node `depth` equalities down. An object that is kept as it stands has another shape
than a condition, unless reading stops there. -/
def FitsAt (depth : Nat) : Condition → Prop
  | answer _ => depth < maxDepth
  | equal _ _ => depth < maxDepth
  | literal value => value.isObject = false
  | unrecognized value => value.isObject = true ∧ (depth < maxDepth → value.isConditionShape = false)

section Nodes

variable {P : Nat → Condition → Prop}

/-- A condition that is no equality has no other node than itself. -/
theorem forall_hasNode_of_height {condition : Condition} (h : condition.height = 0) :
    (∀ depth node, condition.HasNode depth node → P depth node) ↔ P 0 condition := by
  constructor
  · exact fun hall => hall 0 condition (.root condition)
  · intro hroot depth node hnode
    cases hnode with
    | root => exact hroot
    | left | right => cases h

/-- The nodes of an equality are itself and those of its operands. -/
theorem forall_hasNode_equal {left right : Condition} :
    (∀ depth node, (equal left right).HasNode depth node → P depth node) ↔
      P 0 (equal left right) ∧ (∀ depth node, left.HasNode depth node → P (depth + 1) node) ∧
        ∀ depth node, right.HasNode depth node → P (depth + 1) node := by
  constructor
  · intro hall
    exact ⟨hall 0 _ (.root _), fun depth node hnode => hall _ node hnode.left,
      fun depth node hnode => hall _ node hnode.right⟩
  · rintro ⟨hroot, hleft, hright⟩ depth node hnode
    cases hnode with
    | root => exact hroot
    | left hnode => exact hleft _ node hnode
    | right hnode => exact hright _ node hnode

end Nodes

section Reading

variable {levels : Nat} {value : Json}

/-- Values of the two shapes are read as conditions on every level but the last. -/
theorem isRecognized_ofJsonWithin (levels : Nat) (value : Json) :
    (ofJsonWithin levels value).isRecognized = (decide (0 < levels) && value.isConditionShape) := by
  cases levels with
  | zero => cases value <;> rfl
  | succ levels => simp [isRecognized_ofJsonWithin_succ]

/-- What is not read as a condition is kept as it stands. -/
theorem ofJsonWithin_of_not_isRecognized (h : (ofJsonWithin levels value).isRecognized = false) :
    ofJsonWithin levels value = if value.isObject then unrecognized value else literal value := by
  revert h
  fun_cases ofJsonWithin levels value <;> simp_all [isRecognized, Json.isObject]

/-- A value is kept as a plain one exactly if it is no object. -/
theorem ofJsonWithin_eq_literal_iff : ofJsonWithin levels value = literal value ↔ value.isObject = false := by
  constructor
  · intro h
    have hplain : (ofJsonWithin levels value).isRecognized = false := by
      rw [h]
      rfl
    rw [ofJsonWithin_of_not_isRecognized hplain] at h
    cases hobject : value.isObject with
    | false => rfl
    | true => simp [hobject] at h
  · intro h
    have hshape : value.isConditionShape = false := by
      cases value with
      | object members => cases h
      | null | bool | number | string | array => rfl
    have hplain : (ofJsonWithin levels value).isRecognized = false := by simp [isRecognized_ofJsonWithin, hshape]
    simp [ofJsonWithin_of_not_isRecognized hplain, h]

/-- An object is kept as it stands exactly if it has no shape of a condition, or on the last level. -/
theorem ofJsonWithin_eq_unrecognized_iff : ofJsonWithin levels value = unrecognized value ↔
    value.isObject = true ∧ (0 < levels → value.isConditionShape = false) := by
  have hplain : (ofJsonWithin levels value).isRecognized = false ↔ (0 < levels → value.isConditionShape = false) := by
    rw [isRecognized_ofJsonWithin]
    simp
  rw [← hplain]
  constructor
  · intro h
    have hnot : (ofJsonWithin levels value).isRecognized = false := by
      rw [h]
      rfl
    rw [ofJsonWithin_of_not_isRecognized hnot] at h
    refine ⟨?_, hnot⟩
    cases hobject : value.isObject with
    | true => rfl
    | false => simp [hobject] at h
  · rintro ⟨hobject, hnot⟩
    simp [ofJsonWithin_of_not_isRecognized hnot, hobject]

end Reading

/-- The levels that are left when reading and the depth of the condition add up, so a condition is read back exactly if
each of its nodes fits where it stands. -/
theorem ofJsonWithin_toJson_eq_iff {start levels : Nat} (hstart : start + levels = maxDepth) (condition : Condition) :
    ofJsonWithin levels condition.toJson = condition ↔
      ∀ depth node, condition.HasNode depth node → node.FitsAt (start + depth) := by
  induction condition generalizing start levels with
  | answer key =>
    have hlevels : start < maxDepth ↔ 0 < levels := by omega
    rw [forall_hasNode_of_height rfl, FitsAt, Nat.add_zero, hlevels]
    cases levels <;> simp [toJson, ofJsonWithin]
  | literal value =>
    rw [forall_hasNode_of_height rfl, FitsAt, toJson, ofJsonWithin_eq_literal_iff]
  | unrecognized value =>
    have hlevels : start < maxDepth ↔ 0 < levels := by omega
    rw [forall_hasNode_of_height rfl, FitsAt, toJson, ofJsonWithin_eq_unrecognized_iff, Nat.add_zero, hlevels]
  | equal left right ihLeft ihRight =>
    have hlevels : start < maxDepth ↔ 0 < levels := by omega
    rw [forall_hasNode_equal, FitsAt, Nat.add_zero, hlevels]
    cases levels with
    | zero => simp [toJson, ofJsonWithin]
    | succ levels =>
      have hnext : start + 1 + levels = maxDepth := by omega
      have hread := ofJsonWithin_equality levels left.toJson right.toJson
      rw [Json.equality] at hread
      have hshift : ∀ depth, start + 1 + depth = start + (depth + 1) := by omega
      rw [toJson, hread, equal.injEq, ihLeft hnext, ihRight hnext]
      simp only [hshift, Nat.zero_lt_succ, true_and]

/-- Reading loses nothing, so every value is written again as it was read. A condition is read back from its own JSON
exactly if each of its nodes fits where it stands: a plain value is no object, an answer or an equality lies above 32
equalities, and an object that is kept as it stands has, above that, no shape of a condition. -/
theorem ofJson_toJson_eq_iff :
    (∀ value : Json, (ofJson value).toJson = value) ∧
      ∀ condition : Condition, ofJson condition.toJson = condition ↔
        ∀ depth node, condition.HasNode depth node → node.FitsAt depth := by
  refine ⟨toJson_ofJson, fun condition => ?_⟩
  have hwithin := ofJsonWithin_toJson_eq_iff (Nat.zero_add maxDepth) condition
  simp only [Nat.zero_add] at hwithin
  exact hwithin

end TradeIn.Condition
