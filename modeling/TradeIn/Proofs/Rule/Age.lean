import Mathlib.Data.List.Nodup
import TradeIn.Rule.Basic

/-!
# Rules by age

`Rule.notOlder` orders rules by their time and then by their id, so rules of distinct ids have one order from the newest
to the oldest: `Rule.newestFirst` gives the same list for the same rules, however they are arranged before.
-/

namespace TradeIn

namespace Rule

variable {a b c : Rule}

/-- What it means that a rule is not older. -/
theorem notOlder_iff :
    a.notOlder b = true ↔ b.createdAt.toInt < a.createdAt.toInt ∨
      (a.createdAt.toInt = b.createdAt.toInt ∧ b.id.toInt ≤ a.id.toInt) := by
  simp [notOlder, Int64.lt_iff_toInt_lt, Int64.le_iff_toInt_le, Int64.toInt_inj]

/-- Of two rules one is not older than the other. -/
theorem notOlder_of_not (h : ¬a.notOlder b = true) : b.notOlder a = true := by
  rw [notOlder_iff] at h ⊢
  omega

/-- A rule that is not older than another is not older than what that is not older than. -/
theorem notOlder_trans (hab : a.notOlder b = true) (hbc : b.notOlder c = true) : a.notOlder c = true := by
  rw [notOlder_iff] at hab hbc ⊢
  omega

/-- Rules that are not older than each other have the same id. -/
theorem id_eq_of_notOlder (hab : a.notOlder b = true) (hba : b.notOlder a = true) : a.id = b.id := by
  rw [notOlder_iff] at hab hba
  exact Int64.toInt_inj.1 (by omega)

/-- A list of rules from the newest to the oldest. -/
def ByAge (rules : List Rule) : Prop := rules.Pairwise fun a b => a.notOlder b = true

/-- Putting a rule in its place keeps the order. -/
theorem byAge_insertByAge (rule : Rule) {rules : List Rule} (h : ByAge rules) : ByAge (insertByAge rule rules) := by
  induction rules with
  | nil => exact List.pairwise_singleton _ _
  | cons other rest ih =>
    obtain ⟨hother, hrest⟩ := List.pairwise_cons.1 h
    simp only [insertByAge]
    split
    · next hnot =>
      refine List.pairwise_cons.2 ⟨fun next hnext => ?_, h⟩
      rcases List.mem_cons.1 hnext with rfl | hnext
      · exact hnot
      · exact notOlder_trans hnot (hother next hnext)
    · next hnot =>
      refine List.pairwise_cons.2 ⟨fun next hnext => ?_, ih hrest⟩
      rcases List.mem_cons.1 ((insertByAge_perm rule rest).mem_iff.1 hnext) with rfl | hnext
      · exact notOlder_of_not hnot
      · exact hother next hnext

/-- The rules are listed from the newest to the oldest. -/
theorem byAge_newestFirst (rules : List Rule) : ByAge (newestFirst rules) := by
  induction rules with
  | nil => exact .nil
  | cons rule rest ih => exact byAge_insertByAge rule ih

/-- The same rules of distinct ids are listed alike, however they are arranged before. -/
theorem newestFirst_eq_of_perm {rules others : List Rule} (hids : (rules.map Rule.id).Nodup) (h : rules.Perm others) :
    newestFirst rules = newestFirst others := by
  have hperm : (newestFirst rules).Perm (newestFirst others) :=
    (newestFirst_perm rules).trans (h.trans (newestFirst_perm others).symm)
  refine hperm.eq_of_pairwise ?_ (byAge_newestFirst rules) (byAge_newestFirst others)
  intro a b ha hb hab hba
  have hmem : b ∈ rules := h.mem_iff.2 ((newestFirst_perm others).mem_iff.1 hb)
  exact List.inj_on_of_nodup_map hids ((newestFirst_perm rules).mem_iff.1 ha) hmem (id_eq_of_notOlder hab hba)

end Rule

end TradeIn
