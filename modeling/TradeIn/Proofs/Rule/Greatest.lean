import TradeIn.Catalog.Rules
import TradeIn.Proofs.Store.Writes

/-!
# The greatest of the listed rules

Settling keeps the listed rule with the greatest stamp, and the rule in effect is the active one with the greatest
revision. Both are picked by one walk over the listed rules.
-/

namespace TradeIn.Rule

variable {notAbove : Rule → Rule → Bool} {listed : List Rule} {rule winner : Rule}

private theorem foldl_greatest_spec (htotal : ∀ a b, notAbove a b = true ∨ notAbove b a = true)
    (htrans : ∀ a b c, notAbove a b = true → notAbove b c = true → notAbove a c = true)
    (rules : List Rule) (first : Rule) :
    let greatest := rules.foldl (fun greatest rule => if notAbove greatest rule then rule else greatest) first
    (greatest = first ∨ greatest ∈ rules) ∧ notAbove first greatest = true ∧
      ∀ rule ∈ rules, notAbove rule greatest = true := by
  have hrefl : ∀ a, notAbove a a = true := fun a => or_self_iff.1 (htotal a a)
  induction rules generalizing first with
  | nil => exact ⟨.inl rfl, hrefl first, by simp⟩
  | cons head rules ih =>
    simp only [List.foldl_cons, List.mem_cons, forall_eq_or_imp]
    by_cases h : notAbove first head = true
    · obtain ⟨hmem, hhead, hrules⟩ := ih head
      rw [if_pos h]
      exact ⟨.inr hmem, htrans _ _ _ h hhead, hhead, hrules⟩
    · obtain ⟨hmem, hfirst, hrules⟩ := ih first
      have hhead : notAbove head first = true := (htotal first head).resolve_left h
      rw [if_neg h]
      refine ⟨?_, hfirst, htrans _ _ _ hhead hfirst, hrules⟩
      rcases hmem with heq | hmem
      · exact .inl heq
      · exact .inr (.inr hmem)

/-- The greatest rule is one of the rules, and no rule is above it. -/
theorem greatest?_spec (htotal : ∀ a b, notAbove a b = true ∨ notAbove b a = true)
    (htrans : ∀ a b c, notAbove a b = true → notAbove b c = true → notAbove a c = true)
    (h : greatest? notAbove listed = some winner) :
    winner ∈ listed ∧ ∀ rule ∈ listed, notAbove rule winner = true := by
  cases listed with
  | nil => cases h
  | cons first rules =>
    obtain ⟨hmem, hfirst, hrules⟩ := foldl_greatest_spec htotal htrans rules first
    rw [greatest?, Option.some.injEq] at h
    rw [h] at hmem hfirst hrules
    constructor
    · rcases hmem with rfl | hmem
      · exact List.mem_cons_self
      · exact List.mem_cons_of_mem _ hmem
    · intro rule hrule
      rcases List.mem_cons.1 hrule with rfl | hrule
      · exact hfirst
      · exact hrules rule hrule

/-- There is a greatest rule unless there are no rules. -/
theorem greatest?_eq_none_iff : greatest? notAbove listed = none ↔ listed = [] := by
  cases listed <;> simp [greatest?]

/-- A rule that is not above another by revision has no later stamp. -/
theorem revisionNotAbove_iff {a b : Rule} : revisionNotAbove a b = true ↔ a.stamp ≤ b.stamp := by
  simp only [revisionNotAbove, decide_eq_true_eq, UInt64.le_iff_toNat_le, stamp]

/-- The order by revision and id is that of pairs. -/
theorem stampNotAbove_iff {a b : Rule} :
    stampNotAbove a b = true ↔ a.stamp < b.stamp ∨ (a.stamp = b.stamp ∧ a.id.toInt ≤ b.id.toInt) := by
  simp only [stampNotAbove, Bool.or_eq_true, Bool.and_eq_true, decide_eq_true_eq, beq_iff_eq,
    UInt64.lt_iff_toNat_lt, stamp, ← UInt64.toNat_inj, Int64.le_iff_toInt_le]

/-- The active rule with the latest stamp is in effect. -/
theorem stamp_le_of_inEffect? (hactive : rule.isActive = true) (hmem : rule ∈ listed)
    (h : inEffect? listed = some winner) :
    winner ∈ listed ∧ winner.isActive = true ∧
      ∀ other ∈ listed, other.isActive = true → other.stamp ≤ winner.stamp := by
  have hfilter : rule ∈ listed.filter fun rule => rule.isActive := List.mem_filter.2 ⟨hmem, hactive⟩
  cases hgreatest : greatest? revisionNotAbove (listed.filter fun rule => rule.isActive) with
  | none =>
    rw [greatest?_eq_none_iff.1 hgreatest] at hfilter
    cases hfilter
  | some found =>
    have hfound : found = winner := by
      simpa [inEffect?, hgreatest] using h
    subst hfound
    obtain ⟨hwinner, hrules⟩ := greatest?_spec
      (fun a b => by simp only [revisionNotAbove_iff]; omega)
      (fun a b c => by simp only [revisionNotAbove_iff]; omega) hgreatest
    obtain ⟨hlisted, hwinnerActive⟩ := List.mem_filter.1 hwinner
    exact ⟨hlisted, hwinnerActive, fun other hother hotherActive =>
      revisionNotAbove_iff.1 (hrules other (List.mem_filter.2 ⟨hother, hotherActive⟩))⟩

/-- There is a rule in effect unless no rule is listed. -/
theorem exists_inEffect?_eq_some (hmem : rule ∈ listed) : ∃ winner, inEffect? listed = some winner := by
  cases listed with
  | nil => cases hmem
  | cons first rules =>
    unfold inEffect?
    cases greatest? revisionNotAbove ((first :: rules).filter fun rule => rule.isActive) with
    | none => exact ⟨first, rfl⟩
    | some winner => exact ⟨winner, rfl⟩

/-- Settling spares one of the active rules, which no other one is later than. -/
theorem exists_winner (hmem : rule ∈ listed) :
    ∃ winner ∈ listed, (∀ other ∈ listed, other.stamp ≤ winner.stamp) ∧
      losers listed = listed.filter fun other => other.id ≠ winner.id := by
  cases hgreatest : greatest? stampNotAbove listed with
  | none =>
    rw [greatest?_eq_none_iff.1 hgreatest] at hmem
    cases hmem
  | some winner =>
    obtain ⟨hwinner, hrules⟩ := greatest?_spec
      (fun a b => by simp only [stampNotAbove_iff]; omega)
      (fun a b c => by simp only [stampNotAbove_iff]; omega) hgreatest
    refine ⟨winner, hwinner, ?_, by rw [losers, hgreatest]⟩
    intro other hother
    have hle := stampNotAbove_iff.1 (hrules other hother)
    omega

/-- What settling makes inactive was listed. -/
theorem losers_sublist (listed : List Rule) : (losers listed).Sublist listed := by
  unfold losers
  split
  · exact List.nil_sublist listed
  · exact List.filter_sublist

/-- So is each single rule. -/
theorem mem_of_mem_losers (h : rule ∈ losers listed) : rule ∈ listed := (losers_sublist listed).subset h

end TradeIn.Rule
