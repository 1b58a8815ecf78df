import TradeIn.Proofs.Catalog.Effect

/-!
# What an operation makes active

An operation that runs alone makes no rule active, or it makes one active and leaves at most one of that rule's siblings
active (`Operation.alone_cases`). This does not depend on revisions: settling spares one of the rules that it listed,
whichever that is.
-/

namespace TradeIn

namespace MemoryStore

variable {store after : MemoryStore} {aliases : AliasSet} {kind : String} {rule : Rule} {ids : List Int64}

/-- At most one rule of a kind and some aliases is active when any two of them are one. -/
theorem Keyed.length_activeRules_le_one_iff (h : store.Keyed) :
    (store.activeRules aliases kind).length ≤ 1 ↔
      ∀ a ∈ store.activeRules aliases kind, ∀ b ∈ store.activeRules aliases kind, a = b := by
  have hnodup : (store.activeRules aliases kind).Nodup := h.nodup_listRules _
  cases hlist : store.activeRules aliases kind with
  | nil => simp
  | cons first rest =>
    rw [hlist, List.nodup_cons] at hnodup
    constructor
    · intro hlength a ha b hb
      obtain rfl : rest = [] := List.length_eq_zero_iff.1 (by simpa using hlength)
      rw [List.mem_singleton.1 ha, List.mem_singleton.1 hb]
    · intro hsame
      have hrest : rest = [] := List.eq_nil_iff_forall_not_mem.2 fun rule hrule => hnodup.1 <| by
        rwa [hsame first List.mem_cons_self rule (List.mem_cons_of_mem _ hrule)]
      simp [hrest]

/-- A rule that is active when others were made inactive was active before, and is none of these. -/
theorem Deactivates.holds_of_active (hdeactivates : store.Deactivates ids after) (h : store.Keyed)
    (hrule : after.Holds rule) (hactive : rule.isActive = true) : store.Holds rule ∧ rule.id ∉ ids := by
  rcases hdeactivates.cases h hrule with ⟨hspared, hbefore⟩ | ⟨hinactive, -⟩
  · exact ⟨hbefore, hspared⟩
  · rw [hinactive] at hactive
    cases hactive

/-- Once the losers among some active rules are inactive, at most one of these rules is active. -/
theorem Deactivates.length_activeRules_le
    (hdeactivates : store.Deactivates ((Rule.losers (store.activeRules aliases kind)).map Rule.id) after)
    (h : store.Keyed) : (after.activeRules aliases kind).length ≤ 1 := by
  have hafter := hdeactivates.keyed h
  -- What is active afterwards was listed and is no loser, so it is the winner.
  have hwinner : ∀ rule ∈ after.activeRules aliases kind, rule ∈ store.activeRules aliases kind ∧
      rule.id ∉ (Rule.losers (store.activeRules aliases kind)).map Rule.id := by
    intro rule hrule
    obtain ⟨hholds, hactive, hkind, halias⟩ := hafter.mem_activeRules_iff.1 hrule
    obtain ⟨hbefore, hspared⟩ := hdeactivates.holds_of_active h hholds hactive
    exact ⟨h.mem_activeRules_iff.2 ⟨hbefore, hactive, hkind, halias⟩, hspared⟩
  rw [hafter.length_activeRules_le_one_iff]
  intro a ha b hb
  obtain ⟨haListed, haSpared⟩ := hwinner a ha
  obtain ⟨hbListed, hbSpared⟩ := hwinner b hb
  obtain ⟨winner, -, -, hlosers⟩ := Rule.exists_winner haListed
  have hspared : ∀ rule ∈ store.activeRules aliases kind,
      rule.id ∉ (Rule.losers (store.activeRules aliases kind)).map Rule.id → rule.id = winner.id := by
    intro rule hlisted hloser
    by_contra hne
    refine hloser (List.mem_map_of_mem ?_)
    rw [hlosers]
    exact List.mem_filter.2 ⟨hlisted, by simpa using hne⟩
  have hid : a.id = b.id := (hspared a haListed haSpared).trans (hspared b hbListed hbSpared).symm
  exact (h.mem_activeRules_iff.1 haListed).1.eq_of_id_eq (h.mem_activeRules_iff.1 hbListed).1 hid

end MemoryStore

namespace Catalog

/-- An operation made no rule active. -/
def ActivatesNone (store : MemoryStore) (outcome : Except PricingError Rule × MemoryStore) : Prop :=
  (∀ rule, outcome.2.Holds rule → rule.isActive = true → store.Holds rule) ∧
    ∀ rule, outcome.1 = .ok rule → rule.isActive = false

/-- An operation made one rule active, and left at most one of its siblings active. -/
def ActivatesOne (store : MemoryStore) (outcome : Except PricingError Rule × MemoryStore) : Prop :=
  ∃ activated : Rule,
    (∀ rule, outcome.2.Holds rule → rule.isActive = true → rule = activated ∨ store.Holds rule) ∧
    (outcome.2.activeRules (DeviceType.aliasClass store.deviceTypes activated.typeAlias) activated.kind).length ≤ 1 ∧
    ∀ rule, outcome.1 = .ok rule → activated.SameRecord rule

variable {store : MemoryStore}

/-- An operation makes no rule active, or it makes one active and leaves at most one of its siblings active. -/
theorem Operation.alone_cases (h : store.Keyed) (operation : Operation) :
    ActivatesNone store (operation.alone store) ∨ ActivatesOne store (operation.alone store) := by
  have houtcome := operation.outcome h
  generalize operation.alone store = outcome at houtcome ⊢
  generalize operation.program.writes store = count at houtcome
  obtain ⟨result, after⟩ := outcome
  cases houtcome with
  | refused hrefused => exact .inl ⟨fun _ hrule _ => hrule, by rintro rule ⟨⟩⟩
  | @written written _ hbegins hinactive =>
    refine .inl ⟨fun rule hrule hactive => ?_, ?_⟩
    · rcases (hbegins.follows h).holds_iff.1 hrule with rfl | ⟨-, hheld⟩
      · rw [hinactive] at hactive
        cases hactive
      · exact hheld
    · rintro rule ⟨⟩
      exact hinactive
  | @settled written answer made _ hbegins hactive hsettled hsame hanswer =>
    have hfollows := hbegins.follows h
    have hmade := hbegins.keyed h
    refine .inr ⟨written, fun rule hrule hruleActive => ?_, ?_, ?_⟩
    · obtain ⟨hheld, -⟩ := hsettled.holds_of_active hmade hrule hruleActive
      rcases hfollows.holds_iff.1 hheld with heq | ⟨-, hbefore⟩
      · exact .inl heq
      · exact .inr hbefore
    · have hone := hsettled.length_activeRules_le hmade
      rw [hfollows.deviceTypes_eq] at hone
      exact hone
    · rintro rule ⟨⟩
      exact hsame

end Catalog

end TradeIn
