import TradeIn.Proofs.Store.Rows
import TradeIn.Store.Memory

/-!
# What a call writes

A call to the store in memory writes one rule or none. A written rule takes the next revision as its stamp and
stands under its own id from then on; everything else stays. The revisions tell any two stored rules apart, which
is what makes the last write to a rule recognizable later.
-/

namespace TradeIn

namespace Rule

/-- The number of the write that left the rule as it is. -/
def stamp (rule : Rule) : Nat := rule.revision.toNat

/-- The rule after a write that sets whether it is active. -/
def rewritten (rule : Rule) (active : Bool) (revision : UInt64) : Rule :=
  { rule with isActive := active, revision }

/-- Two rules are the same record at different times: at most activity and revision differ. -/
def SameRecord (before after : Rule) : Prop :=
  after = before.rewritten after.isActive after.revision

/-- A rewritten rule is still the same record. -/
theorem sameRecord_rewritten (rule : Rule) (active : Bool) (revision : UInt64) :
    rule.SameRecord (rule.rewritten active revision) := rfl

/-- A rule is the same record as itself. -/
theorem SameRecord.refl (rule : Rule) : rule.SameRecord rule := rfl

/-- The same record at three times is the same record. -/
theorem SameRecord.trans {a b c : Rule} (hab : a.SameRecord b) (hbc : b.SameRecord c) :
    a.SameRecord c := by
  rw [SameRecord] at hab hbc ⊢
  rw [hbc, hab]
  rfl

/-- A record keeps its id. -/
theorem SameRecord.id_eq {a b : Rule} (h : a.SameRecord b) : b.id = a.id := by rw [h]; rfl

/-- A record keeps its alias. -/
theorem SameRecord.typeAlias_eq {a b : Rule} (h : a.SameRecord b) : b.typeAlias = a.typeAlias := by
  rw [h]; rfl

/-- A record keeps its kind. -/
theorem SameRecord.kind_eq {a b : Rule} (h : a.SameRecord b) : b.kind = a.kind := by rw [h]; rfl

end Rule

/-- The rule that a call wrote, read off its result. -/
def StoreCall.written? : (request : StoreCall) → request.Result → Option Rule
  | .insertRule _, .ok rule => some rule
  | .setRuleActive _ _, .ok rule => some rule
  | .setRuleActiveIf _ _ _, .ok written => written
  | _, _ => none

namespace MemoryStore

/-- The rule stands in the store just as it is. -/
def Holds (store : MemoryStore) (rule : Rule) : Prop := store.rule? rule.id = some rule

/-- How many writes the store has counted. -/
def writeCount (store : MemoryStore) : Nat := store.revision.toNat

/-- The ids of the rules are distinct, and each rule stands under its own. -/
def Keyed (store : MemoryStore) : Prop :=
  (store.rules.map Prod.fst).Nodup ∧ ∀ entry ∈ store.rules, entry.2.id = entry.1

/-- A store as calls leave it: each id once, each rule under its own id, and distinct stamps up to the
number of writes. -/
structure Consistent (store : MemoryStore) : Prop where
  ids_nodup : (store.rules.map Prod.fst).Nodup
  id_eq : ∀ entry ∈ store.rules, entry.2.id = entry.1
  stamp_pos : ∀ rule, store.Holds rule → 0 < rule.stamp
  stamp_le : ∀ rule, store.Holds rule → rule.stamp ≤ store.writeCount
  stamp_injective : ∀ rule other, store.Holds rule → store.Holds other →
    rule.stamp = other.stamp → rule = other

/-- What it means for a call to write a rule: an insertion under a free id, or a stored rule with
another activity. The conditional write needs the revision that is stored. -/
inductive Writes (store : MemoryStore) : StoreCall → Rule → Prop
  | insert {rule : Rule} (hfree : store.rule? rule.id = none) :
    Writes store (.insertRule rule) { rule with revision := store.revision + 1 }
  | set {id : Int64} {rule : Rule} (active : Bool) (hstored : store.rule? id = some rule) :
    Writes store (.setRuleActive id active) (rule.rewritten active (store.revision + 1))
  | setIf {id : Int64} {rule : Rule} (active : Bool) (hstored : store.rule? id = some rule) :
    Writes store (.setRuleActiveIf id active rule.revision)
      (rule.rewritten active (store.revision + 1))

/-- One store follows another by writing a rule: only the place of that rule and the count of writes
have changed. -/
structure Follows (store : MemoryStore) (rule : Rule) (after : MemoryStore) : Prop where
  rule?_eq : ∀ id, after.rule? id = if id = rule.id then some rule else store.rule? id
  revision_eq : after.revision = store.revision + 1
  stamp_eq : rule.revision = after.revision
  deviceTypes_eq : after.deviceTypes = store.deviceTypes

private theorem lookup_map_update (id : Int64) (rule : Rule) (entries : List (Int64 × Rule)) (key : Int64) :
    (entries.map fun entry => if entry.1 = id then (id, rule) else entry).lookup key =
      if key = id then (entries.lookup id).map fun _ => rule else entries.lookup key := by
  induction entries with
  | nil => simp
  | cons entry entries ih =>
    obtain ⟨head, value⟩ := entry
    by_cases hhead : head = id
    · subst hhead
      by_cases hkey : key = head
      · simp [hkey]
      · simp [List.lookup_cons, beq_eq_false_iff_ne.2 hkey, hkey, ih]
    · have hid : id ≠ head := fun h => hhead h.symm
      by_cases hkey : key = head
      · simp [hkey, hhead]
      · simp [List.lookup_cons, beq_eq_false_iff_ne.2 hkey, beq_eq_false_iff_ne.2 hid, hhead, ih]

variable {store after : MemoryStore} {rule other : Rule}

/-- Each rule of a consistent store stands under its own id. -/
theorem Consistent.keyed (h : store.Consistent) : store.Keyed := ⟨h.ids_nodup, h.id_eq⟩

/-- A rule stands under no id but its own. -/
theorem Keyed.id_eq_of_rule? (h : store.Keyed) {id : Int64} (hrule : store.rule? id = some rule) : rule.id = id :=
  h.2 _ (Table.mem_of_get? hrule)

/-- What is found under an id is held. -/
theorem Keyed.holds_of_rule? (h : store.Keyed) {id : Int64} (hrule : store.rule? id = some rule) :
    store.Holds rule := by
  rw [Holds, h.id_eq_of_rule? hrule, hrule]

/-- Rearranged rules are found under the same ids. -/
theorem Keyed.rule?_of_perm (h : store.Keyed) {rules : List (Int64 × Rule)} (hperm : rules.Perm store.rules)
    (id : Int64) : rule? { store with rules } id = store.rule? id := Table.get?_eq_of_perm h.1 hperm id

/-- Rearranged rules are under their ids. -/
theorem Keyed.of_perm (h : store.Keyed) {rules : List (Int64 × Rule)} (hperm : rules.Perm store.rules) :
    Keyed { store with rules } :=
  ⟨(hperm.map Prod.fst).nodup_iff.2 h.1, fun entry hentry => h.2 entry (hperm.mem_iff.1 hentry)⟩

/-- The rules of a store are those that it holds. -/
theorem Keyed.mem_rules_iff (h : store.Keyed) : rule ∈ store.rules.map Prod.snd ↔ store.Holds rule := by
  constructor
  · intro hmem
    obtain ⟨⟨id, stored⟩, hentry, rfl⟩ := List.mem_map.1 hmem
    have hid : stored.id = id := h.2 _ hentry
    rw [Holds, hid]
    exact Table.get?_of_mem h.1 hentry
  · intro hholds
    exact List.mem_map.2 ⟨_, Table.mem_of_get? hholds, rfl⟩

/-- A rule is asked for by its kind and its alias. -/
theorem accepts_ofAliases_iff {aliases : AliasSet} {kind : String} :
    (RuleQuery.ofAliases aliases kind).accepts rule = true ↔
      rule.kind = kind ∧ aliases.contains rule.typeAlias = true := by
  simp [RuleQuery.accepts, RuleQuery.ofAliases]

/-- A store lists exactly the rules that it holds and the query accepts. -/
theorem Keyed.mem_listRules_iff (h : store.Keyed) {query : RuleQuery} :
    rule ∈ store.listRules query ↔ store.Holds rule ∧ query.accepts rule = true := by
  rw [listRules, (Rule.newestFirst_perm _).mem_iff, List.mem_filter, h.mem_rules_iff]

/-- The rules of a store have distinct ids. -/
theorem Keyed.nodup_ids (h : store.Keyed) : ((store.rules.map Prod.snd).map Rule.id).Nodup := by
  have hids : (store.rules.map Prod.snd).map Rule.id = store.rules.map Prod.fst := by
    rw [List.map_map]
    exact List.map_congr_left h.2
  rw [hids]
  exact h.1

/-- The listed rules have distinct ids. -/
theorem Keyed.nodup_ids_listRules (h : store.Keyed) (query : RuleQuery) :
    ((store.listRules query).map Rule.id).Nodup := by
  have hlisted : (((store.rules.map Prod.snd).filter query.accepts).map Rule.id).Nodup :=
    (List.filter_sublist.map Rule.id).nodup h.nodup_ids
  exact ((Rule.newestFirst_perm _).map Rule.id).nodup_iff.2 hlisted

/-- A store lists each rule once. -/
theorem Keyed.nodup_listRules (h : store.Keyed) (query : RuleQuery) : (store.listRules query).Nodup :=
  List.Pairwise.of_map Rule.id (fun _ _ hne heq => hne (congrArg Rule.id heq)) (h.nodup_ids_listRules query)

/-- Two rules of one id that a store holds are one rule. -/
theorem Holds.eq_of_id_eq (hrule : store.Holds rule) (hother : store.Holds other) (hid : rule.id = other.id) :
    rule = other := by
  rw [Holds, hid] at hrule
  rw [Holds, hrule] at hother
  exact Option.some.inj hother

/-- An insertion under a taken id is refused. -/
theorem serve_insertRule_of_some {taken : Rule} (h : store.rule? rule.id = some taken) :
    store.serve (.insertRule rule) = (.error (.duplicate (StoreError.ruleName rule.id)), store) := by
  simp only [serve, insertRule, h]

/-- An insertion under a free id is stamped and stored. -/
theorem serve_insertRule_of_none (h : store.rule? rule.id = none) :
    store.serve (.insertRule rule) =
      (.ok { rule with revision := store.revision + 1 },
        { store with
          rules := (rule.id, { rule with revision := store.revision + 1 }) :: store.rules
          revision := store.revision + 1 }) := by
  simp only [serve, insertRule, h]

/-- No rule is set active under an unknown id. -/
theorem serve_setRuleActive_of_none {id : Int64} (active : Bool) (h : store.rule? id = none) :
    store.serve (.setRuleActive id active) = (.error (.notFound (StoreError.ruleName id)), store) := by
  simp only [serve, setRuleActive, h]

/-- A stored rule is written again with its new activity. -/
theorem serve_setRuleActive_of_some {id : Int64} (active : Bool) (h : store.rule? id = some rule) :
    store.serve (.setRuleActive id active) =
      (.ok (store.updateRule id rule active).1, (store.updateRule id rule active).2) := by
  simp only [serve, setRuleActive, h]

/-- No rule is conditionally set active under an unknown id. -/
theorem serve_setRuleActiveIf_of_none {id : Int64} (active : Bool) (revision : UInt64)
    (h : store.rule? id = none) :
    store.serve (.setRuleActiveIf id active revision) =
      (.error (.notFound (StoreError.ruleName id)), store) := by
  simp only [serve, setRuleActiveIf, h]

/-- A rule with the expected revision is written again with its new activity. -/
theorem serve_setRuleActiveIf_of_eq {id : Int64} (active : Bool) (h : store.rule? id = some rule) :
    store.serve (.setRuleActiveIf id active rule.revision) =
      (.ok (some (store.updateRule id rule active).1), (store.updateRule id rule active).2) := by
  simp only [serve, setRuleActiveIf, h, ne_eq, not_true_eq_false, if_false]

/-- A rule with another revision than the expected one is left alone. -/
theorem serve_setRuleActiveIf_of_ne {id : Int64} (active : Bool) {revision : UInt64}
    (h : store.rule? id = some rule) (hrevision : rule.revision ≠ revision) :
    store.serve (.setRuleActiveIf id active revision) = (.ok none, store) := by
  simp only [serve, setRuleActiveIf, h, ne_eq, hrevision, not_false_eq_true, if_true]

/-- An insertion leaves the rule under its id and counts the write. -/
theorem follows_insertRule (store : MemoryStore) (rule : Rule) :
    store.Follows { rule with revision := store.revision + 1 }
      { store with
        rules := (rule.id, { rule with revision := store.revision + 1 }) :: store.rules
        revision := store.revision + 1 } := by
  refine ⟨fun id => ?_, rfl, rfl, rfl⟩
  by_cases hid : id = rule.id
  · simp [rule?, hid]
  · simp [rule?, hid, List.lookup_cons, beq_eq_false_iff_ne.2 hid]

/-- Writing a rule again leaves its record under its id and counts the write. -/
theorem Keyed.follows_updateRule (h : store.Keyed) {id : Int64} (active : Bool)
    (hstored : store.rule? id = some rule) :
    (store.updateRule id rule active).1 = rule.rewritten active (store.revision + 1) ∧
      store.Follows (rule.rewritten active (store.revision + 1)) (store.updateRule id rule active).2 := by
  have hid : rule.id = id := h.id_eq_of_rule? hstored
  refine ⟨rfl, ?_, rfl, rfl, rfl⟩
  intro key
  rw [show (rule.rewritten active (store.revision + 1)).id = id from hid]
  change (store.rules.map fun entry => if entry.1 = id then (id, rule.rewritten active (store.revision + 1))
    else entry).lookup key = _
  rw [lookup_map_update]
  change store.rules.lookup id = some rule at hstored
  rw [hstored]
  rfl

/-- Writing a rule again leaves all rules under their ids. -/
theorem keyed_updateRule (h : store.Keyed) {id : Int64} (active : Bool)
    (hstored : store.rule? id = some rule) : (store.updateRule id rule active).2.Keyed := by
  have hid : rule.id = id := h.id_eq_of_rule? hstored
  have hkeys : (store.updateRule id rule active).2.rules.map Prod.fst = store.rules.map Prod.fst := by
    simp only [updateRule, List.map_map]
    apply List.map_congr_left
    intro entry _
    simp only [Function.comp_apply]
    split
    · next heq => exact heq.symm
    · rfl
  constructor
  · rw [hkeys]
    exact h.1
  · intro entry hentry
    obtain ⟨old, hold, rfl⟩ := List.mem_map.1 hentry
    split
    · exact hid
    · exact h.2 old hold

/-- A rule under a free id leaves all rules under their ids. -/
theorem keyed_insertRule (h : store.Keyed) (hfree : store.rule? rule.id = none)
    (revision : UInt64) :
    Keyed { store with rules := (rule.id, { rule with revision }) :: store.rules, revision } := by
  constructor
  · refine List.nodup_cons.2 ⟨?_, h.1⟩
    intro hmem
    obtain ⟨entry, hentry, heq⟩ := List.mem_map.1 hmem
    have hne := List.lookup_eq_none_iff.1 hfree entry hentry
    simp [heq] at hne
  · intro entry hentry
    rcases List.mem_cons.1 hentry with rfl | hold
    · rfl
    · exact h.2 entry hold

/-- All that a call does: it writes a rule as it is meant to, or leaves the rules and the count of writes alone. -/
private theorem Keyed.serve_effect (h : store.Keyed) (request : StoreCall) :
    (∃ rule, request.written? (store.serve request).1 = some rule ∧ store.Writes request rule ∧
      store.Follows rule (store.serve request).2 ∧ (store.serve request).2.Keyed) ∨
    (request.written? (store.serve request).1 = none ∧ (store.serve request).2.rules = store.rules ∧
      (store.serve request).2.revision = store.revision) := by
  cases request with
  | insertRule rule =>
    cases hfound : store.rule? rule.id with
    | some taken =>
      rw [serve_insertRule_of_some hfound]
      exact .inr ⟨rfl, rfl, rfl⟩
    | none =>
      rw [serve_insertRule_of_none hfound]
      exact .inl ⟨_, rfl, .insert hfound, follows_insertRule store rule, keyed_insertRule h hfound _⟩
  | setRuleActive id active =>
    cases hfound : store.rule? id with
    | none =>
      rw [serve_setRuleActive_of_none active hfound]
      exact .inr ⟨rfl, rfl, rfl⟩
    | some rule =>
      obtain ⟨heq, hfollows⟩ := h.follows_updateRule active hfound
      rw [serve_setRuleActive_of_some active hfound]
      exact .inl ⟨_, congrArg some heq, .set active hfound, hfollows, keyed_updateRule h active hfound⟩
  | setRuleActiveIf id active revision =>
    cases hfound : store.rule? id with
    | none =>
      rw [serve_setRuleActiveIf_of_none active revision hfound]
      exact .inr ⟨rfl, rfl, rfl⟩
    | some rule =>
      by_cases hrevision : rule.revision = revision
      · subst hrevision
        obtain ⟨heq, hfollows⟩ := h.follows_updateRule active hfound
        rw [serve_setRuleActiveIf_of_eq active hfound]
        exact .inl ⟨_, congrArg some heq, .setIf active hfound, hfollows, keyed_updateRule h active hfound⟩
      · rw [serve_setRuleActiveIf_of_ne active hfound hrevision]
        exact .inr ⟨rfl, rfl, rfl⟩
  | insertDeviceType deviceType =>
    simp only [serve, insertDeviceType]
    split <;> exact .inr ⟨rfl, rfl, rfl⟩
  | findRule | listRules | findDeviceType | listDeviceTypes => exact .inr ⟨rfl, rfl, rfl⟩

/-- A call writes a rule as it is meant to, or leaves the rules and the count of writes alone. -/
theorem Keyed.serve_cases (h : store.Keyed) (request : StoreCall) :
    (∃ rule, request.written? (store.serve request).1 = some rule ∧ store.Writes request rule ∧
      store.Follows rule (store.serve request).2) ∨
    (request.written? (store.serve request).1 = none ∧ (store.serve request).2.rules = store.rules ∧
      (store.serve request).2.revision = store.revision) := by
  rcases h.serve_effect request with ⟨rule, hwritten, hwrites, hfollows, _⟩ | hnone
  · exact .inl ⟨rule, hwritten, hwrites, hfollows⟩
  · exact .inr hnone

/-- A call leaves all rules under their ids. -/
theorem Keyed.serve (h : store.Keyed) (request : StoreCall) : (store.serve request).2.Keyed := by
  rcases h.serve_effect request with ⟨_, _, _, _, hkeyed⟩ | ⟨_, hrules, _⟩
  · exact hkeyed
  · rw [Keyed, hrules]
    exact h

/-- Only a registration changes the device types. -/
theorem deviceTypes_serve (store : MemoryStore) {request : StoreCall}
    (hrequest : ∀ deviceType, request ≠ .insertDeviceType deviceType) :
    (store.serve request).2.deviceTypes = store.deviceTypes := by
  cases request with
  | insertDeviceType deviceType => exact absurd rfl (hrequest deviceType)
  | insertRule rule =>
    simp only [serve, insertRule]
    split <;> rfl
  | setRuleActive id active =>
    simp only [serve, setRuleActive]
    split <;> rfl
  | setRuleActiveIf id active revision =>
    simp only [serve, setRuleActiveIf]
    split
    · rfl
    · split <;> rfl
  | findRule | listRules | findDeviceType | listDeviceTypes => rfl

/-- Device types stay where they are in the order of registration. -/
theorem deviceTypes_prefix_serve (store : MemoryStore) (request : StoreCall) :
    store.deviceTypes <+: (store.serve request).2.deviceTypes := by
  by_cases hregisters : ∃ deviceType, request = .insertDeviceType deviceType
  · obtain ⟨deviceType, rfl⟩ := hregisters
    simp only [serve, insertDeviceType]
    split
    · exact List.prefix_rfl
    · exact List.prefix_append _ _
  · have hsame := deviceTypes_serve store fun deviceType heq => hregisters ⟨deviceType, heq⟩
    exact hsame.symm ▸ List.prefix_rfl

/-- The count of writes does not run past the largest revision when the store answers a call. -/
def HasRoomFor (store : MemoryStore) (request : StoreCall) : Prop :=
  store.writeCount ≤ (store.serve request).2.writeCount

/-- A write counts up as long as another one has a number. -/
theorem Follows.writeCount_le (h : store.Follows rule after) (hroom : store.writeCount + 1 < 2 ^ 64) :
    store.writeCount ≤ after.writeCount := by
  simp only [writeCount, h.revision_eq, UInt64.toNat_add, UInt64.toNat_one] at hroom ⊢
  omega

/-- A write below the largest revision counts as one. -/
theorem Follows.writeCount_eq (h : store.Follows rule after) (hroom : store.writeCount ≤ after.writeCount) :
    after.writeCount = store.writeCount + 1 := by
  have hlt := store.revision.toNat_lt
  simp only [writeCount, h.revision_eq, UInt64.toNat_add, UInt64.toNat_one] at hroom ⊢
  omega

/-- The rule that was written has the number of the write. -/
theorem Follows.stamp_eq_writeCount (h : store.Follows rule after) : rule.stamp = after.writeCount := by
  rw [Rule.stamp, h.stamp_eq, writeCount]

/-- The rule that was written is held. -/
theorem Follows.holds (h : store.Follows rule after) : after.Holds rule := by
  rw [Holds, h.rule?_eq, if_pos rfl]

/-- After a write the store holds the rule that was written and all rules under other ids. -/
theorem Follows.holds_iff (h : store.Follows rule after) :
    after.Holds other ↔ other = rule ∨ (other.id ≠ rule.id ∧ store.Holds other) := by
  rw [Holds, h.rule?_eq]
  by_cases hid : other.id = rule.id
  · simp only [hid, if_true, Option.some.injEq, ne_eq, not_true_eq_false, false_and, or_false]
    exact eq_comm
  · have hne : other ≠ rule := fun heq => hid (congrArg Rule.id heq)
    simp [hid, hne, Holds]

/-- A consistent store is consistent after a write as long as the revisions last. -/
theorem Follows.consistent (hfollows : store.Follows rule after) (h : store.Consistent) (hafter : after.Keyed)
    (hroom : store.writeCount ≤ after.writeCount) : after.Consistent := by
  have hcount := hfollows.writeCount_eq hroom
  have hstamp := hfollows.stamp_eq_writeCount
  -- A rule that was there before has an older stamp than the one that was written.
  have hold : ∀ other, store.Holds other → other.stamp < rule.stamp := by
    intro other hother
    have hle := h.stamp_le other hother
    omega
  refine ⟨hafter.1, hafter.2, ?_, ?_, ?_⟩
  · intro other hother
    rcases hfollows.holds_iff.1 hother with rfl | ⟨_, hother⟩
    · omega
    · exact h.stamp_pos other hother
  · intro other hother
    rcases hfollows.holds_iff.1 hother with rfl | ⟨_, hother⟩
    · omega
    · have hlt := hold other hother
      omega
  · intro a b ha hb hab
    rcases hfollows.holds_iff.1 ha with rfl | ⟨_, ha⟩ <;> rcases hfollows.holds_iff.1 hb with rfl | ⟨_, hb⟩
    · rfl
    · have hlt := hold b hb
      omega
    · have hlt := hold a ha
      omega
    · exact h.stamp_injective a b ha hb hab

/-- A consistent store stays consistent as long as the revisions last. -/
theorem Consistent.serve (h : store.Consistent) {request : StoreCall} (hroom : store.HasRoomFor request) :
    (store.serve request).2.Consistent := by
  have hkeyed := h.keyed.serve request
  rcases h.keyed.serve_cases request with ⟨rule, _, _, hfollows⟩ | ⟨_, hrules, hrevision⟩
  · exact hfollows.consistent h hkeyed hroom
  · have hholds : ∀ other, (store.serve request).2.Holds other ↔ store.Holds other := by
      intro other
      rw [Holds, Holds, rule?, rule?, hrules]
    refine ⟨hkeyed.1, hkeyed.2, ?_, ?_, ?_⟩
    · intro other hother
      exact h.stamp_pos other ((hholds other).1 hother)
    · intro other hother
      rw [writeCount, hrevision]
      exact h.stamp_le other ((hholds other).1 hother)
    · intro a b ha hb
      exact h.stamp_injective a b ((hholds a).1 ha) ((hholds b).1 hb)

/-- A new store has no rules under wrong ids. -/
theorem keyed_empty : Keyed .empty := ⟨List.nodup_nil, by simp [empty]⟩

/-- A new store is consistent, whatever device types it knows. -/
theorem consistent_new (types : List DeviceType) : Consistent ⟨[], types, 0⟩ where
  ids_nodup := List.nodup_nil
  id_eq := by simp
  stamp_pos := by simp [Holds, rule?]
  stamp_le := by simp [Holds, rule?]
  stamp_injective := by simp [Holds, rule?]

end MemoryStore

end TradeIn
