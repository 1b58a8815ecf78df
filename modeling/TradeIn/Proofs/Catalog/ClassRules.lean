import TradeIn.Proofs.Catalog.Effect
import TradeIn.Proofs.Rule.Age
import TradeIn.Quote.Pricing

/-!
# The rules of a class

The rules of one kind under the aliases of one device type, without the numbers of their last writes, are the
`unstampedRules` of a store. An operation that is addressed to another class leaves them as they are. One that is
addressed to the class changes them in a way that depends on nothing else in the store: the rule that it activates has a
later stamp than all others, so it is the only active one of the class afterwards.
-/

namespace TradeIn

namespace Rule

/-- A rule without the number of its last write. -/
def unstamped (rule : Rule) : Rule := { rule with revision := 0 }

/-- A rule whose activity is set by its id and whether it was active. -/
def withActivity (active : Int64 → Bool → Bool) (rule : Rule) : Rule :=
  { rule with isActive := active rule.id rule.isActive }

/-- Of some rules only the one under an id is made active. -/
def onlyActive (id : Int64) (rules : List Rule) : List Rule := rules.map (withActivity fun other _ => other == id)

/-- Then at most one rule is active. -/
theorem length_active_onlyActive_le (id : Int64) {rules : List Rule} (hids : (rules.map Rule.id).Nodup) :
    ((onlyActive id rules).filter Rule.isActive).length ≤ 1 := by
  have hcount := List.nodup_iff_count_le_one.1 hids id
  rw [List.count, List.countP_map, List.countP_eq_length_filter] at hcount
  rw [onlyActive, List.filter_map, List.length_map]
  exact hcount

/-- Age does not depend on revisions. -/
theorem insertByAge_unstamped (rule : Rule) (rules : List Rule) :
    insertByAge rule.unstamped (rules.map unstamped) = (insertByAge rule rules).map unstamped := by
  induction rules with
  | nil => rfl
  | cons other rest ih =>
    have hage : rule.unstamped.notOlder other.unstamped = rule.notOlder other := rfl
    simp only [List.map_cons, insertByAge, hage, ih]
    split <;> rfl

/-- So rules are listed alike without their revisions. -/
theorem newestFirst_unstamped (rules : List Rule) :
    newestFirst (rules.map unstamped) = (newestFirst rules).map unstamped := by
  induction rules with
  | nil => rfl
  | cons rule rest ih =>
    change insertByAge rule.unstamped (newestFirst (rest.map unstamped)) = _
    rw [ih, insertByAge_unstamped]
    rfl

/-- Where at most one listed rule is active, which one is in effect does not depend on revisions. -/
theorem inEffect?_unstamped {listed : List Rule} (hone : (listed.filter Rule.isActive).length ≤ 1) :
    inEffect? (listed.map unstamped) = (inEffect? listed).map unstamped := by
  have hactive : (listed.map unstamped).filter Rule.isActive = (listed.filter Rule.isActive).map unstamped := by
    rw [List.filter_map]
    rfl
  have hhead : (listed.map unstamped).head? = listed.head?.map unstamped := List.head?_map
  have hgreatest : greatest? revisionNotAbove ((listed.filter Rule.isActive).map unstamped) =
      (greatest? revisionNotAbove (listed.filter Rule.isActive)).map unstamped := by
    match listed.filter Rule.isActive, hone with
    | [], _ => rfl
    | [rule], _ => rfl
  change (greatest? revisionNotAbove ((listed.map unstamped).filter Rule.isActive) <|> (listed.map unstamped).head?) = _
  rw [hactive, hgreatest, hhead, inEffect?]
  cases greatest? revisionNotAbove (listed.filter Rule.isActive) <;> rfl

end Rule

namespace MemoryStore

variable {store after : MemoryStore} {aliases : AliasSet} {kind : String} {rule target : Rule} {ids : List Int64}

/-- The rules of a kind under some aliases without their revisions, the latest insertion first. -/
def unstampedRules (store : MemoryStore) (aliases : AliasSet) (kind : String) : List Rule :=
  ((store.rules.map Prod.snd).filter (RuleQuery.ofAliases aliases kind).accepts).map Rule.unstamped

/-- Neither activity nor revision matters for what is asked for. -/
theorem accepts_eq_of_unstamped_eq {active : Int64 → Bool → Bool} {other : Rule}
    (h : rule.unstamped = (other.withActivity active).unstamped) :
    (RuleQuery.ofAliases aliases kind).accepts rule = (RuleQuery.ofAliases aliases kind).accepts other := by
  have hkind : rule.unstamped.kind = (other.withActivity active).unstamped.kind := by rw [h]
  have halias : rule.unstamped.typeAlias = (other.withActivity active).unstamped.typeAlias := by rw [h]
  change rule.kind = other.kind at hkind
  change rule.typeAlias = other.typeAlias at halias
  simp [RuleQuery.accepts, RuleQuery.ofAliases, hkind, halias]

/-- The rules of a class are those that the store holds. -/
theorem Keyed.mem_unstampedRules_iff (h : store.Keyed) :
    rule ∈ store.unstampedRules aliases kind ↔
      ∃ held, store.Holds held ∧ (RuleQuery.ofAliases aliases kind).accepts held = true ∧ held.unstamped = rule := by
  simp only [unstampedRules, List.mem_map, List.mem_filter]
  constructor
  · rintro ⟨held, ⟨hmem, haccepts⟩, hsame⟩
    exact ⟨held, h.mem_rules_iff.1 (List.mem_map.2 hmem), haccepts, hsame⟩
  · rintro ⟨held, hheld, haccepts, hsame⟩
    exact ⟨held, ⟨List.mem_map.1 (h.mem_rules_iff.2 hheld), haccepts⟩, hsame⟩

/-- Stores with the same class hold rules of the class under the same ids. -/
theorem Keyed.exists_holds_of_class_eq (h : store.Keyed) (hafter : after.Keyed)
    (hsame : store.unstampedRules aliases kind = after.unstampedRules aliases kind) (hrule : store.Holds rule)
    (haccepts : (RuleQuery.ofAliases aliases kind).accepts rule = true) :
    ∃ other, after.Holds other ∧ other.id = rule.id ∧ (RuleQuery.ofAliases aliases kind).accepts other = true := by
  have hmem := h.mem_unstampedRules_iff.2 ⟨rule, hrule, haccepts, rfl⟩
  rw [hsame, hafter.mem_unstampedRules_iff] at hmem
  obtain ⟨other, hother, hotherAccepts, heq⟩ := hmem
  have hid : other.unstamped.id = rule.unstamped.id := by rw [heq]
  exact ⟨other, hother, hid, hotherAccepts⟩

/-- The rules of a class have distinct ids. -/
theorem Keyed.nodup_ids_unstampedRules (h : store.Keyed) (aliases : AliasSet) (kind : String) :
    ((store.unstampedRules aliases kind).map Rule.id).Nodup := by
  have hids : (store.unstampedRules aliases kind).map Rule.id =
      ((store.rules.map Prod.snd).filter (RuleQuery.ofAliases aliases kind).accepts).map Rule.id := by
    rw [unstampedRules, List.map_map]
    rfl
  rw [hids]
  exact (List.filter_sublist.map Rule.id).nodup h.nodup_ids

/-- Where nothing but activity and revisions of the rules has changed, nothing but the activity of the class has. -/
theorem unstampedRules_of_map {change : Int64 × Rule → Int64 × Rule} {active : Int64 → Bool → Bool}
    (hrules : after.rules = store.rules.map change)
    (hchange : ∀ entry ∈ store.rules, (change entry).2.unstamped = (entry.2.withActivity active).unstamped) :
    after.unstampedRules aliases kind =
      (store.unstampedRules aliases kind).map (Rule.withActivity active) := by
  simp only [unstampedRules, hrules, List.map_map, List.filter_map]
  have hfilter : store.rules.filter ((RuleQuery.ofAliases aliases kind).accepts ∘ (Prod.snd ∘ change)) =
      store.rules.filter ((RuleQuery.ofAliases aliases kind).accepts ∘ Prod.snd) :=
    List.filter_congr fun entry hentry => accepts_eq_of_unstamped_eq (hchange entry hentry)
  rw [hfilter]
  exact List.map_congr_left fun entry hentry => hchange entry (List.mem_of_mem_filter hentry)

/-- A new rule comes first in its class. -/
theorem unstampedRules_inserted (store : MemoryStore) (rule : Rule) (aliases : AliasSet) (kind : String) :
    (Catalog.inserted store rule).unstampedRules aliases kind =
      if (RuleQuery.ofAliases aliases kind).accepts rule then
        rule.unstamped :: store.unstampedRules aliases kind
      else store.unstampedRules aliases kind := by
  have haccepts : (RuleQuery.ofAliases aliases kind).accepts { rule with revision := store.revision + 1 } =
      (RuleQuery.ofAliases aliases kind).accepts rule := rfl
  simp only [unstampedRules, Catalog.inserted, List.map_cons, List.filter_cons, haccepts]
  split <;> rfl

/-- Writing a rule again changes its activity. -/
theorem Keyed.unstampedRules_updateRule (h : store.Keyed) {id : Int64} (active : Bool)
    (hfound : store.rule? id = some rule) (aliases : AliasSet) (kind : String) :
    (store.updateRule id rule active).2.unstampedRules aliases kind =
      (store.unstampedRules aliases kind).map
        (Rule.withActivity fun other before => if other = id then active else before) := by
  refine unstampedRules_of_map rfl fun entry hentry => ?_
  have hid := h.2 entry hentry
  by_cases hentryId : entry.1 = id
  · have hsame : entry.2 = rule := by
      have hheld := Table.get?_of_mem h.1 (show (entry.1, entry.2) ∈ store.rules from hentry)
      rw [hentryId] at hheld
      exact Option.some.inj (hheld.symm.trans hfound)
    rw [hentryId, hsame] at hid
    simp [hentryId, hsame, hid, Rule.unstamped, Rule.withActivity]
  · simp [hentryId, hid, Rule.unstamped, Rule.withActivity]

/-- Rules that are made inactive are inactive in their class. -/
theorem Deactivates.unstampedRules_eq (hdeactivates : store.Deactivates ids after) (h : store.Keyed)
    (aliases : AliasSet) (kind : String) :
    after.unstampedRules aliases kind =
      (store.unstampedRules aliases kind).map
        (Rule.withActivity fun id before => !ids.contains id && before) := by
  obtain ⟨⟨stamp, hrules⟩, -⟩ := hdeactivates
  refine unstampedRules_of_map hrules fun entry hentry => ?_
  have hid := h.2 entry hentry
  by_cases hmem : entry.1 ∈ ids <;> simp [hmem, hid, Rule.unstamped, Rule.withActivity, Rule.rewritten]

/-- Where at most one rule of a class is active, the rule in effect can be told from the class without its revisions. -/
theorem inEffect?_listRules_unstamped (hone : ((store.unstampedRules aliases kind).filter Rule.isActive).length ≤ 1) :
    (Rule.inEffect? (store.listRules (.ofAliases aliases kind))).map Rule.unstamped =
      Rule.inEffect? (Rule.newestFirst (store.unstampedRules aliases kind)) := by
  have hperm := Rule.newestFirst_perm ((store.rules.map Prod.snd).filter (RuleQuery.ofAliases aliases kind).accepts)
  have hlisted : ((store.listRules (.ofAliases aliases kind)).filter Rule.isActive).length ≤ 1 := by
    rw [unstampedRules, List.filter_map, List.length_map] at hone
    rw [listRules, (hperm.filter Rule.isActive).length_eq]
    exact hone
  rw [← Rule.inEffect?_unstamped hlisted, unstampedRules, Rule.newestFirst_unstamped]
  rfl

section Settling

variable {types : List DeviceType}

/-- The siblings of a rule of a class are the rules of the class. -/
theorem Sound.accepts_siblings_eq (h : store.Sound types) (hclosed : DeviceType.Closed types aliases)
    (htarget : store.Holds target) (hrule : store.Holds rule)
    (haccepts : (RuleQuery.ofAliases aliases kind).accepts target = true) :
    (RuleQuery.ofAliases (DeviceType.aliasClass types target.typeAlias) target.kind).accepts rule =
      (RuleQuery.ofAliases aliases kind).accepts rule := by
  obtain ⟨hkind, halias⟩ := accepts_ofAliases_iff.1 haccepts
  rw [Bool.eq_iff_iff, accepts_ofAliases_iff, accepts_ofAliases_iff, hkind,
    hclosed _ _ (h.named target htarget) (h.named rule hrule) halias]

/-- The siblings of a rule of another class are of another class. -/
theorem Sound.not_accepts_of_sibling (h : store.Sound types) (htypes : DeviceType.Unambiguous types)
    (hclosed : DeviceType.Closed types aliases)
    (htarget : store.Holds target) (hrule : store.Holds rule)
    (haccepts : (RuleQuery.ofAliases aliases kind).accepts target = false)
    (hsibling : (RuleQuery.ofAliases (DeviceType.aliasClass types target.typeAlias) target.kind).accepts rule = true) :
    (RuleQuery.ofAliases aliases kind).accepts rule = false := by
  by_contra hrejects
  have hruleAccepts := (Bool.not_eq_false _).mp hrejects
  obtain ⟨hkind, halias⟩ := accepts_ofAliases_iff.1 hsibling
  -- Siblings have the same siblings, so the first rule is one of the second.
  have hclass := DeviceType.aliasClass_eq_of_contains htypes (h.named target htarget) (h.named rule hrule) halias
  have hback : (RuleQuery.ofAliases (DeviceType.aliasClass types rule.typeAlias) rule.kind).accepts target = true := by
    rw [accepts_ofAliases_iff, hclass]
    exact ⟨hkind.symm, DeviceType.contains_aliasClass_self types target.typeAlias⟩
  rw [h.accepts_siblings_eq hclosed hrule htarget hruleAccepts, haccepts] at hback
  cases hback

/-- Settling a rule of another class leaves the rules of the class as they are. -/
theorem Sound.unstampedRules_settled_other (h : store.Sound types) (htypes : DeviceType.Unambiguous types)
    (hclosed : DeviceType.Closed types aliases)
    (htarget : store.Holds target)
    (haccepts : (RuleQuery.ofAliases aliases kind).accepts target = false)
    (hsettled : store.Deactivates ((store.losersBeside target).map Rule.id) after) :
    after.unstampedRules aliases kind =
      store.unstampedRules aliases kind := by
  have hkeyed := h.consistent.keyed
  rw [hsettled.unstampedRules_eq hkeyed]
  refine (List.map_congr_left fun rule hrule => ?_).trans (List.map_id _)
  obtain ⟨held, hheld, hheldAccepts, rfl⟩ := hkeyed.mem_unstampedRules_iff.1 hrule
  have hspared : held.id ∉ (store.losersBeside target).map Rule.id := by
    intro hmem
    obtain ⟨loser, hloser, hid⟩ := List.mem_map.1 hmem
    obtain ⟨hloserHeld, -, hsibling⟩ := hkeyed.mem_activeRules_iff.1 (Rule.mem_of_mem_losers hloser)
    obtain rfl := hloserHeld.eq_of_id_eq hheld hid
    rw [h.deviceTypes_eq] at hsibling
    have hother := h.not_accepts_of_sibling htypes hclosed htarget hheld haccepts (accepts_ofAliases_iff.2 hsibling)
    rw [hother] at hheldAccepts
    cases hheldAccepts
  simp [Rule.withActivity, Rule.unstamped, hspared]

/-- The active siblings of a rule of the class are as many as the active rules of the class. -/
theorem Sound.length_activeRules_eq (h : store.Sound types) (hclosed : DeviceType.Closed types aliases)
    (htarget : store.Holds target)
    (haccepts : (RuleQuery.ofAliases aliases kind).accepts target = true) :
    (store.activeRules (DeviceType.aliasClass store.deviceTypes target.typeAlias) target.kind).length =
      ((store.unstampedRules aliases kind).filter Rule.isActive).length := by
  have hmem : ∀ rule ∈ store.rules.map Prod.snd, store.Holds rule := fun rule => h.consistent.keyed.mem_rules_iff.1
  rw [activeRules, listRules, (Rule.newestFirst_perm _).length_eq, unstampedRules]
  generalize store.rules.map Prod.snd = rules at hmem
  rw [List.filter_map, List.length_map, List.filter_filter]
  congr 1
  refine List.filter_congr fun rule hrule => ?_
  rw [← h.accepts_siblings_eq hclosed htarget (hmem rule hrule) haccepts, h.deviceTypes_eq]
  simp [RuleQuery.accepts, RuleQuery.ofAliases, RuleQuery.onlyActive, Rule.unstamped, Bool.and_assoc]

/-- Settling the latest active rule of the class leaves no other rule of the class active. -/
theorem Sound.unstampedRules_settled (h : store.Sound types) (hclosed : DeviceType.Closed types aliases)
    (htarget : store.Holds target) (hactive : target.isActive = true) (hlatest : target.stamp = store.writeCount)
    (haccepts : (RuleQuery.ofAliases aliases kind).accepts target = true)
    (hsettled : store.Deactivates ((store.losersBeside target).map Rule.id) after) :
    after.unstampedRules aliases kind =
      Rule.onlyActive target.id (store.unstampedRules aliases kind) := by
  have hkeyed := h.consistent.keyed
  rw [hsettled.unstampedRules_eq hkeyed, Rule.onlyActive]
  refine List.map_congr_left fun rule hrule => ?_
  obtain ⟨held, hheld, hheldAccepts, rfl⟩ := hkeyed.mem_unstampedRules_iff.1 hrule
  have hspared := h.consistent.mem_ids_losersBeside_iff htarget hactive hlatest hheld
  rw [← h.accepts_siblings_eq hclosed htarget hheld haccepts, accepts_ofAliases_iff, ← h.deviceTypes_eq] at hheldAccepts
  simp only [Rule.withActivity, Rule.unstamped, List.contains_eq_mem, hspared, hheldAccepts, true_and]
  by_cases hid : held.id = target.id
  · obtain rfl := hheld.eq_of_id_eq htarget hid
    simp [hactive]
  · cases held.isActive <;> simp [hid]

end Settling

end MemoryStore

namespace Catalog.Operation

variable {types : List DeviceType} {store other made after : MemoryStore} {aliases : AliasSet} {kind : String}
  {operation : Operation} {result : Except PricingError Rule} {written target : Rule} {count : Nat}

/-- A rule that is created has an alias. -/
theorem named_of_created? (h : operation.created? = some target) : Text.isAllBlank target.typeAlias = false := by
  cases operation with
  | activate id => cases h
  | create id createdAt draft =>
    rw [created?] at h
    cases hnew : draft.accept with
    | error error =>
      rw [hnew] at h
      cases h
    | ok new =>
      rw [hnew] at h
      cases h
      exact named_of_accept hnew

/-- After its first write an operation has left a sound store, as long as the revisions last. -/
theorem Begins.sound (hbegins : Begins store operation written made) (h : store.Sound types)
    (hroom : store.writeCount + 1 < 2 ^ 64) : made.Sound types := by
  have hkeyed := h.consistent.keyed
  have hfollows := hbegins.follows hkeyed
  have hle := hfollows.writeCount_le hroom
  refine ⟨hfollows.consistent h.consistent (hbegins.keyed hkeyed) hle,
    hfollows.deviceTypes_eq.trans h.deviceTypes_eq, fun rule hrule => ?_⟩
  obtain ⟨before, hbefore, hsame⟩ := hbegins.exists_before hkeyed hrule
  rw [hsame.typeAlias_eq]
  exact hbefore.elim named_of_created? (h.named before)

/-- So has the whole operation. -/
theorem Outcome.sound (houtcome : operation.Outcome store result after count) (h : store.Sound types)
    (hconsistent : after.Consistent) : after.Sound types := by
  have hkeyed := h.consistent.keyed
  refine ⟨hconsistent, (houtcome.deviceTypes_eq hkeyed).trans h.deviceTypes_eq, fun rule hrule => ?_⟩
  obtain ⟨before, hbefore, hsame⟩ := houtcome.exists_before hkeyed hrule
  rw [hsame.typeAlias_eq]
  exact hbefore.elim named_of_created? (h.named before)

/-- The same record is asked for alike. -/
theorem accepts_eq_of_sameRecord (hsame : target.SameRecord written) :
    (RuleQuery.ofAliases aliases kind).accepts written = (RuleQuery.ofAliases aliases kind).accepts target := by
  simp [RuleQuery.accepts, RuleQuery.ofAliases, hsame.kind_eq, hsame.typeAlias_eq]

/-- What the first write does to a class depends on the rules of the class alone. -/
theorem Begins.class_congr {otherWritten : Rule} {otherMade : MemoryStore}
    (hbegins : Begins store operation written made) (hother : Begins other operation otherWritten otherMade)
    (h : store.Keyed) (hotherKeyed : other.Keyed)
    (hsame : store.unstampedRules aliases kind = other.unstampedRules aliases kind) :
    made.unstampedRules aliases kind = otherMade.unstampedRules aliases kind ∧
      written.id = otherWritten.id ∧ written.isActive = otherWritten.isActive := by
  cases hbegins with
  | insert hcreated hfree =>
    cases hother with
    | insert hotherCreated hotherFree =>
      obtain rfl := Option.some.inj (hcreated.symm.trans hotherCreated)
      refine ⟨?_, rfl, rfl⟩
      rw [MemoryStore.unstampedRules_inserted, MemoryStore.unstampedRules_inserted, hsame]
  | update hfound =>
    cases hother with
    | update hotherFound =>
      refine ⟨?_, (h.id_eq_of_rule? hfound).trans (hotherKeyed.id_eq_of_rule? hotherFound).symm, rfl⟩
      rw [h.unstampedRules_updateRule true hfound, hotherKeyed.unstampedRules_updateRule true hotherFound, hsame]

/-- The first write of an operation that is addressed to another class leaves the class alone. -/
theorem Begins.unstampedRules_other (hbegins : Begins store operation written made) (h : store.Keyed)
    (haccepts : (RuleQuery.ofAliases aliases kind).accepts written = false) :
    made.unstampedRules aliases kind = store.unstampedRules aliases kind := by
  cases hbegins with
  | @insert _ _ _ rule hcreated hfree =>
    rw [MemoryStore.unstampedRules_inserted, if_neg]
    rw [Bool.not_eq_true]
    exact haccepts
  | @update id stored hfound =>
    rw [h.unstampedRules_updateRule true hfound]
    refine (List.map_congr_left fun rule hrule => ?_).trans (List.map_id _)
    obtain ⟨held, hheld, hheldAccepts, rfl⟩ := h.mem_unstampedRules_iff.1 hrule
    have hne : held.id ≠ id := by
      rintro rfl
      obtain rfl := Option.some.inj (hheld.symm.trans hfound)
      rw [accepts_eq_of_sameRecord (Rule.sameRecord_rewritten _ _ _), hheldAccepts] at haccepts
      cases haccepts
    simp [Rule.withActivity, Rule.unstamped, hne]

/-- An operation that is addressed to another class leaves the class alone. -/
theorem Outcome.unstampedRules_other (houtcome : operation.Outcome store result after count) (h : store.Sound types)
    (htypes : DeviceType.Unambiguous types) (hclosed : DeviceType.Closed types aliases)
    (hroom : store.writeCount + count < 2 ^ 64)
    (htarget : ∀ target, operation.target? store = some target →
      (RuleQuery.ofAliases aliases kind).accepts target = false) :
    after.unstampedRules aliases kind = store.unstampedRules aliases kind := by
  have hkeyed := h.consistent.keyed
  have hwritten : ∀ {written made}, Begins store operation written made →
      (RuleQuery.ofAliases aliases kind).accepts written = false := by
    intro written made hbegins
    obtain ⟨target, hfound, hsame⟩ := hbegins.exists_target
    rw [accepts_eq_of_sameRecord hsame]
    exact htarget target hfound
  cases houtcome with
  | refused hrefused => rfl
  | written hbegins hinactive => exact hbegins.unstampedRules_other hkeyed (hwritten hbegins)
  | settled hbegins hactive hsettled hsame hanswer =>
    have hmade := hbegins.sound h (by omega)
    rw [hmade.unstampedRules_settled_other htypes hclosed (hbegins.follows hkeyed).holds (hwritten hbegins) hsettled]
    exact hbegins.unstampedRules_other hkeyed (hwritten hbegins)

/-- An operation that is addressed to a class leaves the rule that it activates as the only active one, and has written
the rules that were active after its first write. -/
theorem Outcome.class_eq (houtcome : operation.Outcome store result after count) (h : store.Sound types)
    (hclosed : DeviceType.Closed types aliases)
    (hfree : ∀ rule, operation.created? = some rule → store.rule? rule.id = none)
    (hroom : store.writeCount + 1 < 2 ^ 64) (htarget : operation.target? store = some target)
    (haccepts : (RuleQuery.ofAliases aliases kind).accepts target = true) :
    ∃ written made, Begins store operation written made ∧
      after.unstampedRules aliases kind =
        (if written.isActive then Rule.onlyActive written.id (made.unstampedRules aliases kind)
          else made.unstampedRules aliases kind) ∧
      count = if written.isActive then ((made.unstampedRules aliases kind).filter Rule.isActive).length else 1 := by
  have hkeyed := h.consistent.keyed
  cases houtcome with
  | refused hrefused =>
    rw [target?_eq_none_of_refused hrefused hfree] at htarget
    cases htarget
  | @written written _ hbegins hinactive =>
    refine ⟨written, after, hbegins, ?_, ?_⟩ <;> rw [if_neg (by simpa using hinactive)]
  | @settled written _ made _ hbegins hactive hsettled =>
    have hmade := hbegins.sound h hroom
    have hheld := (hbegins.follows hkeyed).holds
    have hwrittenAccepts : (RuleQuery.ofAliases aliases kind).accepts written = true := by
      obtain ⟨found, hfound, hsame⟩ := hbegins.exists_target
      obtain rfl := Option.some.inj (hfound.symm.trans htarget)
      rw [accepts_eq_of_sameRecord hsame]
      exact haccepts
    refine ⟨written, made, hbegins, ?_, ?_⟩ <;> rw [if_pos hactive]
    · have hlatest := (hbegins.follows hkeyed).stamp_eq_writeCount
      exact hmade.unstampedRules_settled hclosed hheld hactive hlatest hwrittenAccepts hsettled
    · have hmem := hmade.consistent.keyed.mem_activeRules_iff.2 ⟨hheld, hactive, rfl,
        DeviceType.contains_aliasClass_self made.deviceTypes written.typeAlias⟩
      have hlength := hmade.consistent.keyed.length_losers hmem
      rw [hmade.length_activeRules_eq hclosed hheld hwrittenAccepts] at hlength
      rw [MemoryStore.losersBeside]
      omega

/-- So where at most one rule of the class was active before, at most one is afterwards. -/
theorem Outcome.length_active_le (houtcome : operation.Outcome store result after count) (h : store.Sound types)
    (hclosed : DeviceType.Closed types aliases)
    (hfree : ∀ rule, operation.created? = some rule → store.rule? rule.id = none)
    (hroom : store.writeCount + 1 < 2 ^ 64) (htarget : operation.target? store = some target)
    (haccepts : (RuleQuery.ofAliases aliases kind).accepts target = true)
    (hone : ((store.unstampedRules aliases kind).filter Rule.isActive).length ≤ 1) :
    ((after.unstampedRules aliases kind).filter Rule.isActive).length ≤ 1 := by
  obtain ⟨written, made, hbegins, hrules, -⟩ := houtcome.class_eq h hclosed hfree hroom htarget haccepts
  rw [hrules]
  split
  · exact Rule.length_active_onlyActive_le _
      ((hbegins.keyed h.consistent.keyed).nodup_ids_unstampedRules aliases kind)
  · next hinactive =>
    cases hbegins with
    | @insert _ _ _ rule hcreated hfree =>
      have hrule : rule.unstamped.isActive = false := Bool.eq_false_iff.2 hinactive
      rw [MemoryStore.unstampedRules_inserted]
      split
      · rw [List.filter_cons, hrule]
        exact hone
      · exact hone
    | update hfound => exact absurd rfl hinactive

end Catalog.Operation

end TradeIn
