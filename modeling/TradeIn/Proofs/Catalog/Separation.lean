import TradeIn.Proofs.Catalog.ClassRules
import TradeIn.Quote.Pricing

/-!
# Rules of different types and kinds

All rules share one store and one count of revisions. Still, the rule in effect for a device type and a kind depends on
the operations alone that are addressed to the aliases of the type and to the kind: all others may be left out of a run
(`ruleInEffect_ownOperations`). The proof keeps two runs beside each other, one with and one without the other
operations. After each step both hold the same rules of the class but for their revisions, with at most one of them
active, and the shorter run has not written more.
-/

namespace TradeIn.Catalog

namespace Operation

/-- The rule that an operation is addressed to in a run that creates these rules. -/
def addressee? (created : List Rule) : Operation → Option Rule
  | create id createdAt draft => (create id createdAt draft).created?
  | activate id => created.find? fun rule => rule.id == id

/-- Whether an operation is not addressed to a rule of another kind or under other aliases. -/
def concerns (created : List Rule) (aliases : AliasSet) (kind : String) (operation : Operation) : Bool :=
  (operation.addressee? created).all (RuleQuery.ofAliases aliases kind).accepts

end Operation

/-- The rules that operations create, as they are before they are stored. -/
def createdBy (operations : List Operation) : List Rule := operations.filterMap Operation.created?

/-- A run without the operations that are addressed to rules of another kind or under other aliases. -/
def ownOperations (aliases : AliasSet) (kind : String) (operations : List Operation) : List Operation :=
  operations.filter (Operation.concerns (createdBy operations) aliases kind)

/-- The store after operations that run one after the other. -/
def storeAfterAll (store : MemoryStore) (operations : List Operation) : MemoryStore :=
  operations.foldl (fun store operation => (operation.alone store).2) store

/-- How many rules they write. -/
def writesOf (store : MemoryStore) : List Operation → Nat
  | [] => 0
  | operation :: operations => operation.program.writes store + writesOf (operation.alone store).2 operations

/-- Two stores hold the same rules of a class but for their revisions, with at most one of them active. The second one
holds no others, and has not counted more writes. -/
structure Agrees (types : List DeviceType) (aliases : AliasSet) (kind : String) (whole part : MemoryStore) : Prop where
  whole_sound : whole.Sound types
  part_sound : part.Sound types
  rules_eq : whole.unstampedRules aliases kind = part.unstampedRules aliases kind
  length_active_le : ((whole.unstampedRules aliases kind).filter Rule.isActive).length ≤ 1
  part_accepts : ∀ rule, part.Holds rule → (RuleQuery.ofAliases aliases kind).accepts rule = true
  writeCount_le : part.writeCount ≤ whole.writeCount

variable {types : List DeviceType} {aliases : AliasSet} {kind : String} {whole part : MemoryStore}
  {operation : Operation}

/-- Before the first operation there are no rules. -/
theorem agrees_new (types : List DeviceType) (aliases : AliasSet) (kind : String) :
    Agrees types aliases kind ⟨[], types, 0⟩ ⟨[], types, 0⟩ := by
  have hsound : MemoryStore.Sound types ⟨[], types, 0⟩ :=
    ⟨MemoryStore.consistent_new types, rfl, by simp [MemoryStore.Holds, MemoryStore.rule?]⟩
  exact ⟨hsound, hsound, rfl, by simp [MemoryStore.unstampedRules],
    by simp [MemoryStore.Holds, MemoryStore.rule?], Nat.le_refl _⟩

/-- What is not stored in the first is not stored in the second. -/
theorem Agrees.rule?_part_eq_none (h : Agrees types aliases kind whole part) {id : Int64}
    (hnone : whole.rule? id = none) : part.rule? id = none := by
  have hkeyed := h.part_sound.consistent.keyed
  cases hfound : part.rule? id with
  | none => rfl
  | some rule =>
    have hheld := hkeyed.holds_of_rule? hfound
    obtain ⟨other, hother, hid, -⟩ := hkeyed.exists_holds_of_class_eq h.whole_sound.consistent.keyed h.rules_eq.symm
      hheld (h.part_accepts rule hheld)
    rw [MemoryStore.Holds, hid, hkeyed.id_eq_of_rule? hfound, hnone] at hother
    cases hother

/-- An operation has a target of the class in both, or in neither. -/
theorem Agrees.target?_part (h : Agrees types aliases kind whole part)
    (htarget : ∀ target, operation.target? whole = some target →
      (RuleQuery.ofAliases aliases kind).accepts target = true) :
    (operation.target? whole = none ∧ operation.target? part = none) ∨
      ∃ target other, operation.target? whole = some target ∧ operation.target? part = some other ∧
        (RuleQuery.ofAliases aliases kind).accepts target = true ∧
        (RuleQuery.ofAliases aliases kind).accepts other = true := by
  cases operation with
  | create id createdAt draft =>
    cases hcreated : (Operation.create id createdAt draft).created? with
    | none => exact .inl ⟨hcreated, hcreated⟩
    | some rule => exact .inr ⟨rule, rule, hcreated, hcreated, htarget rule hcreated, htarget rule hcreated⟩
  | activate id =>
    cases hfound : whole.rule? id with
    | none => exact .inl ⟨hfound, h.rule?_part_eq_none hfound⟩
    | some target =>
      have haccepts := htarget target hfound
      have hkeyed := h.whole_sound.consistent.keyed
      obtain ⟨other, hother, hid, hotherAccepts⟩ := hkeyed.exists_holds_of_class_eq h.part_sound.consistent.keyed
        h.rules_eq (hkeyed.holds_of_rule? hfound) haccepts
      rw [MemoryStore.Holds, hid, hkeyed.id_eq_of_rule? hfound] at hother
      exact .inr ⟨target, other, hfound, hother, haccepts, hotherAccepts⟩

/-- An operation that is addressed to the class does the same to it in both stores. -/
theorem Agrees.own (h : Agrees types aliases kind whole part) (hclosed : DeviceType.Closed types aliases)
    (hfree : ∀ rule, operation.created? = some rule → whole.rule? rule.id = none)
    (htarget : ∀ target, operation.target? whole = some target →
      (RuleQuery.ofAliases aliases kind).accepts target = true)
    (hroom : whole.writeCount + operation.program.writes whole < 2 ^ 64) :
    Agrees types aliases kind (operation.alone whole).2 (operation.alone part).2 := by
  have hwhole := operation.outcome h.whole_sound.consistent.keyed
  have hpart := operation.outcome h.part_sound.consistent.keyed
  have hfreePart : ∀ rule, operation.created? = some rule → part.rule? rule.id = none := fun rule hrule =>
    h.rule?_part_eq_none (hfree rule hrule)
  rcases h.target?_part htarget with ⟨hnone, hnonePart⟩ | ⟨target, other, hsome, hother, haccepts, hotherAccepts⟩
  · rw [hwhole.eq_of_none hnone, hpart.eq_of_none hnonePart]
    exact h
  · have hone := hwhole.one_le hfree hsome
    have hle := h.writeCount_le
    have hroomWhole : whole.writeCount + 1 < 2 ^ 64 := by omega
    have hroomPart : part.writeCount + 1 < 2 ^ 64 := by omega
    obtain ⟨written, made, hbegins, hrules, hcount⟩ :=
      hwhole.class_eq h.whole_sound hclosed hfree hroomWhole hsome haccepts
    obtain ⟨writtenPart, madePart, hbeginsPart, hrulesPart, hcountPart⟩ :=
      hpart.class_eq h.part_sound hclosed hfreePart hroomPart hother hotherAccepts
    obtain ⟨hmade, hid, hactive⟩ := hbegins.class_congr hbeginsPart h.whole_sound.consistent.keyed
      h.part_sound.consistent.keyed h.rules_eq
    -- Both write the same number of rules, so the revisions last in the second store as well.
    have hcounts : operation.program.writes part = operation.program.writes whole := by
      rw [hcount, hcountPart, hmade, hactive]
    obtain ⟨hconsistent, hwriteCount⟩ := operation.program.consistent_run h.whole_sound.consistent hroom
    obtain ⟨hconsistentPart, hwriteCountPart⟩ :=
      operation.program.consistent_run h.part_sound.consistent (by omega)
    refine ⟨hwhole.sound h.whole_sound hconsistent, hpart.sound h.part_sound hconsistentPart, ?_,
      hwhole.length_active_le h.whole_sound hclosed hfree hroomWhole hsome haccepts h.length_active_le, ?_, ?_⟩
    · rw [hrules, hrulesPart, hmade, hid, hactive]
    · intro rule hrule
      obtain ⟨before, hbefore, hsame⟩ := hpart.exists_before h.part_sound.consistent.keyed hrule
      rw [Operation.accepts_eq_of_sameRecord hsame]
      rcases hbefore with hcreated | hheld
      · exact htarget before (operation.target?_of_created? hcreated whole)
      · exact h.part_accepts before hheld
    · rw [Operation.alone, Operation.alone]
      omega

/-- An operation that is addressed to another class may be left out. -/
theorem Agrees.other (h : Agrees types aliases kind whole part) (htypes : DeviceType.Unambiguous types)
    (hclosed : DeviceType.Closed types aliases)
    (htarget : ∀ target, operation.target? whole = some target →
      (RuleQuery.ofAliases aliases kind).accepts target = false)
    (hroom : whole.writeCount + operation.program.writes whole < 2 ^ 64) :
    Agrees types aliases kind (operation.alone whole).2 part := by
  have hwhole := operation.outcome h.whole_sound.consistent.keyed
  have hrules := hwhole.unstampedRules_other h.whole_sound htypes hclosed hroom htarget
  obtain ⟨hconsistent, hwriteCount⟩ := operation.program.consistent_run h.whole_sound.consistent hroom
  have hle := h.writeCount_le
  refine ⟨hwhole.sound h.whole_sound hconsistent, h.part_sound, hrules.trans h.rules_eq, ?_, h.part_accepts, ?_⟩
  · rw [hrules]
    exact h.length_active_le
  · rw [Operation.alone]
    omega

/-- Every stored rule is the record of one that was created. -/
def RecordedIn (created : List Rule) (store : MemoryStore) : Prop :=
  ∀ rule, store.Holds rule → ∃ record ∈ created, record.SameRecord rule

variable {created : List Rule} {store : MemoryStore}

/-- A rule that is still to be created has a free id. -/
theorem RecordedIn.rule?_eq_none (h : RecordedIn created store) (hkeyed : store.Keyed) {rule : Rule}
    (hnew : ∀ record ∈ created, record.id ≠ rule.id) : store.rule? rule.id = none := by
  cases hfound : store.rule? rule.id with
  | none => rfl
  | some found =>
    obtain ⟨record, hrecord, hsame⟩ := h found (hkeyed.holds_of_rule? hfound)
    exact absurd (hsame.id_eq.symm.trans (hkeyed.id_eq_of_rule? hfound)) (hnew record hrecord)

/-- The target of an operation is the rule that it is addressed to. -/
theorem RecordedIn.exists_addressee (h : RecordedIn created store) (hkeyed : store.Keyed) {all : List Rule}
    (hsub : created ⊆ all) (hids : (all.map Rule.id).Nodup) {target : Rule}
    (htarget : operation.target? store = some target) :
    ∃ record, operation.addressee? all = some record ∧ record.SameRecord target := by
  cases operation with
  | create id createdAt draft => exact ⟨target, htarget, .refl target⟩
  | activate id =>
    obtain ⟨record, hrecord, hsame⟩ := h target (hkeyed.holds_of_rule? htarget)
    have hid : record.id = id := hsame.id_eq.symm.trans (hkeyed.id_eq_of_rule? htarget)
    refine ⟨record, ?_, hsame⟩
    rw [Operation.addressee?]
    cases hfind : all.find? fun rule => rule.id == id with
    | none =>
      have hnone := List.find?_eq_none.1 hfind record (hsub hrecord)
      exact absurd (by simpa using hid) hnone
    | some found =>
      have hfoundId : found.id = id := by simpa using List.find?_some hfind
      exact congrArg some (List.inj_on_of_nodup_map hids (List.mem_of_find?_eq_some hfind) (hsub hrecord)
        (hfoundId.trans hid.symm))

/-- Operations store only what they create. -/
theorem RecordedIn.alone (h : RecordedIn created store) (hkeyed : store.Keyed) :
    RecordedIn (created ++ operation.created?.toList) (operation.alone store).2 := by
  intro rule hrule
  obtain ⟨before, hbefore, hsame⟩ := (operation.outcome hkeyed).exists_before hkeyed hrule
  rcases hbefore with hcreated | hheld
  · exact ⟨before, List.mem_append_right _ (Option.mem_toList.2 hcreated), hsame⟩
  · obtain ⟨record, hrecord, hbeforeSame⟩ := h before hheld
    exact ⟨record, List.mem_append_left _ hrecord, hbeforeSame.trans hsame⟩

/-- The rules that some operations create, and then others. -/
theorem createdBy_append (first rest : List Operation) :
    createdBy (first ++ rest) = createdBy first ++ createdBy rest :=
  List.filterMap_append

/-- Two stores with the same class have the same class after an operation, even if it is left out in the second one
where it is addressed to another class. -/
theorem Agrees.step (h : Agrees types aliases kind whole part) (htypes : DeviceType.Unambiguous types)
    (hclosed : DeviceType.Closed types aliases) (hrecorded : RecordedIn created whole) {all : List Rule}
    (hsub : created ⊆ all) (hids : (all.map Rule.id).Nodup)
    (hfree : ∀ rule, operation.created? = some rule → whole.rule? rule.id = none)
    (hroom : whole.writeCount + operation.program.writes whole < 2 ^ 64) :
    Agrees types aliases kind (operation.alone whole).2
      (if operation.concerns all aliases kind then (operation.alone part).2 else part) := by
  -- What the target of the operation is asked for by, the rule that it is addressed to is as well.
  have haddressee : ∀ target, operation.target? whole = some target →
      (RuleQuery.ofAliases aliases kind).accepts target = operation.concerns all aliases kind := by
    intro target htarget
    obtain ⟨record, hrecord, hsame⟩ :=
      hrecorded.exists_addressee h.whole_sound.consistent.keyed hsub hids htarget
    rw [Operation.accepts_eq_of_sameRecord hsame, Operation.concerns, hrecord, Option.all_some]
  cases hconcerns : operation.concerns all aliases kind with
  | true => exact h.own hclosed hfree (fun target htarget => (haddressee target htarget).trans hconcerns) hroom
  | false =>
    exact h.other htypes hclosed (fun target htarget => (haddressee target htarget).trans hconcerns) hroom

/-- Two stores with the same class have the same class after a run, even if the second run is without the operations
that are addressed to other classes. -/
theorem Agrees.run {done rest : List Operation} (h : Agrees types aliases kind whole part)
    (htypes : DeviceType.Unambiguous types) (hclosed : DeviceType.Closed types aliases)
    (hrecorded : RecordedIn (createdBy done) whole)
    (hids : ((createdBy (done ++ rest)).map Rule.id).Nodup)
    (hroom : whole.writeCount + writesOf whole rest < 2 ^ 64) :
    Agrees types aliases kind (storeAfterAll whole rest)
      (storeAfterAll part (rest.filter (Operation.concerns (createdBy (done ++ rest)) aliases kind))) := by
  induction rest generalizing done whole part with
  | nil => exact h
  | cons operation rest ih =>
    have hkeyed := h.whole_sound.consistent.keyed
    have hsub : createdBy done ⊆ createdBy (done ++ operation :: rest) := by
      rw [createdBy_append]
      exact List.subset_append_left _ _
    -- The rule that the operation creates is not among those that were created before.
    have hfree : ∀ rule, operation.created? = some rule → whole.rule? rule.id = none := by
      intro rule hrule
      refine hrecorded.rule?_eq_none hkeyed fun record hrecord hid => ?_
      rw [createdBy_append, List.map_append, List.nodup_append] at hids
      have hmem : rule ∈ createdBy (operation :: rest) := List.mem_filterMap.2 ⟨operation, List.mem_cons_self, hrule⟩
      exact hids.2.2 _ (List.mem_map_of_mem hrecord) _ (List.mem_map_of_mem hmem) hid
    have hcreated : createdBy (done ++ [operation]) = createdBy done ++ operation.created?.toList := by
      rw [createdBy_append]
      cases hrule : operation.created? <;> simp [createdBy, hrule]
    have hdone : done ++ operation :: rest = (done ++ [operation]) ++ rest := by simp
    rw [writesOf] at hroom
    have hstep := h.step htypes hclosed hrecorded hsub hids hfree (by omega)
    have hrecordedAfter := hcreated ▸ hrecorded.alone hkeyed
    obtain ⟨-, hwriteCount⟩ := operation.program.consistent_run h.whole_sound.consistent (by omega)
    change (operation.alone whole).2.writeCount = _ at hwriteCount
    have hrest := ih hstep hrecordedAfter (hdone ▸ hids) (by omega)
    rw [← hdone] at hrest
    rw [List.filter_cons]
    split at hrest
    · next hconcerns =>
      rw [if_pos hconcerns]
      exact hrest
    · next hconcerns =>
      rw [if_neg hconcerns]
      exact hrest

/-- After a run from the beginning, and after one without the operations that are addressed to other classes, the same
rules of the class are stored but for their revisions. -/
theorem agrees_ownOperations (htypes : DeviceType.Unambiguous types) (hclosed : DeviceType.Closed types aliases)
    {operations : List Operation} (hids : ((createdBy operations).map Rule.id).Nodup)
    (hwrites : writesOf ⟨[], types, 0⟩ operations < 2 ^ 64) (kind : String) :
    Agrees types aliases kind (storeAfterAll ⟨[], types, 0⟩ operations)
      (storeAfterAll ⟨[], types, 0⟩ (ownOperations aliases kind operations)) := by
  have hrecorded : RecordedIn (createdBy []) ⟨[], types, 0⟩ := by
    simp [RecordedIn, MemoryStore.Holds, MemoryStore.rule?]
  have hroom : MemoryStore.writeCount ⟨[], types, 0⟩ + writesOf ⟨[], types, 0⟩ operations < 2 ^ 64 := by
    simpa [MemoryStore.writeCount] using hwrites
  exact (agrees_new types aliases kind).run htypes hclosed hrecorded hids hroom

/-- Stores that agree on the class of a reference have the same rule in effect for it but for its revision. -/
theorem Agrees.ruleInEffect_eq {typeAlias : String}
    (h : Agrees types (DeviceType.aliasClass types typeAlias) kind whole part) :
    ((ruleInEffect typeAlias kind).alone whole).1.map Rule.unstamped =
      ((ruleInEffect typeAlias kind).alone part).1.map Rule.unstamped := by
  have hwhole := MemoryStore.inEffect?_listRules_unstamped h.length_active_le
  have hpart := MemoryStore.inEffect?_listRules_unstamped (h.rules_eq ▸ h.length_active_le)
  rw [← h.rules_eq, ← hwhole] at hpart
  rw [alone_ruleInEffect, alone_ruleInEffect, h.whole_sound.deviceTypes_eq, h.part_sound.deviceTypes_eq]
  generalize Rule.inEffect? (whole.listRules _) = found at hpart ⊢
  generalize Rule.inEffect? (part.listRules _) = foundPart at hpart ⊢
  cases found with
  | none =>
    cases foundPart with
    | none => rfl
    | some other => cases hpart
  | some rule =>
    cases foundPart with
    | none => cases hpart
    | some other => exact congrArg Except.ok (Option.some.inj hpart.symm)

/-- A quote by the rule in effect comes from that rule without its revision. -/
theorem alone_quote_inEffect (defaultKind : String) (answers : Answers) (lookup : ActiveLookup) (store : MemoryStore) :
    ((quote defaultKind ⟨answers, .inEffect lookup⟩).alone store).1 =
      if Text.isAllBlank lookup.typeAlias then .error (.validation "rule.typeAlias must not be blank")
      else (((ruleInEffect lookup.typeAlias (lookup.kind.getD defaultKind)).alone store).1.map Rule.unstamped).bind
        fun rule => Quote.ofRule rule answers := by
  by_cases hblank : Text.isAllBlank lookup.typeAlias = true
  · have hfails : (referencedRule defaultKind (.inEffect lookup)).alone store =
        (.error (.validation "rule.typeAlias must not be blank"), store) := by
      rw [referencedRule, if_pos hblank]
      rfl
    rw [if_pos hblank]
    exact congrArg Prod.fst (CatalogProgram.alone_bind_of_error hfails)
  · have hreferenced : referencedRule defaultKind (.inEffect lookup) =
        ruleInEffect lookup.typeAlias (lookup.kind.getD defaultKind) := by rw [referencedRule, if_neg hblank]
    rw [if_neg hblank, ← hreferenced]
    cases hfound : (referencedRule defaultKind (.inEffect lookup)).alone store with
    | mk result after =>
      cases result with
      | error error => exact congrArg Prod.fst (CatalogProgram.alone_bind_of_error hfound)
      | ok rule => exact congrArg Prod.fst (CatalogProgram.alone_bind_of_ok hfound)

/-- The operations that are addressed to another kind or outside of some aliases may be left out of a run. For every
reference that stands for these aliases the same rule is in effect afterwards but for its revision, and all quotes are
the same. -/
theorem ruleInEffect_ownOperations (htypes : DeviceType.Unambiguous types) {operations : List Operation}
    (hids : ((createdBy operations).map Rule.id).Nodup) (hwrites : writesOf ⟨[], types, 0⟩ operations < 2 ^ 64)
    (aliases : AliasSet) (kind : String) :
    let whole := storeAfterAll ⟨[], types, 0⟩ operations
    let part := storeAfterAll ⟨[], types, 0⟩ (ownOperations aliases kind operations)
    ∀ typeAlias, DeviceType.aliasClass types typeAlias = aliases →
      ((ruleInEffect typeAlias kind).alone whole).1.map Rule.unstamped =
        ((ruleInEffect typeAlias kind).alone part).1.map Rule.unstamped ∧
      ∀ defaultKind answers lookup, lookup.typeAlias = typeAlias → lookup.kind.getD defaultKind = kind →
        ((quote defaultKind ⟨answers, .inEffect lookup⟩).alone whole).1 =
          ((quote defaultKind ⟨answers, .inEffect lookup⟩).alone part).1 := by
  rintro whole part typeAlias rfl
  have hclosed := DeviceType.closed_aliasClass htypes typeAlias
  have hsame := (agrees_ownOperations htypes hclosed hids hwrites kind).ruleInEffect_eq
  refine ⟨hsame, ?_⟩
  rintro defaultKind answers lookup rfl rfl
  rw [alone_quote_inEffect, alone_quote_inEffect, hsame]

/-- Two device types for examples. -/
private def phoneAndTablet : List DeviceType := [⟨"p", none, "Phone"⟩, ⟨"t", some "TAB", "Tablet"⟩]

/-- A rule for examples. -/
private def pricedDraft (typeAlias : String) (isActive : Bool) (basePrice : Int64) : RuleDraft where
  typeAlias
  kind := Rule.pricingKind
  version := none
  isActive := some isActive
  body := .object [("basePrice", .ofInt64 basePrice)]

/-- Rules are created and activated for both types in turn. -/
private def mixedRun : List Operation :=
  [.create 1 10 (pricedDraft "p" true 100), .create 2 20 (pricedDraft "TAB" true 300),
    .create 3 30 (pricedDraft "Phone" false 200), .activate 2, .create 4 40 (pricedDraft "t" true 400), .activate 3]

/-- Without the operations for the tablet, the rule for the phone that was activated last has a smaller revision, and
the price of the phone is the same. -/
theorem ruleInEffect_ownOperations_phone :
    let own := ownOperations (DeviceType.aliasClass phoneAndTablet "Phone") Rule.pricingKind mixedRun
    let whole := storeAfterAll ⟨[], phoneAndTablet, 0⟩ mixedRun
    let part := storeAfterAll ⟨[], phoneAndTablet, 0⟩ own
    own.length = 3 ∧ (whole.rule? 3).map Rule.revision = some 7 ∧ (part.rule? 3).map Rule.revision = some 3 ∧
      ((quote Rule.pricingKind ⟨[], .inEffect ⟨"Phone", none⟩⟩).alone whole).1 =
        ((quote Rule.pricingKind ⟨[], .inEffect ⟨"Phone", none⟩⟩).alone part).1 := by
  have hunambiguous : DeviceType.Unambiguous phoneAndTablet := by
    unfold DeviceType.Unambiguous
    decide +kernel
  refine ⟨by decide +kernel, by decide +kernel, by decide +kernel, ?_⟩
  exact (ruleInEffect_ownOperations hunambiguous (by decide +kernel) (by decide +kernel) _ Rule.pricingKind "Phone"
    rfl).2 Rule.pricingKind [] ⟨"Phone", none⟩ rfl rfl

end TradeIn.Catalog
