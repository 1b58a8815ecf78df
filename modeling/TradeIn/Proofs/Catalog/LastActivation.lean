import TradeIn.Proofs.Catalog.Settling

/-!
# The last activation

The rules that a run has written tell which activation of a class came last. Two relations hold after every event
of every run. The store stands at the end of what was written (`Recorded`), so that the active rule with the latest
stamp is the one that was activated last. And what is still running meets the conditions of its operation
(`Orderly`), so that without faults every activation is settled once its operation has ended.
-/

namespace TradeIn.Catalog

open StoreProgram

variable {types : List DeviceType} {faults : Bool} {written : List Rule} {store after : MemoryStore}
  {traffic next : Traffic} {event : Event} {history : List Event} {rule : Rule}

/-- A store and the rules that were written to it, the latest first. -/
structure Recorded (types : List DeviceType) (written : List Rule) (store : MemoryStore) : Prop where
  sound : store.Sound types
  writeCount_eq : store.writeCount = written.length
  stamps : written.Pairwise fun later earlier => earlier.stamp < later.stamp
  stamp_le : ∀ rule ∈ written, rule.stamp ≤ store.writeCount
  mem_of_holds : ∀ rule, store.Holds rule → rule ∈ written
  named : ∀ rule ∈ written, Text.isAllBlank rule.typeAlias = false
  /-- Some active sibling is as late as any activation. -/
  reaches : ∀ rule ∈ written, rule.isActive = true → store.Reaches types rule rule.stamp

/-- At the beginning nothing is written. -/
theorem recorded_nil (types : List DeviceType) : Recorded types [] (Traffic.initial types).store where
  sound := ⟨MemoryStore.consistent_new types, rfl, by simp [MemoryStore.Holds, MemoryStore.rule?, Traffic.initial]⟩
  writeCount_eq := rfl
  stamps := .nil
  stamp_le := by simp
  mem_of_holds := by simp [MemoryStore.Holds, MemoryStore.rule?, Traffic.initial]
  named := by simp
  reaches := by simp

/-- A rule that is written comes in front. -/
private theorem Recorded.cons (h : Recorded types written store) (hlater : store.Later types after)
    (hfollows : store.Follows rule after) : Recorded types (rule :: written) after := by
  have hcount := h.writeCount_eq
  have hnext := hfollows.writeCount_eq hlater.writeCount_le
  have hstamp := hfollows.stamp_eq_writeCount
  refine ⟨hlater.sound, by rw [hnext, hcount, List.length_cons], ?_, ?_, ?_, ?_, ?_⟩
  · refine List.pairwise_cons.2 ⟨?_, h.stamps⟩
    intro earlier hearlier
    have hle := h.stamp_le earlier hearlier
    omega
  · refine List.forall_mem_cons.2 ?_
    constructor
    · omega
    · intro earlier hearlier
      have hle := h.stamp_le earlier hearlier
      omega
  · intro other hother
    rcases hfollows.holds_iff.1 hother with rfl | ⟨_, hheld⟩
    · exact List.mem_cons_self
    · exact List.mem_cons_of_mem _ (h.mem_of_holds other hheld)
  · exact List.forall_mem_cons.2 ⟨hlater.sound.named rule hfollows.holds, h.named⟩
  · refine List.forall_mem_cons.2 ?_
    constructor
    · intro hactive
      exact ⟨rule, hfollows.holds, hactive, .refl types rule, Nat.le_refl _⟩
    · intro earlier hearlier hactive
      exact hlater.reaches _ _ (h.reaches earlier hearlier hactive)

/-- A store with the same rules and the same count of writes has the same record. -/
private theorem Recorded.of_rules_eq (h : Recorded types written store) (hlater : store.Later types after)
    (hrules : after.rules = store.rules) (hcount : after.writeCount = store.writeCount) :
    Recorded types written after where
  sound := hlater.sound
  writeCount_eq := hcount.trans h.writeCount_eq
  stamps := h.stamps
  stamp_le := by
    rw [hcount]
    exact h.stamp_le
  mem_of_holds := by
    intro other hother
    refine h.mem_of_holds other ?_
    rwa [MemoryStore.Holds, MemoryStore.rule?, hrules] at hother
  named := h.named
  reaches := fun earlier hearlier hactive => hlater.reaches _ _ (h.reaches earlier hearlier hactive)

/-- A permitted call is recorded with what it wrote, and has room below the largest revision. -/
theorem Recorded.serve (h : Recorded types written store) {request : StoreCall}
    (hpermits : store.Permits types request)
    (hbound : ((request.written? (store.serve request).1).toList ++ written).length < 2 ^ 64) :
    store.HasRoomFor request ∧
      Recorded types ((request.written? (store.serve request).1).toList ++ written) (store.serve request).2 := by
  rcases h.sound.consistent.keyed.serve_cases request with ⟨rule, hsome, _, hfollows⟩ | ⟨hnone, hrules, hrevision⟩
  · rw [hsome, Option.toList_some, List.singleton_append] at hbound ⊢
    have hroom : store.HasRoomFor request := by
      rw [List.length_cons, ← h.writeCount_eq] at hbound
      exact hfollows.writeCount_le hbound
    exact ⟨hroom, h.cons (h.sound.later_serve hpermits hroom) hfollows⟩
  · rw [hnone, Option.toList_none, List.nil_append]
    have hcount : (store.serve request).2.writeCount = store.writeCount := by
      rw [MemoryStore.writeCount, hrevision, MemoryStore.writeCount]
    have hroom : store.HasRoomFor request := Nat.le_of_eq hcount.symm
    exact ⟨hroom, h.of_rules_eq (h.sound.later_serve hpermits hroom) hrules hcount⟩

/-- The last activation of a class is held as it was written, and every other active rule of the class has an
earlier stamp. -/
theorem Recorded.holds_of_last (h : Recorded types written store) (htypes : DeviceType.Unambiguous types)
    {aliases : AliasSet} {kind : String} (hclass : DeviceType.IsAliasClass types aliases)
    (hlast : (written.find? fun rule => rule.isActive && rule.kind == kind && aliases.contains rule.typeAlias) =
      some rule) :
    store.Holds rule ∧ rule.isActive = true ∧ rule.kind = kind ∧ aliases.contains rule.typeAlias = true ∧
      ∀ other, store.Holds other → other.isActive = true → other.kind = kind →
        aliases.contains other.typeAlias = true → other ≠ rule → other.stamp < rule.stamp := by
  obtain ⟨hrule, later, earlier, heq, hlater⟩ := List.find?_eq_some_iff_append.1 hlast
  simp only [Bool.and_eq_true, beq_iff_eq] at hrule
  obtain ⟨⟨hactive, hkind⟩, hname⟩ := hrule
  have hmem : rule ∈ written := by simp [heq]
  -- A held active rule of the class was not written after the last activation.
  have hbefore : ∀ other, store.Holds other → other.isActive = true → other.kind = kind →
      aliases.contains other.typeAlias = true → other ≠ rule → other.stamp < rule.stamp := by
    intro other hother hotherActive hotherKind hotherName hne
    have hother := h.mem_of_holds other hother
    have hstamps := h.stamps
    rw [heq] at hother hstamps
    rcases List.mem_append.1 hother with hin | hin
    · have hfalse := hlater other hin
      simp [hotherActive, hotherKind, hotherName] at hfalse
    · rcases List.mem_cons.1 hin with hsame | hin
      · exact absurd hsame hne
      · exact (List.pairwise_cons.1 (List.pairwise_append.1 hstamps).2.1).1 other hin
  refine ⟨?_, hactive, hkind, hname, hbefore⟩
  obtain ⟨winner, hwinner, hwinnerActive, ⟨hwinnerKind, hwinnerClass⟩, hle⟩ := h.reaches rule hmem hactive
  rw [hclass.eq_aliasClass htypes (h.named rule hmem) hname] at hwinnerClass
  have hwinnerName : aliases.contains winner.typeAlias = true := by
    rw [← hwinnerClass]
    exact DeviceType.contains_aliasClass_self types winner.typeAlias
  by_cases hsame : winner = rule
  · exact hsame ▸ hwinner
  · have hlt := hbefore winner hwinner hwinnerActive (hwinnerKind.trans hkind) hwinnerName hsame
    omega

/-- Operations in flight after some writes. Without faults, each activation that was written is settled or will be
by an operation that is still running. -/
structure Orderly (types : List DeviceType) (faults : Bool) (written : List Rule) (traffic : Traffic) : Prop where
  recorded : Recorded types written traffic.store
  permits : ∀ request ∈ traffic.late, traffic.store.Permits types request
  meets : ∀ program ∈ traffic.running, program.Meets types faults (Accounts types faults) [] traffic.store
  accounts : faults = false → ∀ rule ∈ written, rule.isActive = true → traffic.store.Settled types rule ∨
    ∃ program ∈ traffic.running, program.Meets types faults (Accounts types faults) [rule] traffic.store

/-- What an operation will account for, it will account for after other writes too. -/
private theorem meets_later {program : StoreProgram (Except PricingError Rule)} {made : List Rule}
    (h : program.Meets types faults (Accounts types faults) made store) (hlater : store.Later types after) :
    program.Meets types faults (Accounts types faults) made after :=
  h.later (fun _ _ _ _ => Accounts.later) hlater

/-- An operation accounts for each of its activations. -/
private theorem meets_fewer {program : StoreProgram (Except PricingError Rule)} {made part : List Rule}
    (h : program.Meets types faults (Accounts types faults) made store) (hsub : part ⊆ made) :
    program.Meets types faults (Accounts types faults) part store :=
  h.fewer (fun _ _ _ _ => Accounts.fewer) hsub

section Middle

variable {α : Type} {p : α → Prop} {front back : List α} {x : α}

private theorem forall_mem_middle : (∀ y ∈ front ++ x :: back, p y) ↔ p x ∧ ∀ y ∈ front ++ back, p y := by
  simp only [List.perm_middle.mem_iff, List.forall_mem_cons]

private theorem exists_mem_middle : (∃ y ∈ front ++ x :: back, p y) ↔ p x ∨ ∃ y ∈ front ++ back, p y := by
  simp only [List.perm_middle.mem_iff, List.mem_cons, exists_eq_or_imp]

end Middle

/-- Traffic stays orderly when an operation has its call answered. -/
private theorem Orderly.answer (h : Orderly types faults written traffic)
    {front back : List (StoreProgram (Except PricingError Rule))} {request : StoreCall}
    {rest : request.Result → StoreProgram (Except PricingError Rule)}
    (hrunning : traffic.running = front ++ .call request rest :: back)
    (hbound : ((request.written? (traffic.store.serve request).1).toList ++ written).length < 2 ^ 64) :
    Orderly types faults ((request.written? (traffic.store.serve request).1).toList ++ written)
      { traffic with
        store := (traffic.store.serve request).2
        running := front ++ rest (traffic.store.serve request).1 :: back } := by
  have hmeets := h.meets
  have haccounts := h.accounts
  rw [hrunning] at hmeets haccounts
  obtain ⟨⟨hpermits, _, hserves⟩, hothers⟩ := forall_mem_middle.1 hmeets
  obtain ⟨hroom, hrecorded⟩ := h.recorded.serve hpermits hbound
  have hself := h.recorded.sound.later_self
  have hlater := h.recorded.sound.later_serve hpermits hroom
  have hrest := hserves traffic.store hself hroom
  refine ⟨hrecorded, fun other hother => (h.permits other hother).later hlater, ?_, ?_⟩
  · refine forall_mem_middle.2 ?_
    constructor
    · exact meets_fewer hrest (List.nil_subset _)
    · intro program hprogram
      exact meets_later (hothers program hprogram) hlater
  · intro hfaults rule hrule hactive
    rcases List.mem_append.1 hrule with hnew | hold
    · refine .inr (exists_mem_middle.2 (.inl (meets_fewer hrest ?_)))
      intro other hother
      rw [List.mem_singleton.1 hother, List.append_nil]
      exact Option.mem_toList.2 (Option.filter_eq_some_iff.2 ⟨Option.mem_toList.1 hnew, hactive⟩)
    · rcases haccounts hfaults rule hold hactive with hsettled | hends
      · exact .inl (hsettled.later hlater)
      · right
        refine exists_mem_middle.2 ?_
        rcases exists_mem_middle.1 hends with ⟨_, _, hserves⟩ | ⟨program, hprogram, hends⟩
        · exact .inl (meets_fewer (hserves traffic.store hself hroom) (List.subset_append_right _ _))
        · exact .inr ⟨program, hprogram, meets_later hends hlater⟩

/-- The write of the next event comes in front. -/
theorem writes_cons (event : Event) (history : List Event) :
    writes (event :: history) = event.written?.toList ++ writes history := by
  rw [writes, List.filterMap_cons]
  cases event.written? <;> rfl

/-- Traffic stays orderly whatever happens next. Without faults, no call fails. -/
theorem Orderly.step (h : Orderly types faults (writes history) traffic) (htypes : DeviceType.Unambiguous types)
    (hstep : Step traffic event next) (hfaults : faults = false → ¬ event.IsFault)
    (hbound : (writes (event :: history)).length < 2 ^ 64) :
    Orderly types faults (writes (event :: history)) next := by
  rw [writes_cons] at hbound ⊢
  cases hstep with
  | start operation =>
    refine ⟨h.recorded, h.permits, ?_, ?_⟩
    · exact List.forall_mem_cons.2 ⟨operation.meets htypes h.recorded.sound, h.meets⟩
    · intro hnone rule hrule hactive
      rcases h.accounts hnone rule hrule hactive with hsettled | ⟨program, hprogram, hends⟩
      · exact .inl hsettled
      · exact .inr ⟨program, List.mem_cons_of_mem _ hprogram, hends⟩
  | answer hrunning => exact h.answer hrunning hbound
  | @fail front back request rest error hrunning =>
    have hmeets := h.meets
    rw [hrunning] at hmeets
    obtain ⟨⟨hpermits, hfails, _⟩, hothers⟩ := forall_mem_middle.1 hmeets
    have hfaulty : faults = true := by
      by_contra hnone
      exact hfaults (by simpa using hnone) trivial
    refine ⟨h.recorded, List.forall_mem_cons.2 ⟨hpermits, h.permits⟩, ?_, ?_⟩
    · exact forall_mem_middle.2 ⟨hfails hfaulty error, hothers⟩
    · intro hnone
      rw [hfaulty] at hnone
      cases hnone
  | @land front back request hlate =>
    have hpermitted := h.permits
    rw [hlate] at hpermitted
    obtain ⟨hpermits, hothers⟩ := forall_mem_middle.1 hpermitted
    obtain ⟨hroom, hrecorded⟩ := h.recorded.serve hpermits hbound
    have hlater := h.recorded.sound.later_serve hpermits hroom
    refine ⟨hrecorded, ?_, ?_, ?_⟩
    · intro other hother
      exact (hothers other hother).later hlater
    · intro program hprogram
      exact meets_later (h.meets program hprogram) hlater
    · intro hnone
      exact absurd trivial (hfaults hnone)

/-- Traffic is orderly after every run. -/
theorem Run.orderly (hrun : Run types history traffic) (htypes : DeviceType.Unambiguous types)
    (hfaults : faults = false → ∀ event ∈ history, ¬ event.IsFault)
    (hbound : (writes history).length < 2 ^ 64) : Orderly types faults (writes history) traffic := by
  induction hrun with
  | nil => exact ⟨recorded_nil types, by simp [Traffic.initial], by simp [Traffic.initial], by simp [writes]⟩
  | @cons history traffic next event hrun hstep ih =>
    have hle : (writes history).length ≤ (writes (event :: history)).length := by
      rw [writes_cons, List.length_append]
      omega
    have horderly := ih (fun hnone other hother => hfaults hnone other (List.mem_cons_of_mem _ hother))
      (Nat.lt_of_le_of_lt hle hbound)
    exact horderly.step htypes hstep (fun hnone => hfaults hnone event List.mem_cons_self) hbound

/-- At every moment of every run, whatever calls fail or come late, the last activation of a class is in force: its
rule is active as it was written then, has the highest revision of all active rules of the class, and is the one in
effect. -/
theorem lastActivation_inForce (htypes : DeviceType.Unambiguous types) {aliases : AliasSet} {kind : String}
    (hclass : DeviceType.IsAliasClass types aliases) (hrun : Run types history traffic)
    (hbound : (writes history).length < 2 ^ 64) (hlast : lastActivation? aliases kind history = some rule) :
    traffic.store.rule? rule.id = some rule ∧ rule.isActive = true ∧
      (∀ other, traffic.store.rule? other.id = some other → other.isActive = true → other.kind = kind →
        aliases.contains other.typeAlias = true → other ≠ rule → other.revision < rule.revision) ∧
      StoreProgram.run MemoryStore.serve (ruleInEffect? aliases kind).run traffic.store =
        (.ok (some rule), traffic.store) := by
  have horderly : Orderly types true (writes history) traffic := hrun.orderly htypes (fun h => nomatch h) hbound
  have hrecorded := horderly.recorded
  obtain ⟨hheld, hactive, hkind, hname, hbefore⟩ := hrecorded.holds_of_last htypes hclass hlast
  refine ⟨hheld, hactive, ?_, ?_⟩
  · intro other hother hotherActive hotherKind hotherName hne
    exact UInt64.lt_iff_toNat_lt.2 (hbefore other hother hotherActive hotherKind hotherName hne)
  · have hlisted : ∀ other, other ∈ traffic.store.listRules (.ofAliases aliases kind) ↔
        traffic.store.Holds other ∧ other.kind = kind ∧ aliases.contains other.typeAlias = true := by
      intro other
      rw [hrecorded.sound.consistent.keyed.mem_listRules_iff]
      simp [RuleQuery.accepts, RuleQuery.ofAliases]
    have hmem := (hlisted rule).2 ⟨hheld, hkind, hname⟩
    obtain ⟨winner, hwinner⟩ := Rule.exists_inEffect?_eq_some hmem
    obtain ⟨hin, hwinnerActive, hlatest⟩ := Rule.stamp_le_of_inEffect? hactive hmem hwinner
    obtain ⟨hwinnerHeld, hwinnerKind, hwinnerName⟩ := (hlisted winner).1 hin
    have hsame : winner = rule := by
      by_contra hne
      have hlt := hbefore winner hwinnerHeld hwinnerActive hwinnerKind hwinnerName hne
      have hle := hlatest rule hmem hactive
      omega
    have hrun : StoreProgram.run MemoryStore.serve (ruleInEffect? aliases kind).run traffic.store =
        (.ok (Rule.inEffect? (traffic.store.listRules (.ofAliases aliases kind))), traffic.store) := rfl
    rw [hrun, hwinner, hsame]

/-- A device type for examples. -/
private def phone : DeviceType := ⟨"p", some "phone", "Phone"⟩

/-- An active rule for examples. -/
private def phoneDraft (typeAlias : String) : RuleDraft := ⟨typeAlias, Rule.pricingKind, none, some true, .object []⟩

private theorem phone_unambiguous : DeviceType.Unambiguous [phone] := by
  intro a ha b hb _ _ _
  rw [List.mem_singleton.1 ha, List.mem_singleton.1 hb]

/-- Two rules are created under different names of a type, and the look-up of the type fails for the second one
before either has settled: the second rule is in force. -/
theorem lastActivation_inForce_unsettled : ∃ history traffic,
    Run [phone] history traffic ∧ (∃ event ∈ history, event.IsFault) ∧
      StoreProgram.run MemoryStore.serve (ruleInEffect? (.ofList phone.aliases) Rule.pricingKind).run traffic.store =
        (.ok (some ⟨2, "Phone", Rule.pricingKind, 1, true, .object [], 0, 2⟩), traffic.store) := by
  have hnil : Run [phone] [] _ := .nil
  have hfirst := (hnil.cons (.start (.create 1 0 (phoneDraft "phone")))).cons (@Step.answer _ [] [] _ _ rfl)
  have hsecond := (hfirst.cons (.start (.create 2 0 (phoneDraft "Phone")))).cons (@Step.answer _ [] _ _ _ rfl)
  have hfailed := hsecond.cons (@Step.fail _ [] _ _ _ (.unavailable "timeout") rfl)
  refine ⟨_, _, hfailed, ⟨_, List.mem_cons_self, trivial⟩, ?_⟩
  exact (lastActivation_inForce phone_unambiguous (.ofType (List.mem_singleton.2 rfl)) hfailed (by decide) rfl).2.2.2

/-- Without faults, once every operation has its result, the rule that was activated last is the only active one of
its class. -/
theorem activation_converges (htypes : DeviceType.Unambiguous types) {aliases : AliasSet} {kind : String}
    (hclass : DeviceType.IsAliasClass types aliases) (hrun : Run types history traffic)
    (hbound : (writes history).length < 2 ^ 64) (hfaults : ∀ event ∈ history, ¬ event.IsFault)
    (hquiet : traffic.IsQuiet)
    (hactivated : ∃ rule ∈ writes history, rule.isActive = true ∧ rule.kind = kind ∧
      aliases.contains rule.typeAlias = true) :
    ∃ rule, lastActivation? aliases kind history = some rule ∧
      traffic.store.listRules (RuleQuery.ofAliases aliases kind).onlyActive = [rule] := by
  obtain ⟨activated, hwritten, hactivated, hkind, hname⟩ := hactivated
  obtain ⟨rule, hlast⟩ : ∃ rule, lastActivation? aliases kind history = some rule := by
    rw [← Option.isSome_iff_exists, lastActivation?, List.find?_isSome]
    exact ⟨activated, hwritten, by simp [hactivated, hkind, hname]⟩
  refine ⟨rule, hlast, ?_⟩
  have horderly : Orderly types false (writes history) traffic := hrun.orderly htypes (fun _ => hfaults) hbound
  have hsound := horderly.recorded.sound
  obtain ⟨hheld, hactive, hkind, hname, hbefore⟩ := horderly.recorded.holds_of_last htypes hclass hlast
  have hsettled : traffic.store.Settled types rule := by
    rcases horderly.accounts rfl rule (List.mem_of_find?_eq_some hlast) hactive with h | ⟨program, hprogram, hends⟩
    · exact h
    · obtain ⟨result, rfl⟩ := hquiet program hprogram
      exact hends rfl rule (List.mem_singleton.2 rfl)
  have hmem : ∀ other, other ∈ traffic.store.activeRules aliases kind ↔ other ∈ [rule] := by
    intro other
    rw [hsound.consistent.keyed.mem_activeRules_iff, List.mem_singleton]
    constructor
    · rintro ⟨hother, hotherActive, hotherKind, hotherName⟩
      by_contra hne
      have hlt := hbefore other hother hotherActive hotherKind hotherName hne
      have hsiblings : rule.Siblings types other := by
        refine ⟨hotherKind.trans hkind.symm, ?_⟩
        rw [hclass.eq_aliasClass htypes (hsound.named other hother) hotherName,
          hclass.eq_aliasClass htypes (hsound.named rule hheld) hname]
      have hid : other.id ≠ rule.id := fun heq => hne (hother.eq_of_id_eq hheld heq)
      have hle := hsettled.2 other hother hotherActive hsiblings hid
      omega
    · rintro rfl
      exact ⟨hheld, hactive, hkind, hname⟩
  have hnodup := hsound.consistent.keyed.nodup_listRules
  have hperm := (List.perm_ext_iff_of_nodup (hnodup _) (List.pairwise_singleton _ rule)).2 hmem
  exact List.perm_singleton.1 hperm

/-- Two rules are created under different names of a type, each before the other is settled: the second one is left
active alone. -/
theorem activation_converges_overlapping : ∃ history traffic,
    Run [phone] history traffic ∧ traffic.IsQuiet ∧ ∃ rule,
      lastActivation? (.ofList phone.aliases) Rule.pricingKind history = some rule ∧
        traffic.store.listRules (RuleQuery.ofAliases (.ofList phone.aliases) Rule.pricingKind).onlyActive = [rule] := by
  have hnil : Run [phone] [] _ := .nil
  have hfirst := (hnil.cons (.start (.create 1 0 (phoneDraft "phone")))).cons (@Step.answer _ [] [] _ _ rfl)
  have hsecond := (hfirst.cons (.start (.create 2 0 (phoneDraft "Phone")))).cons (@Step.answer _ [] _ _ _ rfl)
  -- The second operation looks up the type and lists both rules; then the first one has its turn.
  have hlisted := (hsecond.cons (@Step.answer _ [] _ _ _ rfl)).cons (@Step.answer _ [] _ _ _ rfl)
  have hcleared := (hlisted.cons (@Step.answer _ [] _ _ _ rfl)).cons (@Step.answer _ [_] _ _ _ rfl)
  have hended := hcleared.cons (@Step.answer _ [_] _ _ _ rfl)
  refine ⟨_, _, hended, ?quiet, activation_converges phone_unambiguous (.ofType (List.mem_singleton.2 rfl)) hended
    (by decide) (by decide) ?quiet
    ⟨⟨2, "Phone", Rule.pricingKind, 1, true, .object [], 0, 2⟩, by decide, rfl, rfl, by decide⟩⟩
  exact List.forall_mem_cons.2 ⟨⟨_, rfl⟩, List.forall_mem_cons.2 ⟨⟨_, rfl⟩, List.forall_mem_nil _⟩⟩

end TradeIn.Catalog
