import TradeIn.Proofs.Catalog.Refusals
import TradeIn.Quote.Pricing

/-!
# Finding what was created

A rule is created under its alias and its kind without the blanks around them, but references are looked up as they are.
So a rule that is created as active is found under what it was stored with, and under every other reference that stands for
its alias. Under the very texts that it was created with it is found exactly if they do.
-/

namespace TradeIn

namespace Backend

variable {backend : Backend} {rule other : Rule}

/-- There is one rule under an id. -/
theorem Stores.eq_of_id_eq (hrule : backend.Stores rule) (hother : backend.Stores other) (hid : rule.id = other.id) :
    rule = other := by
  rw [Stores, hid, show (backend.serve (.findRule other.id)).1 = .ok (some other) from hother] at hrule
  exact (Option.some.inj (Except.ok.inj hrule)).symm

end Backend

namespace Catalog

open CatalogProgram

variable {backend after : Backend} {view : MemoryStore} {rule target stored created : Rule} {typeAlias kind : String}

/-- A rule is found under an alias and a kind: it is in effect for them, and every quote by them is the one that this rule
gives. -/
structure FoundUnder (backend : Backend) (rule : Rule) (typeAlias kind : String) : Prop where
  inEffect : (ruleInEffect typeAlias kind).onBackend backend = (.ok rule, backend)
  quote_eq : ∀ defaultKind answers lookup, lookup.typeAlias = typeAlias → lookup.kind.getD defaultKind = kind →
    (quote defaultKind ⟨answers, .inEffect lookup⟩).onBackend backend = (Quote.ofRule rule answers, backend)

/-- Quotes by an alias that is not blank are those of the rule in effect. -/
theorem foundUnder_of_inEffect (hnamed : Text.isAllBlank typeAlias = false)
    (h : (ruleInEffect typeAlias kind).onBackend backend = (.ok rule, backend)) :
    FoundUnder backend rule typeAlias kind := by
  refine ⟨h, ?_⟩
  rintro defaultKind answers lookup rfl rfl
  have hreferenced : referencedRule defaultKind (.inEffect lookup) =
      ruleInEffect lookup.typeAlias (lookup.kind.getD defaultKind) := by
    rw [referencedRule, if_neg (by simp [hnamed])]
  rw [← hreferenced] at h
  exact onBackend_bind_of_ok h

/-- An active rule that was written after all other active ones is in effect for its kind and every reference that stands
for its alias, and for no others. -/
theorem onBackend_ruleInEffect_eq_iff (h : backend.Shows view) (hrule : view.Holds rule) (hactive : rule.isActive = true)
    (hlatest : ∀ other, view.Holds other → other.isActive = true → other.id ≠ rule.id → other.stamp < rule.stamp) :
    (ruleInEffect typeAlias kind).onBackend backend = (.ok rule, backend) ↔
      kind = rule.kind ∧ (resolvedOn backend typeAlias).contains rule.typeAlias = true := by
  rw [resolvedOn, run_resolve h, onBackend_ruleInEffect h]
  generalize DeviceType.aliasClass view.deviceTypes typeAlias = aliases
  have hlisted : rule ∈ view.listRules (.ofAliases aliases kind) ↔
      kind = rule.kind ∧ aliases.contains rule.typeAlias = true := by
    rw [h.keyed.mem_listRules_iff, MemoryStore.accepts_ofAliases_iff, eq_comm (a := kind)]
    exact and_iff_right hrule
  rw [← hlisted]
  constructor
  · intro hfound
    cases hwinner : Rule.inEffect? (view.listRules (.ofAliases aliases kind)) with
    | none =>
      rw [hwinner] at hfound
      cases congrArg Prod.fst hfound
    | some winner =>
      rw [hwinner] at hfound
      obtain rfl := Except.ok.inj (congrArg Prod.fst hfound)
      exact Rule.mem_of_inEffect? hwinner
  · intro hmem
    obtain ⟨winner, hwinner⟩ := Rule.exists_inEffect?_eq_some hmem
    obtain ⟨hwinnerMem, hwinnerActive, hle⟩ := Rule.stamp_le_of_inEffect? hactive hmem hwinner
    have hheld := (h.keyed.mem_listRules_iff.1 hwinnerMem).1
    -- Another winner would have been written before the rule, and after it.
    have hid : winner.id = rule.id := by
      by_contra hne
      exact absurd (hlatest winner hheld hwinnerActive hne) (Nat.not_lt.2 (hle rule hmem hactive))
    rw [hwinner, hheld.eq_of_id_eq hrule hid]

/-- Where a rule has taken over, every other active rule is one that was stored before. -/
theorem TakesOver.stores_of_active (h : TakesOver backend target stored after) (hrule : after.Stores rule)
    (hactive : rule.isActive = true) (hne : rule.id ≠ target.id) : backend.Stores rule := by
  obtain ⟨other, hother, hid⟩ := h.exists_before rule hrule hne
  by_cases hbeside : IsActiveBeside backend target other
  · obtain ⟨revision, hretired⟩ := h.retired other hother hbeside
    obtain rfl := hretired.eq_of_id_eq hrule hid
    cases hactive
  · have hkept := h.unchanged other hother (hid ▸ hne) hbeside
    exact hkept.eq_of_id_eq hrule hid ▸ hother

/-- An operation that succeeds has gone on with a result. -/
theorem onBackend_bind_eq_ok {α β : Type} {program : CatalogProgram β} {next : β → CatalogProgram α} {value : α}
    (h : (program >>= next).onBackend backend = (.ok value, after)) :
    ∃ result made, program.onBackend backend = (.ok result, made) ∧ (next result).onBackend made = (.ok value, after) := by
  rcases hprogram : program.onBackend backend with ⟨_ | result, made⟩
  · rw [onBackend_bind_of_error hprogram] at h
    cases congrArg Prod.fst h
  · exact ⟨result, made, rfl, (onBackend_bind_of_ok hprogram).symm.trans h⟩

/-- A call whose answer an operation has gone on with was answered. -/
theorem onBackend_demand_eq_ok {request : StoreCall} {answer : request.Answer}
    (h : (demand request).onBackend backend = (.ok answer, after)) : backend.serve request = (.ok answer, after) := by
  rcases hserved : backend.serve request with ⟨error | given, made⟩
  · rw [onBackend_demand_of_error hserved] at h
    cases congrArg Prod.fst h
  · obtain ⟨hanswer, rfl⟩ := Prod.mk.inj ((onBackend_demand hserved).symm.trans h)
    rw [Except.ok.inj hanswer]

/-- Where the siblings of a rule were settled, all rules could be read. -/
theorem readable_of_settleSiblings (h : backend.Filed) {done : Unit}
    (hsettled : (settleSiblings rule).onBackend backend = (.ok done, after)) : backend.Readable := by
  obtain ⟨aliases, made, hresolved, hrest⟩ := onBackend_bind_eq_ok hsettled
  obtain ⟨-, rfl⟩ := Prod.mk.inj ((onBackend_ofProgram (run_resolve_eq backend rule.typeAlias)).symm.trans hresolved)
  obtain ⟨listed, made, hlisted, -⟩ := onBackend_bind_eq_ok hrest
  exact (h.listRules_isOk_iff _).1 ⟨listed, congrArg Prod.fst (onBackend_demand_eq_ok hlisted)⟩

/-- A rule that was created as active had a draft that is accepted and a free id, all rules could be read, and its own body
can be. -/
theorem exists_accept_of_createRule (h : backend.Filed) {id createdAt : Int64} {draft : RuleDraft}
    (hactive : draft.isActive = some true)
    (hcreated : (createRule id createdAt draft).onBackend backend = (.ok created, after)) :
    ∃ new, draft.accept = .ok new ∧ backend.Readable ∧ backend.Rereads new.body ∧ backend.rule? id = none := by
  obtain ⟨new, start, haccepted, hrest⟩ := onBackend_bind_eq_ok hcreated
  obtain ⟨haccept, rfl⟩ := Prod.mk.inj haccepted
  obtain ⟨inserted, made, hinserted, hsettled⟩ := onBackend_bind_eq_ok hrest
  have hserved := onBackend_demand_eq_ok hinserted
  have hnewActive : inserted.isActive = true := by
    rw [isActive_of_serve_insertRule hserved, (eq_of_accept haccept).2]
    simp [NewRule.stamped, hactive]
  rw [if_pos hnewActive] at hsettled
  obtain ⟨_, settled, hsettled, -⟩ := onBackend_bind_eq_ok hsettled
  have hfiled := h.serve (.insertRule (new.stamped id createdAt))
  have hiff := h.readable_serve_iff (.insertRule (new.stamped id createdAt))
  rw [hserved] at hfiled hiff
  obtain ⟨hreadable, hrereads⟩ := hiff.1 (readable_of_settleSiblings hfiled hsettled)
  refine ⟨new, haccept, hreadable, hrereads _ rfl, ?_⟩
  by_contra htaken
  obtain ⟨taken, htaken⟩ := Option.ne_none_iff_exists'.1 htaken
  have hintact : backend.Intact := ⟨h, hreadable⟩
  have htaken : backend.rule? (new.stamped id createdAt).id = some taken := htaken
  rw [hintact.serve_insertRule_of_some htaken] at hserved
  cases congrArg Prod.fst hserved

/-- In every state that fewer than 2^64 writes can leave a backend in, a rule that is created as active is stored under the
alias and the kind of its draft without the blanks around them, and found there. It is in effect for exactly the references
that stand for this alias, and for this kind; if the draft's own texts are such, it is found under these too. -/
theorem createRule_foundUnder {count : Nat} (h : backend.Reachable count) (hcount : count + 1 < 2 ^ 64)
    {id createdAt : Int64} {draft : RuleDraft} (hactive : draft.isActive = some true)
    (hcreated : (createRule id createdAt draft).onBackend backend = (.ok created, after)) :
    ∃ stored, after.Stores stored ∧ stored = { created with body := backend.kept created.body } ∧
      created.typeAlias = Text.trim draft.typeAlias ∧ created.kind = Text.trim draft.kind ∧
      FoundUnder after stored created.typeAlias created.kind ∧
      (∀ typeAlias kind, (ruleInEffect typeAlias kind).onBackend after = (.ok stored, after) ↔
        kind = created.kind ∧ (resolvedOn after typeAlias).contains created.typeAlias = true) ∧
      (FoundUnder after stored draft.typeAlias draft.kind ↔
        draft.kind = created.kind ∧ (resolvedOn after draft.typeAlias).contains created.typeAlias = true) := by
  obtain ⟨new, haccept, hreadable, hbody, hfree⟩ := exists_accept_of_createRule h.filed hactive hcreated
  obtain ⟨view, hshows, hconsistent, hle⟩ := h.exists_shows hreadable (by omega)
  obtain ⟨hnamed, hnew⟩ := eq_of_accept haccept
  have hnewActive : new.isActive = true := by rw [hnew, hactive]; rfl
  have hunknown : view.rule? id = none := by
    rwa [Backend.rule?, hshows.serve_findRule] at hfree
  obtain ⟨stored, made, last, hmade, hlast, hlater, htakes⟩ :=
    exists_onBackend_createRule_stamped hshows hconsistent (by omega) (by omega) haccept hnewActive hbody hunknown
  obtain ⟨hanswer, rfl⟩ := Prod.mk.inj (hmade.symm.trans hcreated)
  obtain rfl := Except.ok.inj hanswer
  obtain ⟨revision, hstored⟩ := htakes.stored_eq
  have hid : stored.id = id := by rw [hstored]; rfl
  have hlatest : ∀ other, last.Holds other → other.isActive = true → other.id ≠ stored.id → other.stamp < stored.stamp := by
    intro other hother hotherActive hne
    have hbefore := htakes.stores_of_active (hlast.stores_iff.2 hother) hotherActive (hid ▸ hne)
    exact Nat.lt_of_le_of_lt (hconsistent.stamp_le other (hshows.stores_iff.1 hbefore)) hlater
  have hheld := hlast.stores_iff.1 htakes.stores
  have hiff : ∀ typeAlias kind, (ruleInEffect typeAlias kind).onBackend made = (.ok stored, made) ↔
      kind = stored.kind ∧ (resolvedOn made typeAlias).contains stored.typeAlias = true := fun typeAlias kind =>
    onBackend_ruleInEffect_eq_iff hlast hheld (by rw [hstored]; rfl) hlatest
  have halias : stored.typeAlias = Text.trim draft.typeAlias := by rw [hstored, hnew]; rfl
  refine ⟨stored, htakes.stores, by rw [hstored]; rfl, halias, by rw [hstored, hnew]; rfl, ?_, hiff, ?_⟩
  · have hself : (resolvedOn made stored.typeAlias).contains stored.typeAlias = true := by
      rw [resolvedOn, run_resolve hlast]
      exact DeviceType.contains_aliasClass_self _ _
    exact foundUnder_of_inEffect (halias ▸ Text.isAllBlank_trim hnamed) ((hiff _ _).2 ⟨rfl, hself⟩)
  · exact ⟨fun hfound => (hiff _ _).1 hfound.inEffect, fun hstands => foundUnder_of_inEffect hnamed ((hiff _ _).2 hstands)⟩

/-- An active rule under an alias with blanks around it. -/
private def spacedDraft : RuleDraft := ⟨" PHONE ", Rule.pricingKind, none, some true, .object []⟩

/-- Register a phone and create a rule for it that is active. -/
private def introducing : CatalogProgram Unit := do
  let _ ← demand (.insertDeviceType ⟨"t1", some "PHONE", "Phone"⟩)
  let _ ← createRule 1 10 ⟨"Phone", Rule.pricingKind, none, some true, .object []⟩

/-- Tables with a phone and its rule. -/
private def introduced : Backend := (introducing.onBackend (.tables .empty)).2

/-- A rule that is created under an alias with blanks around it is found under this alias without them. -/
theorem createRule_foundUnder_spaced :
    introduced.Reachable 2 ∧ 2 + 1 < 2 ^ 64 ∧ spacedDraft.isActive = some true ∧
      ∃ created after, (createRule 2 20 spacedDraft).onBackend introduced = (.ok created, after) ∧
        ∃ stored, after.Stores stored ∧ created.typeAlias = Text.trim " PHONE " ∧
          FoundUnder after stored created.typeAlias created.kind := by
  have hcount : 0 + introducing.run.recordsWritten (.tables .empty) = 2 := by decide +kernel
  have hreachable : introduced.Reachable 2 := hcount ▸ Backend.Reachable.newTables.run introducing.run
  have hcreated : (createRule 2 20 spacedDraft).onBackend introduced =
      (.ok ⟨2, "PHONE", Rule.pricingKind, 1, true, .object [], 20, 2⟩,
        ((createRule 2 20 spacedDraft).onBackend introduced).2) := by decide +kernel
  obtain ⟨stored, hstores, -, halias, -, hfound, -⟩ := createRule_foundUnder hreachable (by decide) rfl hcreated
  exact ⟨hreachable, by decide, rfl, _, _, hcreated, stored, hstores, halias, hfound⟩

/-- It is not found under the alias that it was created with: the phone's code has no blanks around it, so neither the rule
in effect nor a quote is there. -/
theorem createRule_not_foundUnder_spaced :
    ∃ created after, introduced.Reachable 2 ∧ spacedDraft.accept.isOk = true ∧ spacedDraft.isActive = some true ∧
      (createRule 2 20 spacedDraft).onBackend introduced = (.ok created, after) ∧
      (ruleInEffect spacedDraft.typeAlias spacedDraft.kind).onBackend after =
        (.error (.noRule " PHONE " Rule.pricingKind), after) ∧
      (quote Rule.pricingKind ⟨[], .inEffect ⟨spacedDraft.typeAlias, some spacedDraft.kind⟩⟩).onBackend after =
        (.error (.noRule " PHONE " Rule.pricingKind), after) := by
  have hcount : 0 + introducing.run.recordsWritten (.tables .empty) = 2 := by decide +kernel
  have hreachable : introduced.Reachable 2 := hcount ▸ Backend.Reachable.newTables.run introducing.run
  refine ⟨⟨2, "PHONE", Rule.pricingKind, 1, true, .object [], 20, 2⟩,
    ((createRule 2 20 spacedDraft).onBackend introduced).2, hreachable, ?_⟩
  decide +kernel

end Catalog

end TradeIn
