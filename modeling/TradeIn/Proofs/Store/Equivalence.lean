import TradeIn.Proofs.Store.View

/-!
# Two stores, one behaviour

The store in memory and the store in tables answer every sequence of calls alike, whatever order the rules in memory are
gone through, and however often the tables are closed and opened again. What carries this is a relation between their
states (`TableStore.Mirrors`): the tables hold the documents of the rules and device types in memory, and count the same
writes. As these documents come back from text as they are, the tables then show the memory itself.
-/

namespace TradeIn

namespace TableStore

/-- The tables hold what is stored in memory, and their counters are those of the memory. -/
structure Mirrors (tables : TableStore) (memory : MemoryStore) : Prop where
  keyed : memory.Keyed
  storable : ∀ rule, memory.Holds rule → rule.IsStorable
  sorted : Table.Sorted tables.rules
  rules : ∀ id, Table.get? tables.rules id = (memory.rule? id).map Rule.document
  deviceTypes : tables.deviceTypes = deviceTypeRows memory.deviceTypes
  revision : Table.get? tables.counters revisionCounter = some memory.revision
  place : Table.get? tables.counters placeCounter = some (.ofNat memory.deviceTypes.length)

variable {tables : TableStore} {memory : MemoryStore}

/-- New tables mirror a new memory. -/
theorem mirrors_empty : empty.Mirrors .empty where
  keyed := MemoryStore.keyed_empty
  storable := by simp [MemoryStore.Holds, MemoryStore.rule?, MemoryStore.empty]
  sorted := .nil
  rules id := rfl
  deviceTypes := rfl
  revision := rfl
  place := rfl

/-- Tables show the memory that they mirror. -/
theorem Mirrors.shows (h : tables.Mirrors memory) : tables.Shows memory where
  keyed := h.keyed
  sorted := h.sorted
  rules id := by
    rw [h.rules]
    cases hrule : memory.rule? id with
    | none => rfl
    | some rule =>
      have hread := decode_rule (h.storable rule (h.keyed.holds_of_rule? hrule))
      exact congrArg some hread
  deviceTypes := h.deviceTypes
  revision := h.revision
  place := h.place

/-- The order of the rules in memory has no meaning. -/
theorem Mirrors.of_perm (h : tables.Mirrors memory) {rules : List (Int64 × Rule)} (hperm : rules.Perm memory.rules) :
    tables.Mirrors { memory with rules } := by
  have hrule := h.keyed.rule?_of_perm hperm
  refine { h with keyed := h.keyed.of_perm hperm, storable := ?_, rules := ?_ }
  · intro rule hholds
    rw [MemoryStore.Holds, hrule] at hholds
    exact h.storable rule hholds
  · intro id
    rw [hrule]
    exact h.rules id

/-- A rule that is written comes back from its document, if the inserted ones do. -/
theorem Mirrors.storable_of_writes (h : tables.Mirrors memory) {request : StoreCall} {rule : Rule}
    (hstorable : ∀ rule, request = .insertRule rule → rule.IsStorable) (hwrites : memory.Writes request rule) :
    rule.IsStorable := by
  cases hwrites with
  | insert hfree => exact (hstorable _ rfl).with _ _
  | set active hstored => exact (h.storable _ (h.keyed.holds_of_rule? hstored)).with active _
  | setIf active hstored => exact (h.storable _ (h.keyed.holds_of_rule? hstored)).with active _

/-- Every call is answered alike, and leaves the tables mirroring the memory. -/
theorem Mirrors.serve (h : tables.Mirrors memory) (request : StoreCall)
    (hstorable : ∀ rule, request = .insertRule rule → rule.IsStorable)
    (hplace : (memory.serve request).2.deviceTypes.length < 2 ^ 64) :
    (tables.serve request).1 = (memory.serve request).1 ∧
      (tables.serve request).2.Mirrors (memory.serve request).2 := by
  obtain ⟨hanswer, hleft⟩ := h.shows.serve request
  have hinserted : ∀ body ∈ request.inserted? (memory.serve request).1, body.nesting < Parsed.maxDepth := by
    intro body hbody
    obtain ⟨rule, hrequest, rfl⟩ := StoreCall.exists_of_inserted? hbody
    exact (hstorable rule hrequest).nesting_lt
  obtain ⟨after, hshows, hleaves⟩ := hleft hplace hinserted
  have hdocuments := tables.rules_serve request
  rw [hanswer] at hdocuments
  refine ⟨hanswer, ?_⟩
  have hkeyed := h.keyed.serve request
  cases hleaves with
  | unwritten hnone =>
    -- Nothing was written on either side, so the documents are those of before.
    rw [hnone] at hdocuments
    obtain ⟨-, hrules, -⟩ := (h.keyed.serve_cases request).resolve_left (by simp [hnone])
    have hrule : ∀ id, (memory.serve request).2.rule? id = memory.rule? id := fun id => by
      rw [MemoryStore.rule?, hrules, MemoryStore.rule?]
    refine ⟨hkeyed, fun rule hholds => ?_, hshows.sorted, fun id => ?_, hshows.deviceTypes, hshows.revision,
      hshows.place⟩
    · rw [MemoryStore.Holds, hrule] at hholds
      exact h.storable rule hholds
    · rw [hdocuments, hrule, h.rules]
  | @written rule after hwritten hwrites hafter =>
    rw [hwritten] at hdocuments
    obtain ⟨other, hother, -, hfollows⟩ := (h.keyed.serve_cases request).resolve_right (by simp [hwritten])
    obtain rfl := Option.some.inj (hwritten.symm.trans hother)
    have hrule := h.storable_of_writes hstorable hwrites
    have htypes := hafter.deviceTypes_eq.trans hfollows.deviceTypes_eq.symm
    have hrevision := hafter.revision_eq.trans hfollows.revision_eq.symm
    refine ⟨hkeyed, fun rule hholds => ?_, hshows.sorted, fun id => ?_, ?_, ?_, ?_⟩
    · rcases hfollows.holds_iff.1 hholds with rfl | ⟨-, hholds⟩
      · exact hrule
      · exact h.storable rule hholds
    · rw [hdocuments, Table.get?_put, hfollows.rule?_eq, h.rules]
      split <;> rfl
    · rw [hshows.deviceTypes, htypes]
    · rw [hshows.revision, hrevision]
    · rw [hshows.place, htypes]

end TableStore

/-- A way to go through the rules of a store in memory. -/
structure Iteration where
  order : List (Int64 × Rule) → List (Int64 × Rule)
  /-- Each rule is met once. -/
  perm : ∀ rules, (order rules).Perm rules

/-- What happens to a store. -/
inductive StoreEvent where
  /-- A call, for which a store in memory goes through its rules in some order. -/
  | call (request : StoreCall) (iteration : Iteration)
  /-- A store in tables is closed and opened again. -/
  | reopen

namespace StoreEvent

/-- A call and its result; none where there was no call. -/
abbrev Answer := Option (Σ request : StoreCall, request.Result)

/-- What an event does to a store in memory. -/
def onMemory : StoreEvent → MemoryStore → Answer × MemoryStore
  | call request iteration, store =>
    let answered := MemoryStore.serve request { store with rules := iteration.order store.rules }
    (some ⟨request, answered.1⟩, answered.2)
  | reopen, store => (none, store)

/-- What an event does to a store in tables. -/
def onTables : StoreEvent → TableStore → Answer × TableStore
  | call request _, store =>
    let answered := store.serve request
    (some ⟨request, answered.1⟩, answered.2)
  | reopen, store => (none, store.reopen)

/-- The answers to events one after the other, and the store after them. -/
def run {σ : Type} (step : StoreEvent → σ → Answer × σ) : List StoreEvent → σ → List Answer × σ
  | [], store => ([], store)
  | event :: events, store =>
    let rest := run step events (step event store).2
    ((step event store).1 :: rest.1, rest.2)

/-- The rule that an event inserts, if any, comes back from its document. -/
def IsStorable : StoreEvent → Prop
  | call (.insertRule rule) _ => rule.IsStorable
  | _ => True

variable {tables : TableStore} {memory : MemoryStore}

/-- Every event is answered alike, and leaves the tables mirroring the memory. -/
theorem step_eq (event : StoreEvent) (h : tables.Mirrors memory) (hstorable : event.IsStorable)
    (hplace : (event.onMemory memory).2.deviceTypes.length < 2 ^ 64) :
    (event.onTables tables).1 = (event.onMemory memory).1 ∧
      (event.onTables tables).2.Mirrors (event.onMemory memory).2 := by
  cases event with
  | call request iteration =>
    have hordered := h.of_perm (iteration.perm memory.rules)
    have hrule : ∀ rule, request = .insertRule rule → rule.IsStorable := by
      rintro rule rfl
      exact hstorable
    obtain ⟨hanswer, hmirrors⟩ := hordered.serve request hrule hplace
    exact ⟨congrArg some (Sigma.ext rfl (heq_of_eq hanswer)), hmirrors⟩
  | reopen =>
    refine ⟨rfl, ?_⟩
    rw [onTables, h.shows.reopen_eq]
    exact h

/-- No event takes back a registration. -/
theorem length_deviceTypes_le (event : StoreEvent) (memory : MemoryStore) :
    memory.deviceTypes.length ≤ (event.onMemory memory).2.deviceTypes.length := by
  cases event with
  | call request iteration =>
    exact (MemoryStore.deviceTypes_prefix_serve { memory with rules := iteration.order memory.rules } request).length_le
  | reopen => exact Nat.le_refl _

/-- Nor do several. -/
theorem length_deviceTypes_le_run (events : List StoreEvent) (memory : MemoryStore) :
    memory.deviceTypes.length ≤ (run onMemory events memory).2.deviceTypes.length := by
  induction events generalizing memory with
  | nil => exact Nat.le_refl _
  | cons event events ih => exact Nat.le_trans (event.length_deviceTypes_le memory) (ih _)

/-- Stores that mirror each other answer events alike. -/
theorem run_eq (events : List StoreEvent) (h : tables.Mirrors memory) (hstorable : ∀ event ∈ events, event.IsStorable)
    (hplaces : (run onMemory events memory).2.deviceTypes.length < 2 ^ 64) :
    (run onTables events tables).1 = (run onMemory events memory).1 := by
  induction events generalizing tables memory with
  | nil => rfl
  | cons event events ih =>
    obtain ⟨hfirst, hrest⟩ := List.forall_mem_cons.1 hstorable
    have hplace := Nat.lt_of_le_of_lt (length_deviceTypes_le_run events (event.onMemory memory).2) hplaces
    obtain ⟨hanswer, hmirrors⟩ := event.step_eq h hfirst hplace
    simp only [run, hanswer, ih hmirrors hrest hplaces]

/-- A new store in memory and a new store in tables give the same answers, with the same records, stamps, orders and
errors, whatever the calls are, however the rules in memory are gone through, and whenever the tables are opened again.
The documents of the inserted rules have to come back from text as they are, and the list of device types in memory has
to be shorter than 64 bits can count. -/
theorem stores_answer_alike (events : List StoreEvent) (hstorable : ∀ event ∈ events, event.IsStorable)
    (hplaces : (run onMemory events .empty).2.deviceTypes.length < 2 ^ 64) :
    (run onTables events .empty).1 = (run onMemory events .empty).1 :=
  run_eq events TableStore.mirrors_empty hstorable hplaces

/-- The rules backwards. -/
private def backwards : Iteration := ⟨List.reverse, List.reverse_perm⟩

/-- A rule of a base price alone. -/
private def basicRule (id : Int64) (typeAlias : String) (createdAt : Int64) : Rule where
  id
  typeAlias
  kind := Rule.pricingKind
  version := 1
  isActive := false
  body := .object [("basePrice", .ofInt64 500)]
  createdAt
  revision := 0

/-- Calls of every kind, refused ones among them, with the tables opened again in between. -/
private def mixedEvents : List StoreEvent :=
  [.call (.insertDeviceType ⟨"phone", some "PH", "Phone"⟩) backwards,
    .call (.insertDeviceType ⟨"phone", none, "Other"⟩) backwards,
    .call (.insertRule (basicRule 7 "PH" 20)) backwards,
    .call (.insertRule (basicRule (-3) "Phone" 20)) backwards,
    .reopen,
    .call (.insertRule (basicRule 7 "PH" 30)) backwards,
    .call (.insertRule (basicRule 5 "phone" 10)) backwards,
    .call (.setRuleActiveIf 7 true 1) backwards,
    .call (.setRuleActiveIf 7 false 1) backwards,
    .call (.setRuleActive 5 true) backwards,
    .call (.setRuleActive 9 true) backwards,
    .reopen,
    .call (.findRule 7) backwards,
    .call (.listRules ⟨none, some Rule.pricingKind, false⟩) backwards,
    .call (.findDeviceType "PH") backwards,
    .call .listDeviceTypes backwards]

private theorem isStorable_basicRule (id : Int64) (typeAlias : String) (createdAt : Int64) :
    (basicRule id typeAlias createdAt).IsStorable where
  wellFormed := by simp [basicRule, Json.ofInt64, Json.WellFormed, Json.MembersWellFormed, Members.Sorted]
  reread := rfl

/-- Calls of every kind, refused ones among them, are answered alike. -/
theorem stores_answer_alike_mixed :
    (∀ event ∈ mixedEvents, event.IsStorable) ∧
      (run onMemory mixedEvents .empty).2.deviceTypes.length < 2 ^ 64 ∧
      (run onTables mixedEvents .empty).1 = (run onMemory mixedEvents .empty).1 := by
  have hstorable : ∀ event ∈ mixedEvents, event.IsStorable := by
    simp [mixedEvents, IsStorable, isStorable_basicRule]
  have hplaces : (run onMemory mixedEvents .empty).2.deviceTypes.length < 2 ^ 64 := by decide +kernel
  exact ⟨hstorable, hplaces, stores_answer_alike mixedEvents hstorable hplaces⟩

end StoreEvent

end TradeIn
