import TradeIn.Proofs.Store.View

/-!
# The states of a working store

The states that calls can leave either backend in (`Backend.Reachable`), with the number of records that were written on
the way. While fewer than 2^64 records were written and all rules can be read (`Backend.Readable`), each of them shows a
store in memory whose rules have distinct revisions (`Backend.Reachable.exists_shows`). In memory rules can always be
read, and in tables as long as no insertion has succeeded whose body is nested too deep
(`Backend.Filed.readable_serve_iff`).
-/

namespace TradeIn

namespace StoreCall

/-- How many records a call has written, read off its result. -/
def recordsWritten : (request : StoreCall) → request.Result → Nat
  | .insertDeviceType _, .ok _ => 1
  | request, result => (request.written? result).toList.length

/-- A call that has written a rule has written one record. -/
theorem recordsWritten_of_written? {request : StoreCall} {result : request.Result} {rule : Rule}
    (h : request.written? result = some rule) : request.recordsWritten result = 1 := by
  cases request with
  | insertDeviceType deviceType => cases h
  | _ =>
    change (StoreCall.written? _ result).toList.length = 1
    rw [h]
    rfl

end StoreCall

/-- How many records a program writes that has a backend to itself. -/
def StoreProgram.recordsWritten {α : Type} : StoreProgram α → Backend → Nat
  | done _, _ => 0
  | call request next, backend =>
    let answered := backend.serve request
    request.recordsWritten answered.1 + (next answered.1).recordsWritten answered.2

namespace MemoryStore

variable {store view after : MemoryStore} {request : StoreCall} {rules : List (Int64 × Rule)}

/-- The order of the rules has no part in consistency. -/
theorem Consistent.of_perm (h : store.Consistent) (hperm : rules.Perm store.rules) :
    Consistent { store with rules } := by
  have hholds : ∀ rule, Holds { store with rules } rule ↔ store.Holds rule := fun rule => by
    rw [Holds, h.keyed.rule?_of_perm hperm, Holds]
  have hkeyed := h.keyed.of_perm hperm
  refine ⟨hkeyed.1, hkeyed.2, ?_, ?_, ?_⟩
  · exact fun rule hrule => h.stamp_pos rule ((hholds rule).1 hrule)
  · exact fun rule hrule => h.stamp_le rule ((hholds rule).1 hrule)
  · exact fun a b ha hb => h.stamp_injective a b ((hholds a).1 ha) ((hholds b).1 hb)

/-- A call adds as many device types as it writes records, or fewer. -/
theorem length_deviceTypes_serve_le (store : MemoryStore) (request : StoreCall) :
    (store.serve request).2.deviceTypes.length ≤
      store.deviceTypes.length + request.recordsWritten (store.serve request).1 := by
  by_cases hregisters : ∃ deviceType, request = .insertDeviceType deviceType
  · obtain ⟨deviceType, rfl⟩ := hregisters
    simp only [serve, insertDeviceType]
    split
    · exact Nat.le_add_right _ _
    · exact Nat.le_of_eq List.length_append
  · rw [deviceTypes_serve store fun deviceType heq => hregisters ⟨deviceType, heq⟩]
    exact Nat.le_add_right _ _

/-- What a call leaves of a consistent store is consistent, and grows with the records that the call writes. -/
theorem Leaves.consistent {keep : Json → Json} (hleaves : view.Leaves keep request after) (h : view.Consistent)
    (hafter : after.Keyed) (hroom : view.writeCount + request.recordsWritten (view.serve request).1 < 2 ^ 64) :
    after.Consistent ∧ after.writeCount + after.deviceTypes.length ≤
      view.writeCount + view.deviceTypes.length + request.recordsWritten (view.serve request).1 := by
  cases hleaves with
  | written hwritten hwrites hfollows =>
    rw [StoreCall.recordsWritten_of_written? hwritten] at hroom ⊢
    have hle := hfollows.writeCount_le hroom
    have hcount := hfollows.writeCount_eq hle
    refine ⟨hfollows.consistent h hafter hle, ?_⟩
    rw [hcount, hfollows.deviceTypes_eq]
    omega
  | unwritten hnone =>
    obtain ⟨-, -, hrevision⟩ := (h.keyed.serve_cases request).resolve_left (by simp [hnone])
    have hcount : (view.serve request).2.writeCount = view.writeCount := by
      rw [writeCount, hrevision, writeCount]
    have hlength := view.length_deviceTypes_serve_le request
    refine ⟨h.serve (Nat.le_of_eq hcount.symm), ?_⟩
    omega

end MemoryStore

namespace Backend

variable {backend : Backend} {view : MemoryStore} {request : StoreCall} {rule : Rule} {count : Nat}

/-- What is read from a backend is held by a store in memory. -/
def Shows : Backend → MemoryStore → Prop
  | memory store, view => store = view ∧ view.Keyed
  | tables store, view => store.Shows view

/-- What is read of a body once a backend has written it: only tables go through text. -/
def kept : Backend → Json → Json
  | memory _, body => body
  | tables _, body => body.restored

/-- A body can be read again once a backend has written it: in tables it has to leave room for the document around it. -/
def Rereads : Backend → Json → Prop
  | memory _, _ => True
  | tables _, body => body.nesting < Parsed.maxDepth

instance (backend : Backend) (body : Json) : Decidable (backend.Rereads body) :=
  match backend with
  | memory _ => inferInstanceAs (Decidable True)
  | tables _ => inferInstanceAs (Decidable (body.nesting < Parsed.maxDepth))

/-- All rules that a backend holds can be read: in tables no document is nested too deep, and in memory there is none. -/
def Readable : Backend → Prop
  | memory _ => True
  | tables store => store.Readable

instance (backend : Backend) : Decidable backend.Readable :=
  match backend with
  | memory _ => inferInstanceAs (Decidable True)
  | tables store => inferInstanceAs (Decidable store.Readable)

/-- All records that a backend holds are under their ids. -/
def Filed : Backend → Prop
  | memory store => store.Keyed
  | tables store => store.Filed

/-- All rules that a backend shows are under their ids. -/
theorem Shows.keyed (h : backend.Shows view) : view.Keyed := by
  cases backend with
  | memory store => exact h.2
  | tables store => exact TableStore.Shows.keyed h

/-- A call does not change how bodies are kept. -/
theorem kept_serve (request : StoreCall) (backend : Backend) : (backend.serve request).2.kept = backend.kept := by
  cases backend <;> rfl

/-- Nor does it change which bodies can be read again. -/
theorem rereads_serve (request : StoreCall) (backend : Backend) : (backend.serve request).2.Rereads = backend.Rereads := by
  cases backend <;> rfl

/-- Records are under their ids whatever is called. -/
theorem Filed.serve (h : backend.Filed) (request : StoreCall) : (backend.serve request).2.Filed := by
  cases backend with
  | memory store => exact MemoryStore.Keyed.serve h request
  | tables store => exact TableStore.Filed.serve h request

/-- Opening a store again leaves records under their ids. -/
theorem Filed.reopen (h : backend.Filed) : backend.reopen.Filed := by
  cases backend with
  | memory store => exact MemoryStore.keyed_empty
  | tables store => exact ⟨h.sorted, h.rules, h.deviceTypes⟩

/-- After a call all rules can be read just if they could be before, and the body of one that it inserts can be read
again. -/
theorem Filed.readable_serve_iff (h : backend.Filed) (request : StoreCall) :
    (backend.serve request).2.Readable ↔
      backend.Readable ∧ ∀ body ∈ request.inserted? (backend.serve request).1, backend.Rereads body := by
  cases backend with
  | memory store => exact ⟨fun _ => ⟨trivial, fun _ _ => trivial⟩, fun _ => trivial⟩
  | tables store => exact TableStore.Filed.readable_serve_iff h request

/-- Rules are listed just if all of them can be read, whatever is asked for. -/
theorem Filed.listRules_isOk_iff (h : backend.Filed) (query : RuleQuery) :
    (∃ listed, (backend.serve (.listRules query)).1 = .ok listed) ↔ backend.Readable := by
  cases backend with
  | memory store => exact ⟨fun _ => trivial, fun _ => ⟨_, rfl⟩⟩
  | tables store => exact TableStore.Filed.listRules_isOk_iff h query

/-- Otherwise every listing fails, and changes nothing. -/
theorem Filed.exists_serve_listRules_eq_error (h : backend.Filed) (hnot : ¬backend.Readable) (query : RuleQuery) :
    ∃ column, backend.serve (.listRules query) = (.error (.serialization (.tooDeep column)), backend) := by
  cases backend with
  | memory store => exact absurd trivial hnot
  | tables store =>
    obtain ⟨_, -, -, column, -, herror⟩ := TableStore.Filed.exists_listRules_eq_error h hnot query
    exact ⟨column, congrArg (·, Backend.tables store) herror⟩

/-- Every call is answered as by the store that is shown, and leaves a backend that shows what it leaves of this one, if
what it inserts can be read again. -/
theorem Shows.serve (h : backend.Shows view) (request : StoreCall) :
    (backend.serve request).1 = (view.serve request).1 ∧
      ((view.serve request).2.deviceTypes.length < 2 ^ 64 →
        (∀ body ∈ request.inserted? (backend.serve request).1, backend.Rereads body) →
        ∃ after, (backend.serve request).2.Shows after ∧ view.Leaves backend.kept request after) := by
  cases backend with
  | memory store =>
    obtain ⟨rfl, hkeyed⟩ := h
    exact ⟨rfl, fun _ _ => ⟨_, ⟨rfl, hkeyed.serve request⟩, hkeyed.leaves request⟩⟩
  | tables store =>
    obtain ⟨hanswer, hleft⟩ := TableStore.Shows.serve h request
    exact ⟨hanswer, fun hlength hinserted => hleft hlength (hanswer ▸ hinserted)⟩

/-- The rule that is shown is found. -/
theorem Shows.serve_findRule (h : backend.Shows view) (id : Int64) :
    backend.serve (.findRule id) = (.ok (view.rule? id), backend) := by
  cases backend with
  | memory store => rw [← h.1]; rfl
  | tables store => exact congrArg (·, Backend.tables store) (TableStore.Shows.rule?_eq h id)

/-- The rules that are shown are listed. -/
theorem Shows.serve_listRules (h : backend.Shows view) (query : RuleQuery) :
    backend.serve (.listRules query) = (.ok (view.listRules query), backend) := by
  cases backend with
  | memory store => rw [← h.1]; rfl
  | tables store => exact congrArg (·, Backend.tables store) (TableStore.Shows.listRules_eq h query)

/-- The device type that is shown is found. -/
theorem Shows.serve_findDeviceType (h : backend.Shows view) (reference : String) :
    backend.serve (.findDeviceType reference) = (.ok (DeviceType.find? view.deviceTypes reference), backend) := by
  cases backend with
  | memory store => rw [← h.1]; rfl
  | tables store =>
    have htypes := TableStore.Shows.deviceTypeList_eq h
    simp only [Backend.serve, TableStore.serve, htypes, Except.map]

/-- A rule is stored just as it is. -/
def Stores (backend : Backend) (rule : Rule) : Prop := (backend.serve (.findRule rule.id)).1 = .ok (some rule)

instance (backend : Backend) (rule : Rule) : Decidable (backend.Stores rule) :=
  inferInstanceAs (Decidable (_ = _))

/-- The stored rules are those that the store that is shown holds. -/
theorem Shows.stores_iff (h : backend.Shows view) : backend.Stores rule ↔ view.Holds rule := by
  rw [Stores, h.serve_findRule, Except.ok.injEq, MemoryStore.Holds]

/-- The states of a backend after so many records were written: calls of any kind come in any order, whichever
operations they belong to. The rules in memory are gone through in any order, and a store is opened again at any
time. -/
inductive Reachable : Backend → Nat → Prop
  | newMemory : Reachable (.memory .empty) 0
  | newTables : Reachable (.tables .empty) 0
  | serve {backend : Backend} {count : Nat} (h : Reachable backend count) (request : StoreCall) :
    Reachable (backend.serve request).2 (count + request.recordsWritten (backend.serve request).1)
  | reorder {store : MemoryStore} {count : Nat} {rules : List (Int64 × Rule)} (h : Reachable (.memory store) count)
    (hperm : rules.Perm store.rules) : Reachable (.memory { store with rules }) count
  | reopen {backend : Backend} {count : Nat} (h : Reachable backend count) : Reachable backend.reopen count

/-- What a program leaves is reachable. -/
theorem Reachable.run {α : Type} (h : Reachable backend count) (program : StoreProgram α) :
    Reachable (program.run Backend.serve backend).2 (count + program.recordsWritten backend) := by
  induction program generalizing backend count with
  | done result => exact h
  | call request next ih =>
    have hrest := ih (backend.serve request).1 (h.serve request)
    rw [Nat.add_assoc] at hrest
    exact hrest

/-- In every state that calls can leave, records are under their ids. -/
theorem Reachable.filed (h : Reachable backend count) : backend.Filed := by
  induction h with
  | newMemory => exact MemoryStore.keyed_empty
  | newTables => exact TableStore.filed_empty
  | serve _ request ih => exact ih.serve request
  | reorder _ hperm ih => exact MemoryStore.Keyed.of_perm ih hperm
  | reopen _ ih => exact ih.reopen

/-- A backend whose rules can be read shows a store in memory with distinct revisions until 2^64 records were written. -/
theorem Reachable.exists_shows (h : Reachable backend count) (hreadable : backend.Readable) (hcount : count < 2 ^ 64) :
    ∃ view, backend.Shows view ∧ view.Consistent ∧ view.writeCount + view.deviceTypes.length ≤ count := by
  induction h with
  | newMemory => exact ⟨.empty, ⟨rfl, MemoryStore.keyed_empty⟩, MemoryStore.consistent_new [], Nat.le_refl 0⟩
  | newTables => exact ⟨.empty, TableStore.shows_empty, MemoryStore.consistent_new [], Nat.le_refl 0⟩
  | @serve backend count h request ih =>
    -- What can be read after the call could be read before, as nothing that cannot be read is ever removed.
    obtain ⟨hbefore, hinserted⟩ := (h.filed.readable_serve_iff request).1 hreadable
    obtain ⟨view, hshows, hconsistent, hle⟩ := ih hbefore (by omega)
    -- The call is answered alike, so both sides count the same records.
    obtain ⟨hanswer, hleft⟩ := hshows.serve request
    have hlength := view.length_deviceTypes_serve_le request
    rw [hanswer] at hcount
    obtain ⟨after, hafter, hleaves⟩ := hleft (by omega) hinserted
    rw [hanswer]
    obtain ⟨hconsistent, hcounts⟩ := hleaves.consistent hconsistent hafter.keyed (by omega)
    exact ⟨after, hafter, hconsistent, by omega⟩
  | @reorder store count rules h hperm ih =>
    obtain ⟨view, hshows, hconsistent, hle⟩ := ih trivial hcount
    obtain ⟨rfl, hkeyed⟩ := hshows
    exact ⟨_, ⟨rfl, hkeyed.of_perm hperm⟩, hconsistent.of_perm hperm, hle⟩
  | @reopen backend count h ih =>
    cases backend with
    | memory store =>
      exact ⟨.empty, ⟨rfl, MemoryStore.keyed_empty⟩, MemoryStore.consistent_new [], Nat.zero_le _⟩
    | tables store =>
      obtain ⟨view, hshows, hconsistent, hle⟩ := ih hreadable hcount
      refine ⟨view, ?_, hconsistent, hle⟩
      rw [Backend.reopen, TableStore.Shows.reopen_eq hshows]
      exact hshows

end Backend

end TradeIn
