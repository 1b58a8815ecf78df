import Mathlib.Logic.Function.Iterate
import TradeIn.Proofs.Store.Intact

/-!
# The history of a store

What either backend holds is what the writes of rules have left there, one after the other (`Backend.Represents`), if each
body that was inserted can be read again; without that no rules are listed (`Backend.Run.listRules_isOk_iff`). Each
write has a revision greater than all before, so the revision of a stored rule tells which write was the last one to it. A
rule is inserted once and stays; from then on a write changes its activity and its revision and nothing else, except that
tables put its body through text again.
-/

namespace TradeIn

/-- Whether a call that succeeds makes a rule active. -/
def StoreCall.activates : StoreCall → Bool
  | insertRule rule => rule.isActive
  | setRuleActive _ active => active
  | setRuleActiveIf _ active _ => active
  | findRule _ | listRules _ | insertDeviceType _ | findDeviceType _ | listDeviceTypes => false

/-- A write of a rule: a call that succeeded, and the rule that it answered under its new revision. -/
structure RuleWrite where
  request : StoreCall
  answer : Rule
  deriving DecidableEq

namespace RuleWrite

/-- The write that a call was, if it was one. -/
def of? (request : StoreCall) (result : request.Result) : Option RuleWrite := (request.written? result).map (⟨request, ·⟩)

/-- Whether a write was to the rule with an id. -/
def isOf (id : Int64) (write : RuleWrite) : Bool := write.answer.id == id

/-- What a call inserts is the body of the rule of an insertion that it was. -/
theorem inserted?_eq_some_iff {request : StoreCall} {result : request.Result} {body : Json} :
    request.inserted? result = some body ↔
      ∃ rule answer, of? request result = some ⟨.insertRule rule, answer⟩ ∧ rule.body = body := by
  constructor
  · intro h
    obtain ⟨rule, rfl, rfl⟩ := StoreCall.exists_of_inserted? h
    cases result with
    | ok answer => exact ⟨rule, answer, rfl, rfl⟩
    | error error => cases h
  · rintro ⟨rule, answer, h, rfl⟩
    obtain ⟨written, hwritten, heq⟩ := Option.map_eq_some_iff.1 h
    obtain rfl : request = .insertRule rule := congrArg RuleWrite.request heq
    cases result with
    | ok answer => rfl
    | error error => cases hwritten

/-- A write is to the rule that it answers. -/
@[simp]
theorem isOf_iff {id : Int64} {write : RuleWrite} : write.isOf id = true ↔ write.answer.id = id := beq_iff_eq

/-- Whether a write made the rule with an id active. -/
def activated (id : Int64) (write : RuleWrite) : Bool := write.isOf id && write.request.activates

end RuleWrite

namespace MemoryStore

variable {view after : MemoryStore} {keep : Json → Json} {writes : List RuleWrite} {request : StoreCall} {rule : Rule}

/-- A store holds what writes have left of it, the latest of them first. A written body was kept as `keep` says. -/
structure Recalls (keep : Json → Json) (writes : List RuleWrite) (view : MemoryStore) : Prop where
  increasing : writes.Pairwise fun later earlier => earlier.answer.stamp < later.answer.stamp
  stamp_le : ∀ write ∈ writes, write.answer.stamp ≤ view.writeCount
  isActive_eq : ∀ write ∈ writes, write.answer.isActive = write.request.activates
  /-- What is found under an id is what the last write to it answered. -/
  rule?_eq : ∀ id, view.rule? id =
    (writes.find? (RuleWrite.isOf id)).map fun write => { write.answer with body := keep write.answer.body }
  /-- What was inserted is there, after so many writes. -/
  inserted : ∀ rule answer, ⟨.insertRule rule, answer⟩ ∈ writes → ∃ isActive revision, view.rule? rule.id =
    some { rule with isActive, revision, body := keep^[writes.countP (RuleWrite.isOf rule.id)] rule.body }
  exists_insertion : ∀ write ∈ writes, ∃ rule answer,
    ⟨.insertRule rule, answer⟩ ∈ writes ∧ rule.id = write.answer.id

/-- A new store has nothing to recall. -/
theorem recalls_empty (keep : Json → Json) : Recalls keep [] .empty :=
  ⟨.nil, by simp, by simp, fun _ => rfl, by simp, by simp⟩

/-- The order of the rules has no part in this. -/
theorem Recalls.of_perm (h : view.Recalls keep writes) (hkeyed : view.Keyed) {rules : List (Int64 × Rule)}
    (hperm : rules.Perm view.rules) : Recalls keep writes { view with rules } where
  increasing := h.increasing
  stamp_le := h.stamp_le
  isActive_eq := h.isActive_eq
  rule?_eq id := (hkeyed.rule?_of_perm hperm id).trans (h.rule?_eq id)
  inserted rule answer hmem := by
    rw [hkeyed.rule?_of_perm hperm]
    exact h.inserted rule answer hmem
  exists_insertion := h.exists_insertion

/-- What writes a rule makes it as active as it says. -/
theorem Writes.isActive_eq (h : view.Writes request rule) : rule.isActive = request.activates := by
  cases h <;> rfl

/-- What writes a rule inserts it, or writes again what is stored. -/
theorem Writes.insertion_or_rewriting (h : view.Writes request rule) (hkeyed : view.Keyed) :
    (∃ new : Rule, request = .insertRule new ∧ view.rule? new.id = none ∧
      rule = { new with revision := view.revision + 1 }) ∨
    (∀ new, request ≠ .insertRule new) ∧ ∃ stored active, view.rule? stored.id = some stored ∧
      rule = stored.rewritten active (view.revision + 1) := by
  cases h with
  | insert hfree => exact .inl ⟨_, rfl, hfree, rfl⟩
  | set active hstored => exact .inr ⟨by simp, _, active, hkeyed.holds_of_rule? hstored, rfl⟩
  | setIf active hstored => exact .inr ⟨by simp, _, active, hkeyed.holds_of_rule? hstored, rfl⟩

/-- What was inserted is still there after a write, with its body kept once more if the write was to it. -/
theorem Recalls.inserted_of_follows (h : view.Recalls keep writes) (hkeyed : view.Keyed)
    (hwrites : view.Writes request rule) (hfollows : view.Follows { rule with body := keep rule.body } after)
    (new answer : Rule) (hmem : ⟨.insertRule new, answer⟩ ∈ ⟨request, rule⟩ :: writes) :
    ∃ isActive revision, after.rule? new.id = some { new with
      isActive, revision, body := keep^[(⟨request, rule⟩ :: writes).countP (RuleWrite.isOf new.id)] new.body } := by
  rw [hfollows.rule?_eq, List.countP_cons]
  rcases hwrites.insertion_or_rewriting hkeyed with ⟨fresh, rfl, hfree, rfl⟩ | ⟨hnot, stored, active, hstored, rfl⟩
  · -- No write to a free id came before.
    have hnone : ∀ write ∈ writes, ¬ write.isOf fresh.id = true := by
      rwa [h.rule?_eq, Option.map_eq_none_iff, List.find?_eq_none] at hfree
    rcases List.mem_cons.1 hmem with hhead | htail
    · obtain rfl : new = fresh := by simpa using congrArg RuleWrite.request hhead
      have hcount : writes.countP (RuleWrite.isOf new.id) = 0 := List.countP_eq_zero.2 hnone
      refine ⟨new.isActive, view.revision + 1, ?_⟩
      simp [hcount]
    · obtain ⟨isActive, revision, hstored⟩ := h.inserted new answer htail
      have hne : new.id ≠ fresh.id := fun heq => by
        rw [heq, hfree] at hstored
        cases hstored
      refine ⟨isActive, revision, ?_⟩
      rw [if_neg hne, hstored]
      simp [Ne.symm hne]
  · have htail : ⟨.insertRule new, answer⟩ ∈ writes :=
      (List.mem_cons.1 hmem).resolve_left fun hhead => hnot new (congrArg RuleWrite.request hhead).symm
    obtain ⟨isActive, revision, hnew⟩ := h.inserted new answer htail
    by_cases hid : new.id = stored.id
    · have heq := hid ▸ hstored
      rw [hnew, Option.some.injEq] at heq
      subst heq
      refine ⟨active, view.revision + 1, ?_⟩
      simp [Rule.rewritten, Function.iterate_succ_apply']
    · refine ⟨isActive, revision, ?_⟩
      have hne : stored.id ≠ new.id := Ne.symm hid
      simp [Rule.rewritten, hid, hne, hnew]

/-- What writes have left is left with one more. -/
theorem Recalls.write (h : view.Recalls keep writes) (hkeyed : view.Keyed) (hwrites : view.Writes request rule)
    (hfollows : view.Follows { rule with body := keep rule.body } after)
    (hroom : view.writeCount + 1 < 2 ^ 64) : after.Recalls keep (⟨request, rule⟩ :: writes) where
  increasing := by
    have hcount := hfollows.writeCount_eq (hfollows.writeCount_le hroom)
    have hstamp : rule.stamp = after.writeCount := hfollows.stamp_eq_writeCount
    refine List.pairwise_cons.2 ⟨fun write hmem => ?_, h.increasing⟩
    have hle := h.stamp_le write hmem
    change write.answer.stamp < rule.stamp
    omega
  stamp_le := by
    have hcount := hfollows.writeCount_eq (hfollows.writeCount_le hroom)
    have hstamp : rule.stamp = after.writeCount := hfollows.stamp_eq_writeCount
    intro write hmem
    rcases List.mem_cons.1 hmem with rfl | hold
    · exact Nat.le_of_eq hstamp
    · have hle := h.stamp_le write hold
      omega
  isActive_eq := List.forall_mem_cons.2 ⟨hwrites.isActive_eq, h.isActive_eq⟩
  rule?_eq id := by
    rw [hfollows.rule?_eq, h.rule?_eq]
    by_cases hid : id = rule.id
    · rw [if_pos hid, List.find?_cons_of_pos (RuleWrite.isOf_iff.2 hid.symm)]
      rfl
    · rw [if_neg hid, List.find?_cons_of_neg fun hof => hid (RuleWrite.isOf_iff.1 hof).symm]
  inserted := h.inserted_of_follows hkeyed hwrites hfollows
  exists_insertion := by
    intro write hmem
    rcases List.mem_cons.1 hmem with rfl | hold
    · rcases hwrites.insertion_or_rewriting hkeyed with ⟨new, rfl, -, rfl⟩ | ⟨-, stored, active, hstored, rfl⟩
      · exact ⟨new, _, List.mem_cons_self, rfl⟩
      · -- What is stored was written before, and so inserted before.
        rw [h.rule?_eq, Option.map_eq_some_iff] at hstored
        obtain ⟨earlier, hfind, -⟩ := hstored
        obtain ⟨new, answer, hinsertion, hid⟩ := h.exists_insertion earlier (List.mem_of_find?_eq_some hfind)
        have hof : earlier.isOf stored.id = true := List.find?_some hfind
        exact ⟨new, answer, List.mem_cons_of_mem _ hinsertion, hid.trans (RuleWrite.isOf_iff.1 hof)⟩
    · obtain ⟨new, answer, hinsertion, hid⟩ := h.exists_insertion write hold
      exact ⟨new, answer, List.mem_cons_of_mem _ hinsertion, hid⟩

/-- A call adds the write that it was, if any, to what a store recalls. -/
theorem Recalls.leaves (h : view.Recalls keep writes) (hkeyed : view.Keyed) (hleaves : view.Leaves keep request after)
    (hroom : view.writeCount + request.recordsWritten (view.serve request).1 < 2 ^ 64) :
    after.Recalls keep ((RuleWrite.of? request (view.serve request).1).toList ++ writes) := by
  cases hleaves with
  | written hwritten hwrites hfollows =>
    rw [StoreCall.recordsWritten_of_written? hwritten] at hroom
    rw [RuleWrite.of?, hwritten]
    exact h.write hkeyed hwrites hfollows hroom
  | unwritten hnone =>
    obtain ⟨-, hrules, hrevision⟩ := (hkeyed.serve_cases request).resolve_left (by simp [hnone])
    have hrule : ∀ id, (view.serve request).2.rule? id = view.rule? id := fun id => by rw [rule?, hrules, rule?]
    have hcount : (view.serve request).2.writeCount = view.writeCount := by rw [writeCount, hrevision, writeCount]
    rw [RuleWrite.of?, hnone]
    refine ⟨h.increasing, ?_, h.isActive_eq, fun id => (hrule id).trans (h.rule?_eq id), ?_, h.exists_insertion⟩
    · rw [hcount]
      exact h.stamp_le
    · intro rule answer hmem
      rw [hrule]
      exact h.inserted rule answer hmem

end MemoryStore

namespace RuleWrite

variable {id : Int64} {write : RuleWrite} {writes : List RuleWrite}

/-- If the last write to a rule made it active, then it is also the last that did. -/
theorem find?_activated (h : writes.find? (isOf id) = some write) (hactivates : write.request.activates = true) :
    writes.find? (activated id) = some write := by
  obtain ⟨hof, later, earlier, rfl, hlater⟩ := List.find?_eq_some_iff_append.1 h
  refine List.find?_eq_some_iff_append.2 ⟨by rw [activated, hof, hactivates, Bool.and_true], later, earlier, rfl, ?_⟩
  intro other hother
  have hnot : other.isOf id = false := by simpa using hlater other hother
  rw [activated, hnot, Bool.false_and, Bool.not_false]

end RuleWrite

namespace Backend

variable {start backend : Backend} {writes : List RuleWrite} {count : Nat}

/-- Calls of any kind lead from one backend to another. On the way they write rules, listed with the latest first, and a
number of records in all. The rules in memory are gone through in any order, and tables are opened again at any time. -/
inductive Run (start : Backend) : List RuleWrite → Nat → Backend → Prop
  | stay : Run start [] 0 start
  | serve {writes : List RuleWrite} {count : Nat} {backend : Backend} (h : Run start writes count backend)
    (request : StoreCall) :
    Run start ((RuleWrite.of? request (backend.serve request).1).toList ++ writes)
      (count + request.recordsWritten (backend.serve request).1) (backend.serve request).2
  | reorder {writes : List RuleWrite} {count : Nat} {store : MemoryStore} {rules : List (Int64 × Rule)}
    (h : Run start writes count (.memory store)) (hperm : rules.Perm store.rules) :
    Run start writes count (.memory { store with rules })
  | reopen {writes : List RuleWrite} {count : Nat} {store : TableStore} (h : Run start writes count (.tables store)) :
    Run start writes count (.tables store.reopen)

/-- The revision of the last write of a rule. -/
def lastRevision : Backend → UInt64
  | memory store => store.revision
  | tables store => (Table.get? store.counters TableStore.revisionCounter).getD 0

/-- The rules of a backend are what the writes so far, the latest of them first, have left of them. -/
structure Represents (writes : List RuleWrite) (backend : Backend) : Prop where
  id_eq : ∀ id rule, backend.rule? id = some rule → rule.id = id
  /-- What is listed is what is stored. -/
  listed : ∀ query, ∃ listed, backend.serve (.listRules query) = (.ok listed, backend) ∧
    ∀ rule, rule ∈ listed ↔ backend.Stores rule ∧ query.accepts rule = true
  revision_injective : ∀ a b, backend.Stores a → backend.Stores b → a.revision = b.revision → a = b
  revision_bounds : ∀ rule, backend.Stores rule → 1 ≤ rule.revision ∧ rule.revision ≤ backend.lastRevision
  /-- A write has a greater revision than every write before. -/
  increasing : writes.Pairwise fun later earlier => earlier.answer.revision < later.answer.revision
  /-- What was inserted is stored, with another activity and revision at most, and its body kept once for every write. -/
  inserted : ∀ rule answer, ⟨.insertRule rule, answer⟩ ∈ writes → ∃ isActive revision, backend.Stores { rule with
    isActive, revision, body := backend.kept^[writes.countP (RuleWrite.isOf rule.id)] rule.body }
  exists_insertion : ∀ rule, backend.Stores rule → ∃ new answer, ⟨.insertRule new, answer⟩ ∈ writes ∧ new.id = rule.id
  /-- An active rule has the revision of the last write that made it active. -/
  activated : ∀ rule, backend.Stores rule → rule.isActive = true →
    ∃ write, writes.find? (RuleWrite.activated rule.id) = some write ∧ write.answer.revision = rule.revision

/-- A backend counts the writes of the store that it shows. -/
theorem Shows.lastRevision_eq {view : MemoryStore} (h : backend.Shows view) : backend.lastRevision = view.revision := by
  cases backend with
  | memory store => rw [lastRevision, h.1]
  | tables store => rw [lastRevision, TableStore.Shows.revision h, Option.getD_some]

/-- The same bodies can be read again throughout a run. -/
theorem Run.rereads_eq (h : start.Run writes count backend) : backend.Rereads = start.Rereads := by
  induction h with
  | stay => rfl
  | serve h request ih => exact (rereads_serve request _).trans ih
  | reorder h hperm ih => exact ih
  | reopen h ih => exact ih

/-- A run from a new backend leaves records under their ids. -/
theorem Run.filed (hnew : start = .memory .empty ∨ start = .tables .empty) (h : start.Run writes count backend) :
    backend.Filed := by
  induction h with
  | stay =>
    rcases hnew with rfl | rfl
    · exact MemoryStore.keyed_empty
    · exact TableStore.filed_empty
  | serve _ request ih => exact ih.serve request
  | reorder _ hperm ih => exact MemoryStore.Keyed.of_perm ih hperm
  | reopen _ ih => exact ih.reopen

/-- After a run from a new backend all rules can be read just if that holds of each body that was inserted. -/
theorem Run.readable_iff (hnew : start = .memory .empty ∨ start = .tables .empty) (h : start.Run writes count backend) :
    backend.Readable ↔ ∀ rule answer, ⟨.insertRule rule, answer⟩ ∈ writes → start.Rereads rule.body := by
  induction h with
  | stay =>
    rcases hnew with rfl | rfl
    · exact iff_of_true trivial (by simp)
    · exact iff_of_true (by simp [Readable, TableStore.Readable, TableStore.empty, TableStore.reopen]) (by simp)
  | serve h request ih =>
    rw [(h.filed hnew).readable_serve_iff request, ih, h.rereads_eq]
    simp only [Option.mem_def, RuleWrite.inserted?_eq_some_iff, List.mem_append, Option.mem_toList]
    constructor
    · rintro ⟨hbefore, hinserted⟩ rule answer (hnow | hmem)
      · exact hinserted _ ⟨rule, answer, hnow, rfl⟩
      · exact hbefore rule answer hmem
    · intro hall
      refine ⟨fun rule answer hmem => hall rule answer (.inr hmem), ?_⟩
      rintro _ ⟨rule, answer, hnow, rfl⟩
      exact hall rule answer (.inl hnow)
  | reorder h hperm ih => exact ih
  | reopen h ih => exact ih

/-- So from then on rules are listed just if each body that was inserted can be read again. -/
theorem Run.listRules_isOk_iff (hnew : start = .memory .empty ∨ start = .tables .empty)
    (h : start.Run writes count backend) (query : RuleQuery) :
    (∃ listed, (backend.serve (.listRules query)).1 = .ok listed) ↔
      ∀ rule answer, ⟨.insertRule rule, answer⟩ ∈ writes → start.Rereads rule.body :=
  ((h.filed hnew).listRules_isOk_iff query).trans (h.readable_iff hnew)

/-- A run of fewer than 2^64 writes from a new backend leaves one that shows what the writes have left, if all rules can be
read. -/
theorem Run.exists_recalls (hnew : start = .memory .empty ∨ start = .tables .empty)
    (h : start.Run writes count backend) (hreadable : backend.Readable) (hcount : count < 2 ^ 64) :
    ∃ view, backend.Shows view ∧ view.Consistent ∧ view.writeCount + view.deviceTypes.length ≤ count ∧
      view.Recalls backend.kept writes := by
  induction h with
  | stay =>
    refine ⟨.empty, ?_, MemoryStore.consistent_new [], Nat.le_refl 0, MemoryStore.recalls_empty _⟩
    rcases hnew with rfl | rfl
    · exact ⟨rfl, MemoryStore.keyed_empty⟩
    · exact TableStore.shows_empty
  | @serve writes count backend h request ih =>
    obtain ⟨hbefore, hinserted⟩ := ((h.filed hnew).readable_serve_iff request).1 hreadable
    obtain ⟨view, hshows, hconsistent, hle, hrecalls⟩ := ih hbefore (by omega)
    -- The call is answered alike, so both sides count the same records.
    obtain ⟨hanswer, hleft⟩ := hshows.serve request
    have hlength := view.length_deviceTypes_serve_le request
    rw [hanswer] at hcount
    obtain ⟨after, hafter, hleaves⟩ := hleft (by omega) hinserted
    rw [hanswer]
    obtain ⟨hafterConsistent, hcounts⟩ := hleaves.consistent hconsistent hafter.keyed (by omega)
    rw [kept_serve]
    exact ⟨after, hafter, hafterConsistent, by omega, hrecalls.leaves hconsistent.keyed hleaves (by omega)⟩
  | reorder h hperm ih =>
    obtain ⟨view, hshows, hconsistent, hle, hrecalls⟩ := ih hreadable hcount
    obtain ⟨rfl, hkeyed⟩ := hshows
    exact ⟨_, ⟨rfl, hkeyed.of_perm hperm⟩, hconsistent.of_perm hperm, hle, hrecalls.of_perm hkeyed hperm⟩
  | reopen h ih =>
    obtain ⟨view, hshows, hconsistent, hle, hrecalls⟩ := ih hreadable hcount
    rw [TableStore.Shows.reopen_eq hshows]
    exact ⟨view, hshows, hconsistent, hle, hrecalls⟩

/-- After any calls with fewer than 2^64 writes, on either backend and with tables opened again at any time, if each body
that was inserted can be read again, every rule is stored under its own id and listed; the revisions are distinct and lie
between 1 and the counter; every write had a greater revision than all before; every rule that was inserted is still stored,
and differs from what was inserted in its activity, its revision, and on tables in its body as far as that does not come
back from text; and the revision of an active rule is that of the last write that made it active. -/
theorem represents_of_run (hnew : start = .memory .empty ∨ start = .tables .empty)
    (h : start.Run writes count backend)
    (hbodies : ∀ rule answer, ⟨.insertRule rule, answer⟩ ∈ writes → start.Rereads rule.body) (hcount : count < 2 ^ 64) :
    backend.Represents writes := by
  obtain ⟨view, hshows, hconsistent, -, hrecalls⟩ := h.exists_recalls hnew ((h.readable_iff hnew).2 hbodies) hcount
  have hfound : ∀ id, backend.rule? id = view.rule? id := fun id => by rw [rule?, hshows.serve_findRule]
  have hstores : ∀ rule, backend.Stores rule ↔ view.rule? rule.id = some rule := fun rule => hshows.stores_iff
  refine ⟨fun id rule hrule => ?_, fun query => ?_, fun a b ha hb heq => ?_, fun rule hrule => ⟨?_, ?_⟩, ?_,
    fun rule answer hmem => ?_, fun rule hrule => ?_, fun rule hrule hactive => ?_⟩
  · rw [hfound] at hrule
    exact hconsistent.keyed.id_eq_of_rule? hrule
  · refine ⟨_, hshows.serve_listRules query, fun rule => ?_⟩
    rw [hconsistent.keyed.mem_listRules_iff, hshows.stores_iff]
  · exact hconsistent.stamp_injective a b (hshows.stores_iff.1 ha) (hshows.stores_iff.1 hb) (congrArg UInt64.toNat heq)
  · exact UInt64.le_iff_toNat_le.2 (hconsistent.stamp_pos rule (hshows.stores_iff.1 hrule))
  · rw [hshows.lastRevision_eq]
    exact UInt64.le_iff_toNat_le.2 (hconsistent.stamp_le rule (hshows.stores_iff.1 hrule))
  · exact hrecalls.increasing.imp fun hlt => UInt64.lt_iff_toNat_lt.2 hlt
  · obtain ⟨isActive, revision, hrule⟩ := hrecalls.inserted rule answer hmem
    exact ⟨isActive, revision, (hstores _).2 hrule⟩
  · rw [hstores, hrecalls.rule?_eq, Option.map_eq_some_iff] at hrule
    obtain ⟨write, hfind, -⟩ := hrule
    obtain ⟨new, answer, hinsertion, hid⟩ := hrecalls.exists_insertion write (List.mem_of_find?_eq_some hfind)
    have hof : write.isOf rule.id = true := List.find?_some hfind
    exact ⟨new, answer, hinsertion, hid.trans (RuleWrite.isOf_iff.1 hof)⟩
  · rw [hstores, hrecalls.rule?_eq, Option.map_eq_some_iff] at hrule
    obtain ⟨write, hfind, heq⟩ := hrule
    have hactivates : write.request.activates = true := by
      rw [← hrecalls.isActive_eq write (List.mem_of_find?_eq_some hfind)]
      exact (congrArg Rule.isActive heq).trans hactive
    exact ⟨write, RuleWrite.find?_activated hfind hactivates, by rw [← heq]⟩

/-- Where the body of an inserted rule is kept as it is, a write changes nothing but activity and revision. -/
theorem Represents.inserted_unchanged (h : backend.Represents writes) {rule answer : Rule}
    (hmem : ⟨.insertRule rule, answer⟩ ∈ writes) (hkept : backend.kept rule.body = rule.body) :
    ∃ isActive revision, backend.Stores { rule with isActive, revision } := by
  obtain ⟨isActive, revision, hrule⟩ := h.inserted rule answer hmem
  rw [Function.iterate_fixed hkept] at hrule
  exact ⟨isActive, revision, hrule⟩

/-- A rule with a body that holds a weight. -/
private def weightedRule (id : Int64) (isActive : Bool) (weight : Number) (revision : UInt64) : Rule where
  id
  typeAlias := "PHONE"
  kind := Rule.pricingKind
  version := 1
  isActive
  body := .object [("weight", .number weight)]
  createdAt := 10
  revision

/-- On tables, two insertions, an activation, a write that is refused for its revision, and one that is not, with the
tables opened again in between. -/
theorem represents_of_run_reopened :
    ∃ writes backend, Run (.tables .empty) writes 4 backend ∧
      (∀ rule answer, ⟨.insertRule rule, answer⟩ ∈ writes → (tables .empty).Rereads rule.body) ∧
      writes.map (fun write => write.answer.revision) = [4, 3, 2, 1] ∧ backend.Represents writes := by
  have hrun : Run (.tables .empty) _ _ _ :=
    (((Run.stay.serve (.insertRule (weightedRule 1 false (.ofInt64 5) 0))).serve
      (.insertRule (weightedRule 2 true (.ofInt64 6) 0))).serve (.setRuleActive 1 true)).reopen
  have hlast : Run (.tables .empty) _ _ _ := (hrun.serve (.setRuleActiveIf 2 false 7)).serve (.setRuleActiveIf 2 false 2)
  have hbodies := (hlast.readable_iff (.inr rfl)).1 (by decide +kernel)
  exact ⟨_, _, hlast, hbodies, by decide +kernel, represents_of_run (.inr rfl) hlast hbodies (by decide +kernel)⟩

/-- A number a few places above 6.458023373509767e242. -/
private def farNumber (places : Fin 3) : Number :=
  .binary ⟨false, ⟨8239395385945212841 + places, by omega⟩⟩

/-- On tables, a write that is to change the activity of a rule can change its body. -/
theorem setRuleActive_changes_body :
    let inserted := ((Backend.tables .empty).serve (.insertRule (weightedRule 1 false (farNumber 0) 0))).2
    let activated := (inserted.serve (.setRuleActive 1 true)).2
    inserted.Stores (weightedRule 1 false (farNumber 1) 1) ∧ activated.Stores (weightedRule 1 true (farNumber 2) 2) ∧
      (weightedRule 1 true (farNumber 2) 2).body ≠ (weightedRule 1 false (farNumber 1) 1).body := by
  decide +kernel

end Backend

end TradeIn
