import TradeIn.Store.Memory
import TradeIn.Store.Tables

/-!
# Stores that fail

A store is one of the two backends behind faults and a deadline. A fault makes one kind of call fail, stay without
an answer, or, for a listing, lets another writer in between the listing and its answer. The deadline turns a call
that stays without an answer into an error.
-/

namespace TradeIn

/-- One of the two backends with what it holds. -/
inductive Backend where
  | memory (store : MemoryStore)
  | tables (store : TableStore)
  deriving DecidableEq, Repr

namespace Backend

/-- Answer a call. -/
def serve (request : StoreCall) : Backend → request.Result × Backend
  | memory store =>
    let answered := store.serve request
    (answered.1, .memory answered.2)
  | tables store =>
    let answered := store.serve request
    (answered.1, .tables answered.2)

/-- Close the store and open it again. What is held in memory is lost. -/
def reopen : Backend → Backend
  | memory _ => .memory .empty
  | tables store => .tables store.reopen

end Backend

/-- How a kind of call behaves. -/
inductive CallBehaviour where
  | normal
  /-- The call is never answered and does nothing. -/
  | hangs
  /-- The call fails and does nothing. -/
  | fails (error : StoreError)
  /-- Once, another writer sets whether a rule is active before a listing is answered. -/
  | race (id : Int64) (active : Bool)
  deriving DecidableEq, Repr

/-- A backend behind faults and a deadline. -/
structure GuardedStore where
  backend : Backend
  /-- The behaviour of the kinds of calls; other kinds behave normally. -/
  faults : List (StoreCall.Kind × CallBehaviour)
  /-- After how many milliseconds a call counts as failed. -/
  deadline : UInt64
  deriving DecidableEq, Repr

namespace GuardedStore

/-- A backend without faults. -/
def ofBackend (backend : Backend) (deadline : UInt64) : GuardedStore := ⟨backend, [], deadline⟩

/-- Set the behaviour of a kind of call. -/
def setFault (kind : StoreCall.Kind) (behaviour : CallBehaviour) (store : GuardedStore) : GuardedStore :=
  { store with faults := (kind, behaviour) :: store.faults.filter fun fault => fault.1 ≠ kind }

/-- The behaviour of a kind of call. -/
def behaviour (store : GuardedStore) (kind : StoreCall.Kind) : CallBehaviour :=
  (store.faults.lookup kind).getD .normal

/-- The error of a call that is not answered in time. -/
def timedOut (kind : StoreCall.Kind) (deadline : UInt64) : StoreError :=
  .unavailable s!"{kind.name} timed out after {deadline}ms"

/-- Pass a call on to the backend. -/
def forward (request : StoreCall) (store : GuardedStore) : request.Result × GuardedStore :=
  let answered := store.backend.serve request
  (answered.1, { store with backend := answered.2 })

/-- Let another writer in after a listing that succeeded. Its failure is the failure of the listing. -/
def interrupt (id : Int64) (active : Bool) {α : Type} (listed : Except StoreError α × GuardedStore) :
    Except StoreError α × GuardedStore :=
  match listed with
  | (.error error, store) => (.error error, store)
  | (.ok rules, store) =>
    let written := (store.setFault .listRules .normal).forward (.setRuleActive id active)
    match written.1 with
    | .ok _ => (.ok rules, written.2)
    | .error error => (.error error, written.2)

/-- Answer a call. -/
def serve (request : StoreCall) (store : GuardedStore) : request.Result × GuardedStore :=
  match store.behaviour request.kind with
  | .hangs => (.error (timedOut request.kind store.deadline), store)
  | .fails error => (.error error, store)
  | .race id active => interrupt id active (store.forward request)
  | .normal => store.forward request

/-- Close the store and open it again, without faults. -/
def reopen (store : GuardedStore) : GuardedStore :=
  { store with backend := store.backend.reopen, faults := [] }

end GuardedStore

end TradeIn
