import TradeIn.Proofs.Rule.Greatest

/-!
# Operations in flight

Operations that create and activate rules may be in flight together. They take turns call by call: whenever a call
is answered, any operation may make the next one. A call may also fail for the operation that made it. Its request
is then late: it may reach the store at any later moment, or never. A history lists what has happened, the latest
event first.
-/

namespace TradeIn.Catalog

/-- An operation that changes the rules of the catalog. -/
inductive Operation where
  /-- Create a rule with an id and a time of creation. -/
  | create (id createdAt : Int64) (draft : RuleDraft)
  | activate (id : Int64)

/-- The store program of an operation. -/
def Operation.program : Operation → StoreProgram (Except PricingError Rule)
  | create id createdAt draft => (createRule id createdAt draft).run
  | activate id => (activateRule id).run

/-- A store with operations in flight. -/
structure Traffic where
  store : MemoryStore
  /-- What is left of each operation that was started. -/
  running : List (StoreProgram (Except PricingError Rule))
  /-- Requests of failed calls that may still reach the store. -/
  late : List StoreCall

namespace Traffic

/-- No operation has begun over these device types. -/
def initial (types : List DeviceType) : Traffic := ⟨⟨[], types, 0⟩, [], []⟩

/-- Every operation that was started has its result. -/
def IsQuiet (traffic : Traffic) : Prop := ∀ program ∈ traffic.running, ∃ result, program = .done result

end Traffic

/-- Something that happens while operations are in flight. -/
inductive Event where
  | started (operation : Operation)
  /-- The store answered a call of an operation. -/
  | answered (request : StoreCall) (result : request.Result)
  /-- A call failed for the operation that made it. -/
  | failed (request : StoreCall) (error : StoreError)
  /-- A late request reached the store, and its result was lost. -/
  | landed (request : StoreCall) (result : request.Result)

namespace Event

/-- The rule that was written. -/
def written? : Event → Option Rule
  | answered request result => request.written? result
  | landed request result => request.written? result
  | _ => none

/-- The event comes from a failed call. -/
def IsFault : Event → Prop
  | failed _ _ => True
  | landed _ _ => True
  | _ => False

instance : DecidablePred IsFault
  | started _ | answered _ _ => .isFalse id
  | failed _ _ | landed _ _ => .isTrue trivial

end Event

/-- The rules as they were written, the latest first. -/
def writes (history : List Event) : List Rule := history.filterMap Event.written?

/-- The latest write that left a rule of these aliases and this kind active: an insertion of an active rule, or the
activation of a stored one. -/
def lastActivation? (aliases : AliasSet) (kind : String) (history : List Event) : Option Rule :=
  (writes history).find? fun rule => rule.isActive && rule.kind == kind && aliases.contains rule.typeAlias

/-- What may happen next. -/
inductive Step (traffic : Traffic) : Event → Traffic → Prop
  | start (operation : Operation) :
    Step traffic (.started operation) { traffic with running := operation.program :: traffic.running }
  | answer {before after : List (StoreProgram (Except PricingError Rule))} {request : StoreCall}
      {next : request.Result → StoreProgram (Except PricingError Rule)}
      (hrunning : traffic.running = before ++ .call request next :: after) :
    Step traffic (.answered request (traffic.store.serve request).1)
      { traffic with
        store := (traffic.store.serve request).2
        running := before ++ next (traffic.store.serve request).1 :: after }
  | fail {before after : List (StoreProgram (Except PricingError Rule))} {request : StoreCall}
      {next : request.Result → StoreProgram (Except PricingError Rule)} (error : StoreError)
      (hrunning : traffic.running = before ++ .call request next :: after) :
    Step traffic (.failed request error)
      { traffic with
        running := before ++ next (.error error) :: after
        late := request :: traffic.late }
  | land {before after : List StoreCall} {request : StoreCall}
      (hlate : traffic.late = before ++ request :: after) :
    Step traffic (.landed request (traffic.store.serve request).1)
      { traffic with store := (traffic.store.serve request).2, late := before ++ after }

/-- The histories over fixed device types, and what they lead to. -/
inductive Run (types : List DeviceType) : List Event → Traffic → Prop
  | nil : Run types [] (.initial types)
  | cons {history : List Event} {traffic next : Traffic} {event : Event} (hrun : Run types history traffic)
      (hstep : Step traffic event next) : Run types (event :: history) next

end TradeIn.Catalog
