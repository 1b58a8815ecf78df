import TradeIn.Catalog.DeviceTypes
import TradeIn.Config
import TradeIn.Directory
import TradeIn.Identifier
import TradeIn.Quote.Pricing
import TradeIn.Store.Faults

/-!
# The service

The service holds its configuration, the store, and the source of ids. Catalog operations are run alone against the
store, each to its end.
-/

namespace TradeIn

/-- The state of the service. -/
structure Service where
  config : Config
  store : GuardedStore
  ids : IdSource
  deriving DecidableEq, Repr

namespace Service

variable {α : Type}

/-- A service over a backend, each call to which has the configured deadline. -/
def ofBackend (config : Config) (backend : Backend) : Service :=
  ⟨config, .ofBackend backend config.storeTimeoutMs, .fresh⟩

/-- The error for a directory that stands where the file of tables should be. -/
def fileIsDirectory : StoreError := .database "I/O error: Is a directory (os error 21)"

/-- Start the service over a new store. The file of tables needs a directory. -/
def start (config : Config) : Except StartupError Service :=
  match config.backend with
  | .memory => .ok (ofBackend config (.memory .empty))
  | .file =>
    if Text.isAllBlank config.dataDir then .error (.config "DATA_DIR must not be empty")
    else match Directory.fault? config.dataDir with
      | some fault => .error (.io fault.message)
      | none =>
        if (Directory.Walk.ofPath config.dataDir).made Config.databaseName then .error (.store fileIsDirectory)
        else .ok (ofBackend config (.tables .empty))

/-- Run a store program. -/
def runProgram (program : StoreProgram α) (service : Service) : α × Service :=
  let ran := program.run GuardedStore.serve service.store
  (ran.1, { service with store := ran.2 })

/-- Run a catalog operation. -/
def run (program : CatalogProgram α) (service : Service) : Except PricingError α × Service :=
  service.runProgram program.run

/-- Make a single store call. -/
def call (request : StoreCall) (service : Service) : request.Result × Service :=
  service.runProgram (.ofCall request)

/-- Run an operation with a generated id, which is taken only if the operation needs one. -/
def runWithId (needed : Bool) (now : Int64) (operation : Int64 → CatalogProgram α) (service : Service) :
    Except PricingError α × Service :=
  let given := service.ids.next now
  let service := if needed then { service with ids := given.2 } else service
  service.run (operation given.1)

/-- Create a rule at the time that the clock shows. -/
def createRule (now : Int64) (draft : RuleDraft) (service : Service) : Except PricingError Rule × Service :=
  service.runWithId draft.accept.isOk now fun id => Catalog.createRule id now draft

/-- Whether the registration of a device type needs a generated id. -/
def needsId (draft : DeviceTypeDraft) : Bool :=
  match draft.accept with
  | .ok new => new.id.isNone
  | .error _ => false

/-- Register a device type at the time that the clock shows. -/
def registerDeviceType (now : Int64) (draft : DeviceTypeDraft) (service : Service) :
    Except PricingError DeviceType × Service :=
  service.runWithId (needsId draft) now fun id => Catalog.registerDeviceType id draft

/-- Price a request with the configured kind where it names none. -/
def quote (request : QuoteRequest) (service : Service) : Except PricingError Quote × Service :=
  service.run (Catalog.quote service.config.defaultRuleKind request)

/-- All rules of the store, newest first, read behind the faults. -/
def allRules (service : Service) : Except StoreError (List Rule) :=
  (service.store.backend.serve (.listRules ⟨none, none, false⟩)).1

end Service

end TradeIn
