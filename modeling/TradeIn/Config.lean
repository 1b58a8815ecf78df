import TradeIn.Error.Pricing
import TradeIn.Rule.Basic
import TradeIn.Text.Blank
import TradeIn.Text.Digits

/-!
# Configuration

The service is configured by environment variables. A variable that is not set, or whose value cannot be used, leaves
the default.
-/

namespace TradeIn

/-- The backend of the store that is configured. -/
inductive BackendKind where
  /-- A file of tables in the data directory. -/
  | file
  /-- The memory of the process, lost when it ends. -/
  | memory
  deriving DecidableEq, Repr

namespace BackendKind

/-- The name of the backend in the configuration. -/
def name : BackendKind → String
  | file => "redb"
  | memory => "memory"

/-- The backend with a name, which may be written in any case and with blanks around it. -/
def ofText (text : String) : Except String BackendKind :=
  let word := String.ofList ((Text.trimChars text.toList).map Char.toLower)
  if word = file.name then .ok file
  else if word = memory.name then .ok memory
  else .error s!"unknown store backend '{word}'"

end BackendKind

/-- The configuration of the service. -/
structure Config where
  httpPort : UInt16
  /-- The directory of the file of tables. -/
  dataDir : String
  backend : BackendKind
  /-- The deadline of a single store call in milliseconds. -/
  storeTimeoutMs : UInt64
  /-- The kind of rules that is meant when a request names none. -/
  defaultRuleKind : String
  logLevel : String
  logJson : Bool
  logDir : Option String
  environment : String
  deriving DecidableEq, Repr

namespace Config

/-- Read a switch, which is written in no other way than `true` and `false`. -/
def switch? (text : String) : Option Bool :=
  if text = "true" then some true else if text = "false" then some false else none

/-- The configuration that the environment variables give. -/
def ofEnvironment (setting : String → Option String) : Config where
  httpPort := (((setting "HTTP_PORT").bind (Text.natBelow? 65536)).map UInt16.ofNat).getD 3100
  dataDir := (setting "DATA_DIR").getD "./data"
  backend := ((setting "STORE_BACKEND").bind fun text => (BackendKind.ofText text).toOption).getD .file
  storeTimeoutMs :=
    (((setting "STORE_TIMEOUT_MS").bind (Text.natBelow? (2 ^ 64))).map UInt64.ofNat).getD 5000
  defaultRuleKind :=
    ((setting "DEFAULT_RULE_KIND").filter fun kind => !Text.isAllBlank kind).getD Rule.pricingKind
  logLevel := (setting "LOG_LEVEL").getD "info"
  logJson := ((setting "LOG_JSON").bind switch?).getD false
  logDir := (setting "LOG_DIR").filter fun dir => !dir.isEmpty
  environment := (setting "ENVIRONMENT").getD "development"

/-- The configuration with another data directory, port and backend. -/
def override (config : Config) (dataDir : String) (httpPort : UInt16) (backend : BackendKind) : Config :=
  { config with dataDir, httpPort, backend }

/-- The name of the file of tables. -/
def databaseName : String := "quotes.redb"

/-- The path of the file of tables. -/
def databasePath (config : Config) : String :=
  if config.dataDir.isEmpty then databaseName
  else if config.dataDir.toList.getLast? = some '/' then config.dataDir ++ databaseName
  else config.dataDir ++ "/" ++ databaseName

end Config

end TradeIn
