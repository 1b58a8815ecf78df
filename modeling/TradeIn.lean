import TradeIn.Http.Api
import TradeIn.Json.Printer
import TradeIn.Proofs.DeviceType.AliasClass
import TradeIn.Proofs.Catalog.Interleaving
import TradeIn.Proofs.Catalog.Reliance
import TradeIn.Proofs.Rule.Greatest
import TradeIn.Proofs.Store.Writes
import TradeIn.Proofs.Catalog.Settling
import TradeIn.Proofs.Catalog.LastActivation
import TradeIn.Proofs.Number.Value
import TradeIn.Proofs.Json.Reading
import TradeIn.Proofs.Price.Floor
import TradeIn.Proofs.Condition.Codec
import TradeIn.Proofs.Price.Record
import TradeIn.Proofs.Json.NumberText
import TradeIn.Proofs.Quote.Reproduction
import TradeIn.Proofs.Number.Exact
import TradeIn.Proofs.Price.Sum
import TradeIn.Proofs.Price.FieldReading
import TradeIn.Proofs.Rule.Age
import TradeIn.Proofs.Store.Document
import TradeIn.Proofs.Store.Filed
import TradeIn.Proofs.Store.Rows
import TradeIn.Proofs.Store.Equivalence
import TradeIn.Proofs.Catalog.Alone
import TradeIn.Proofs.Catalog.Exclusivity
import TradeIn.Proofs.Condition.Depth
import TradeIn.Proofs.Catalog.Failures
import TradeIn.Proofs.Catalog.Registry
import TradeIn.Proofs.Catalog.Effect
import TradeIn.Proofs.Catalog.ClassRules
import TradeIn.Proofs.Catalog.Separation
import TradeIn.Proofs.Condition.DirectReading
import TradeIn.Proofs.Price.Absorption
import TradeIn.Proofs.Number.Nearest
import TradeIn.Proofs.Number.ShortestDigits
import TradeIn.Proofs.Json.NumberLexing
import TradeIn.Proofs.Json.Rereading
import TradeIn.Proofs.Store.View
import TradeIn.Proofs.Store.Reachable
import TradeIn.Proofs.Catalog.InEffect
import TradeIn.Proofs.Catalog.Insertions
import TradeIn.Proofs.Catalog.Takeover
import TradeIn.Proofs.Json.Equality
import TradeIn.Proofs.Condition.OperandOrder
import TradeIn.Proofs.Condition.RoundTrip
import TradeIn.Proofs.Price.Normalization
import TradeIn.Proofs.Number.Conversion
import TradeIn.Proofs.Quote.Bounds
import TradeIn.Proofs.Catalog.FindingCreated
import TradeIn.Proofs.Number.Closest
import TradeIn.Proofs.Price.NumericAnswer
import TradeIn.Proofs.Condition.DepthLimit
import TradeIn.Proofs.Catalog.Registration
import TradeIn.Proofs.Store.History
import TradeIn.Proofs.Json.PrintedTokens
import TradeIn.Proofs.Json.PrintedTree
import TradeIn.Proofs.Json.Excess
import TradeIn.Proofs.Json.Nesting
import TradeIn.Proofs.Json.Codec
import TradeIn.Proofs.Quote.Codecs
import TradeIn.Proofs.Identifier.Contention
import TradeIn.Proofs.Http.Readability
