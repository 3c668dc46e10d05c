import Backtesting.Currency
import Backtesting.Decimal.Text
import Backtesting.Document.Basic

/-!
Everything that can go wrong, by cause. `label?` is the class under which an error of the domain is
reported; the errors without a label are faults of a value or of the environment that no rule of
the domain foresees. `message` is the wording.
-/
namespace Backtesting

/-- A fault of one place of a configuration. The text is given for the rules of this library. -/
structure ConfigFault where
  location : List String
  text : Option String
deriving DecidableEq, Repr

/-- The factory that builds a component from its declaration. -/
inductive Factory
  | sizer | pricing | allocator | strategy
deriving DecidableEq, Repr

def Factory.name : Factory → String
  | sizer => "PositionSizerFactory"
  | pricing => "OrderPricingFactory"
  | allocator => "CapitalAllocationFactory"
  | strategy => "StrategyFactory"

def Factory.component : Factory → String
  | sizer => "position sizer"
  | pricing => "order pricing"
  | allocator => "capital allocation"
  | strategy => "strategy"

inductive Error
  -- configuration
  | unsupportedFrequency (value : Document)
  | unsupportedCurrency (value : Document)
  | unnamedStrategy
  | noAssets (strategy : String)
  | duplicateStrategy (portfolio strategy : String)
  | noStrategies (portfolio : String)
  | listedTwice (portfolio asset : String) (first second : Currency)
  | fxBaseMismatch (portfolio : String) (history base : Currency)
  | averageWindows (strategy : String) (fast slow : Int)
  | negativeWeight (asset : String) (weight : Decimal)
  | shortLookback (lookback : Int)
  | missingType (factory : Factory)
  | badParameters (factory : Factory) (type : String)
  | snapshotBase (snapshot portfolio : String)
  | notFresh (portfolio : String)
  | configNotFound (path : String)
  | invalidConfig (path : String) (faults : List ConfigFault)
  | unknownStrategy (name : String)
  | assetNotConfigured (asset what : String)
  | unsupportedEvent (portfolio event : String)
  | unknownComponent (factory : Factory) (type : String) (registered : List String)
  -- data
  | noMarketData (date : Date) (asset : String)
  | noFxRate (date : Date) (currency : Currency)
  | noDataFile (path : String)
  | unreadableTable (path : String)
  | missingColumns (table : String) (columns : List String)
  | tableDate (table : String) (value : Document)
  | invalidBar (asset : String) (date : Date) (cause : String)
  | invalidFxRate (date : Date) (cause : String)
  -- sequence and values
  | outOfOrder (what : String) (date last : Date)
  | negativeBarField (field : String) (value : Decimal)
  | negativeVolume (volume : Int)
  | splitNotPositive (coefficient : Decimal)
  | rateNotPositive (currency : String) (date : Date) (rate : Decimal)
  | closeNotPositive (asset : String) (date : Date) (close : Decimal)
  | orderQuantity (quantity : Document)
  | orderWithoutPrice (type asset : String)
  | orderWithoutPrices (asset : String)
  | orderPrice (field : String) (price : Decimal)
  -- statistics
  | emptySeries
  | tooFewObservations (count : Nat)
  | unequalLengths (returns benchmark : Nat)
  | zeroEquity (position : Nat)
  | invalidReturn (index : Nat) (value : Float)
  | noYears
  | growthOverflow
  -- values and environment
  | decimal (fault : Decimal.Fault)
  | unknownCode
  | unreadableNumber
  | notANumber
  | infiniteNumber
  | numberTooLarge
  | floatDivisionByZero
  | dateOutOfRange
  | daysOutOfRange
  | unreadableDate (value : Document)
  | wrongType
  | missingKey
  | missingAttribute
  | unpairedParameter
  | replayNotReady
  | abstractStep
  | failed (text : String)
  | invalidModel (faults : List ConfigFault)
  | fileNotFound
  | notADirectory
  | isADirectory
  | unnamedFile
  | unreadableConfig

namespace Error

def label? : Error → Option String
  | unsupportedFrequency _ | unsupportedCurrency _ | unnamedStrategy | noAssets _
  | duplicateStrategy .. | noStrategies _ | listedTwice .. | fxBaseMismatch .. | averageWindows ..
  | negativeWeight .. | shortLookback _ | missingType _ | badParameters .. | snapshotBase ..
  | notFresh _ | configNotFound _ | invalidConfig .. => some "ConfigurationError"
  | unknownStrategy _ => some "UnknownStrategyError"
  | assetNotConfigured .. => some "AssetNotConfiguredError"
  | unsupportedEvent .. => some "UnsupportedEventError"
  | unknownComponent .. => some "UnknownComponentError"
  | noMarketData .. => some "MarketDataNotFoundError"
  | noFxRate .. => some "FxRateNotFoundError"
  | noDataFile _ | unreadableTable _ | missingColumns .. | tableDate .. | invalidBar ..
  | invalidFxRate .. => some "MarketDataRetrievalError"
  | outOfOrder .. => some "TemporalOrderError"
  | negativeBarField .. | negativeVolume _ | splitNotPositive _ | rateNotPositive ..
  | closeNotPositive .. => some "InvalidValueError"
  | orderQuantity _ | orderWithoutPrice .. | orderWithoutPrices _ | orderPrice .. =>
      some "OrderValidationError"
  | emptySeries | tooFewObservations _ | unequalLengths .. => some "InsufficientDataError"
  | zeroEquity _ | invalidReturn .. | noYears | growthOverflow => some "CalculationError"
  | _ => none

def faultMessage : Decimal.Fault → String
  | .badText => "[<class 'decimal.ConversionSyntax'>]"
  | .invalidOperation => "[<class 'decimal.InvalidOperation'>]"
  | .divisionByZero => "[<class 'decimal.DivisionByZero'>]"
  | .overflow => "[<class 'decimal.Overflow'>]"
  | .integerOfNaN => "cannot convert NaN to integer"
  | .integerOfInfinity => "cannot convert Infinity to integer"
  | .floatOfSignalingNaN => "cannot convert signaling NaN to float"

/-- A fault on a line of its own. -/
def faultLine (f : ConfigFault) : String :=
  "\n  " ++ ".".intercalate f.location ++ (f.text.map (": " ++ ·)).getD ""

def message : Error → String
  | unsupportedFrequency v => s!"unsupported rebalancing frequency: {v.quotedForm}"
  | unsupportedCurrency v => s!"unsupported currency code: {v.quotedForm}"
  | unnamedStrategy => "strategy name must be a non-empty string"
  | noAssets s => s!"[{s}] strategy must trade at least one asset"
  | duplicateStrategy p s => s!"[{p}] duplicate strategy name: {Text.quoted s}"
  | noStrategies p => s!"[{p}] portfolio needs at least one strategy"
  | listedTwice p a first second =>
      s!"[{p}] asset {a} listed in {first.code} and {second.code}"
  | fxBaseMismatch p h b => s!"[{p}] fx history base {h.code} != portfolio base {b.code}"
  | averageWindows s fast slow =>
      s!"[{s}] need 0 < fast < slow, got fast={fast} slow={slow}"
  | negativeWeight a w => s!"weight for {a} must be >= 0, got {w.toText}"
  | shortLookback n => s!"lookback must be >= 2, got {n}"
  | missingType .strategy => "[StrategyFactory] missing 'type' in strategy config"
  | missingType f => s!"[{f.name}] missing 'type' in component config"
  | badParameters f t => s!"[{f.name}] bad params for {t}"
  | snapshotBase s p => s!"snapshot base {s} != portfolio base {p}"
  | notFresh p => s!"[{p}] restore needs a freshly built portfolio"
  | configNotFound p => s!"Config file not found: {p}"
  | invalidConfig p faults => s!"invalid config {p}:" ++ String.join (faults.map faultLine)
  | unknownStrategy s => s!"unknown strategy: {Text.quoted s}"
  | assetNotConfigured a what => s!"asset {Text.quoted a} has no configured {what}"
  | unsupportedEvent p e => s!"[{p}] no handler for event {e}"
  | unknownComponent .strategy t _ => s!"[StrategyFactory] unknown strategy type: {t}"
  | unknownComponent f t rs =>
      s!"[{f.name}] unknown {f.component} type: {t} (registered: {Text.quotedList rs})"
  | noMarketData d a => s!"no market data for {Text.quoted a} on {d.toText}"
  | noFxRate d c => s!"no fx rate for {c.code} on {d.toText}"
  | noDataFile p => s!"data file not found: {p}"
  | unreadableTable p => s!"cannot read {p}"
  | missingColumns t cs => s!"{t} table is missing columns: {Text.quotedList cs}"
  | tableDate t v => s!"{t} table has an invalid date: cannot parse date: {v.quotedForm}"
  | invalidBar a d cause => s!"invalid bar for {a} on {d.toText}: {cause}"
  | invalidFxRate d cause => s!"invalid fx rate on {d.toText}: {cause}"
  | outOfOrder what d last =>
      s!"{what} date {d.toText} is earlier than last recorded date {last.toText}"
  | negativeBarField f v => s!"MarketData.{f} must be >= 0, got {v.toText}"
  | negativeVolume v => s!"MarketData.volume must be >= 0, got {v}"
  | splitNotPositive v => s!"MarketData.split_coefficient must be > 0, got {v.toText}"
  | rateNotPositive c d r => s!"fx rate for {c} on {d.toText} must be > 0, got {r.toText}"
  | closeNotPositive a d c => s!"cannot size {a} on {d.toText}: close price is {c.toText}"
  | orderQuantity q => s!"order quantity must be a positive integer, got {q.plainText}"
  | orderWithoutPrice t a => s!"{t} order for {a} requires a primary price"
  | orderWithoutPrices a =>
      s!"StopLimit order for {a} requires both primary and secondary prices"
  | orderPrice f p => s!"order {f} must be > 0, got {p.toText}"
  | emptySeries => "empty series"
  | tooFewObservations n => s!"need at least 2 observations, got {n}"
  | unequalLengths r b => s!"returns and benchmark returns differ in length: {r} != {b}"
  | zeroEquity i => s!"equity curve is zero at position {i}; daily return undefined"
  | invalidReturn i x => s!"invalid daily return at index {i}: {Binary64.toText x}"
  | noYears => "total number of years must be > 0 for CAGR"
  | growthOverflow => "CAGR overflow"
  | decimal f => faultMessage f
  | unknownCode => "not a valid code"
  | unreadableNumber => "invalid literal"
  | notANumber => "cannot convert float NaN to integer"
  | infiniteNumber => "cannot convert float infinity to integer"
  | numberTooLarge => "number too large"
  | floatDivisionByZero => "float division by zero"
  | dateOutOfRange => "year is out of range"
  | daysOutOfRange => "date value out of range"
  | unreadableDate v => s!"cannot parse date: {v.quotedForm}"
  | wrongType => "wrong type of value"
  | missingKey => "no such key"
  | missingAttribute => "no such attribute"
  | unpairedParameter => "a parameter is a name and a value"
  | replayNotReady => "[Replay] fetcher / portfolio not initialized"
  | abstractStep => "PipelineStep.run"
  | failed t => t
  | invalidModel _ => "invalid model"
  | fileNotFound => "no such file or directory"
  | notADirectory => "not a directory"
  | isADirectory => "is a directory"
  | unnamedFile => "a file needs a name"
  | unreadableConfig => "the configuration cannot be read"

end Error
end Backtesting
