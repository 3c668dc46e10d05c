import Backtesting.Document.Schema
import Backtesting.Market.Bar
import Backtesting.OrderedMap
import Backtesting.Text.Upper

/-!
The configuration of a backtest: its data, range, costs and strategies. Codes of currencies may be
written in any case. A component is declared by a type and parameters, which only the factory of
the component knows how to read.
-/
namespace Backtesting

structure ComponentConfig where
  type : String
  parameters : List (String × Document)

structure StrategyConfig where
  name : String
  type : String
  assets : OrderedMap Asset Currency
  cash : OrderedMap Currency Decimal
  sizer : ComponentConfig
  pricing : ComponentConfig
  parameters : List (String × Document)

structure BacktestConfig where
  name : String
  base : Currency
  start : Option Date
  finish : Option Date
  marketDataPath : String
  fxRatesPath : Option String
  calendar : Option (List Date)
  outputDir : String
  commission : Decimal
  allocator : ComponentConfig
  strategies : List StrategyConfig
  benchmark : Option StrategyConfig

def codeText (s : String) : String := Text.upper (Text.trim s)

namespace ComponentConfig

def ofType (type : String) : ComponentConfig := ⟨type, []⟩

def ofFields (at_ : List String) (x : Document) : Checked ComponentConfig :=
  ComponentConfig.mk <$> Schema.required Schema.text at_ x "type"
    <*> Schema.withDefault Schema.object [] at_ x "params"

def schema : Schema ComponentConfig := fun at_ x =>
  match x with
  | .object _ => ofFields at_ x
  | _ => .faulty [⟨at_, none⟩]

def toDocument (c : ComponentConfig) : Document :=
  .object [("type", .text c.type), ("params", .object c.parameters)]

end ComponentConfig

namespace StrategyConfig

/-- Listing currencies as codes in capitals, whatever they were. -/
def upperValues : Document → Document
  | .object fs => .object (fs.map fun (k, c) => (k, .text (codeText c.plainText)))
  | x => x

def upperKeys : Document → Document
  | .object fs => Document.ofFields (fs.map fun (k, x) => (codeText k, x))
  | x => x

def currencySchema : Schema Currency := Schema.ofPartial fun
  | .text s => Currency.ofCode? s
  | _ => none

def assetsSchema : Schema (List (Asset × Currency)) := fun at_ x =>
  Schema.nonempty (Schema.mapping some currencySchema) at_ (upperValues x)

def cashSchema : Schema (List (Currency × Decimal)) := fun at_ x =>
  Schema.mapping Currency.ofCode? Schema.decimal at_ (upperKeys x)

def ofFields (at_ : List String) (x : Document) : Checked StrategyConfig :=
  (fun name type assets cash sizer pricing parameters =>
    ⟨name, type, OrderedMap.ofList assets, OrderedMap.ofList cash, sizer, pricing, parameters⟩)
    <$> Schema.required Schema.text at_ x "name"
    <*> Schema.required Schema.text at_ x "type"
    <*> Schema.required assetsSchema at_ x "assets"
    <*> Schema.withDefault cashSchema [] at_ x "cash"
    <*> Schema.required ComponentConfig.schema at_ x "position_sizer"
    <*> Schema.withDefault ComponentConfig.schema (ComponentConfig.ofType "close_price") at_ x
      "order_pricing"
    <*> Schema.withDefault Schema.object [] at_ x "params"

def schema : Schema StrategyConfig := fun at_ x =>
  match x with
  | .object _ => ofFields at_ x
  | _ => .faulty [⟨at_, none⟩]

def read (x : Document) : Except Error StrategyConfig := (schema [] x).toExcept

def toDocument (c : StrategyConfig) : Document :=
  .object [
    ("name", .text c.name),
    ("type", .text c.type),
    ("assets", .object (c.assets.toList.map fun (a, ccy) => (a, .text ccy.code))),
    ("cash", .object (c.cash.toList.map fun (ccy, v) => (ccy.code, .text v.toText))),
    ("position_sizer", c.sizer.toDocument),
    ("order_pricing", c.pricing.toDocument),
    ("params", .object c.parameters)]

end StrategyConfig

namespace BacktestConfig

def baseSchema : Schema Currency := Schema.ofPartial fun
  | .text s => Currency.ofCode? (codeText s)
  | _ => none

def duplicates (names : List String) : List String :=
  let twice := names.filter fun n => 1 < names.count n
  (twice.mergeSort (· ≤ ·)).eraseReps

/-- What no single field shows: distinct names, a range in order and costs that are not
negative. The first fault alone is reported. -/
def ruleText? (c : BacktestConfig) : Option String :=
  let twice := duplicates (c.strategies.map (·.name))
  if !twice.isEmpty then some s!"duplicate strategy names: {Text.quotedList twice}"
  else match c.start, c.finish with
    | some s, some f =>
        if f < s then some s!"start_date {s.toText} is after end_date {f.toText}" else costText? c
    | _, _ => costText? c
where
  costText? (c : BacktestConfig) : Option String :=
    if c.commission.ordering? 0 == some .lt then
      some s!"commission_rate must be >= 0, got {c.commission.toText}"
    else none

def checkRules (at_ : List String) (c : BacktestConfig) : Checked BacktestConfig :=
  match c.ruleText? with
  | some text => .faulty [⟨at_, some s!"Value error, {text}"⟩]
  | none => .valid c

def ofFields (at_ : List String) (x : Document) : Checked BacktestConfig :=
  BacktestConfig.mk
    <$> Schema.withDefault Schema.text "default" at_ x "name"
    <*> Schema.withDefault baseSchema .usd at_ x "base_currency"
    <*> Schema.withDefault (Schema.optional Schema.date) none at_ x "start_date"
    <*> Schema.withDefault (Schema.optional Schema.date) none at_ x "end_date"
    <*> Schema.required Schema.text at_ x "market_data_path"
    <*> Schema.withDefault (Schema.optional Schema.text) none at_ x "fx_rates_path"
    <*> Schema.withDefault (Schema.optional (Schema.list Schema.date)) none at_ x
      "trading_calendar"
    <*> Schema.withDefault Schema.text "output/backtest" at_ x "output_dir"
    <*> Schema.withDefault Schema.decimal (.finite false 1 (-3)) at_ x "commission_rate"
    <*> Schema.withDefault ComponentConfig.schema (ComponentConfig.ofType "self_funded") at_ x
      "allocator"
    <*> Schema.required (Schema.nonempty (Schema.list StrategyConfig.schema)) at_ x "strategies"
    <*> Schema.withDefault (Schema.optional StrategyConfig.schema) none at_ x "benchmark"

def schema : Schema BacktestConfig := fun at_ x =>
  match x with
  | .object _ => (ofFields at_ x).andThen (checkRules at_)
  | _ => .faulty [⟨at_, none⟩]

def read (x : Document) : Except Error BacktestConfig := (schema [] x).toExcept

def optionalText : Option String → Document
  | some s => .text s
  | none => .null

def dateDocument : Option Date → Document
  | some d => .text d.toText
  | none => .null

def toDocument (c : BacktestConfig) : Document :=
  .object [
    ("name", .text c.name),
    ("base_currency", .text c.base.code),
    ("start_date", dateDocument c.start),
    ("end_date", dateDocument c.finish),
    ("market_data_path", .text c.marketDataPath),
    ("fx_rates_path", optionalText c.fxRatesPath),
    ("trading_calendar", match c.calendar with
      | some ds => .list (ds.map fun d => .text d.toText)
      | none => .null),
    ("output_dir", .text c.outputDir),
    ("commission_rate", .text c.commission.toText),
    ("allocator", c.allocator.toDocument),
    ("strategies", .list (c.strategies.map StrategyConfig.toDocument)),
    ("benchmark", match c.benchmark with
      | some b => b.toDocument
      | none => .null)]

end BacktestConfig
end Backtesting
