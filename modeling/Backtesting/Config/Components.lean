import Backtesting.Config.Backtest
import Backtesting.Portfolio.Events

/-!
Components from their declarations. Each factory knows its types by name; the parameters of a
declaration are the named arguments of the component, so an unknown one, or one that the component
cannot take, makes the declaration bad.
-/
namespace Backtesting

abbrev Parameters := List (String × Document)

namespace Parameters

def requireKnown (ps : Parameters) (names : List String) : Except Error Unit :=
  if ps.all fun p => names.contains p.1 then .ok () else .error .wrongType

def getD (ps : Parameters) (name : String) (x : Document) : Document := (ps.lookup name).getD x

/-- The parts that a value falls into: items, characters or names of fields. -/
def parts : Document → Except Error (List Document)
  | .list xs => .ok xs
  | .text s => .ok (s.toList.map fun c => .text (String.singleton c))
  | .object fs => .ok (fs.map fun f => .text f.1)
  | _ => .error .wrongType

/-- A name must be a single value. One that is no text names no parameter, but it is a name. -/
def nameOf : Document → Except Error String
  | .list _ | .object _ => .error .wrongType
  | x => .ok x.plainText

/-- A name with its value, in two parts. -/
def pair (x : Document) : Except Error (String × Document) := do
  match ← parts x with
  | [k, v] => pure (← nameOf k, v)
  | _ => throw .unpairedParameter

/-- Parameters by name, or in pairs. -/
def ofDocument (x : Document) : Except Error Parameters :=
  if !x.isGiven then .ok []
  else match x with
    | .object fs => .ok fs
    | x => do pure (Document.ofFields (← (← parts x).mapM pair)).fields

end Parameters

namespace Factory

def registered : Factory → List String
  | sizer => ["fixed_weight", "inverse_volatility"]
  | pricing => ["close_price", "limit", "stop", "stop_limit"]
  | allocator => ["equal_weight", "self_funded"]
  | strategy => ["buy_and_hold", "moving_average_crossover", "rebalancing_buy_and_hold"]

/-- A value of the wrong type while a component is built is a fault of its parameters. -/
def guarded (f : Factory) (type : String) (r : Except Error α) : Except Error α :=
  r.mapError fun
    | .wrongType => .badParameters f type
    | e => e

/-- A component of the given type, whatever builds it. -/
def create (f : Factory) (build : String → Option (Parameters → Except Error α)) (type : String)
    (ps : Parameters) : Except Error α :=
  match build type with
  | none => .error (.unknownComponent f type f.registered)
  | some make => f.guarded type (make ps)

/-- The type that a declaration names. -/
def declaredType (f : Factory) : Document → Except Error Document
  | .object fs => match fs.lookup "type" with
    | some type => .ok type
    | none => .error (.missingType f)
  | .list xs =>
      if xs.any fun x => x.text? == some "type" then .error .wrongType else .error (.missingType f)
  | .text s => if s.contains "type" then .error .wrongType else .error (.missingType f)
  | _ => .error .wrongType

/-- A component from a declaration that has not been checked. -/
def createFrom (f : Factory) (build : String → Option (Parameters → Except Error α))
    (x : Document) : Except Error α := do
  let type ← f.declaredType x
  let ps ← Parameters.ofDocument (x.field "params")
  f.create build (← Parameters.nameOf type) ps

end Factory

namespace Sizer

def ofWeights : Document → Except Error Sizer
  | .object fs => fixed (fs.map fun (a, w) => (a, .written w))
  | _ => .error .missingAttribute

def ofLookback (x : Document) : Except Error Sizer := do
  let lookback ← x.toInt
  if lookback < 2 then throw (.shortLookback lookback)
  pure (inverseVolatility lookback.toNat)

def builder : String → Option (Parameters → Except Error Sizer)
  | "fixed_weight" => some fun ps => do
      ps.requireKnown ["weights"]
      match ps.lookup "weights" with
      | some w => ofWeights w
      | none => throw .wrongType
  | "inverse_volatility" => some fun ps => do
      ps.requireKnown ["lookback"]
      ofLookback (ps.getD "lookback" (.integer 20))
  | _ => none

def ofConfig (c : ComponentConfig) : Except Error Sizer :=
  Factory.create .sizer builder c.type c.parameters

def kind : Sizer → String
  | fixedWeight _ => "FixedWeightPositionSizer"
  | inverseVolatility _ => "InverseVolatilityPositionSizer"

end Sizer

namespace Pricing

def builder : String → Option (Parameters → Except Error Pricing)
  | "close_price" => some fun ps => do
      ps.requireKnown []
      pure closePrice
  | "limit" => some fun ps => do
      ps.requireKnown ["offset_bps"]
      pure (limit (← (ps.getD "offset_bps" (.integer 0)).toDecimal))
  | "stop" => some fun ps => do
      ps.requireKnown ["offset_bps"]
      pure (stop (← (ps.getD "offset_bps" (.integer 0)).toDecimal))
  | "stop_limit" => some fun ps => do
      ps.requireKnown ["stop_offset_bps", "limit_offset_bps"]
      let stopOffset ← (ps.getD "stop_offset_bps" (.integer 0)).toDecimal
      pure (stopLimit stopOffset (← (ps.getD "limit_offset_bps" (.integer 0)).toDecimal))
  | _ => none

def ofConfig (c : ComponentConfig) : Except Error Pricing :=
  Factory.create .pricing builder c.type c.parameters

def kind : Pricing → String
  | closePrice => "ClosePriceOrderPricing"
  | limit _ => "LimitOrderPricing"
  | stop _ => "StopOrderPricing"
  | stopLimit .. => "StopLimitOrderPricing"

end Pricing

namespace Allocator

def builder : String → Option (Parameters → Except Error Allocator)
  | "self_funded" => some fun ps => do
      ps.requireKnown []
      pure selfFunded
  | "equal_weight" => some fun ps => do
      ps.requireKnown []
      pure equalWeight
  | _ => none

def ofConfig (c : ComponentConfig) : Except Error Allocator :=
  Factory.create .allocator builder c.type c.parameters

def kind : Allocator → String
  | selfFunded => "SelfFundedCapitalAllocation"
  | equalWeight => "EqualWeightCapitalAllocation"
  | fixed _ => "FixedCapitalAllocation"

end Allocator

namespace Rule

def ofWindows (name : String) (fast slow : Document) : Except Error Rule := do
  let fast ← fast.toInt
  let slow ← slow.toInt
  if fast ≤ 0 ∨ slow ≤ 0 ∨ slow ≤ fast then throw (.averageWindows name fast slow)
  pure (crossover fast.toNat slow.toNat)

/-- The names of the parameters of a type and the rule they make. -/
def builder (name : String) : String → Option (List String × (Parameters → Except Error Rule))
  | "buy_and_hold" => some (["initial_date"], fun ps => do
      pure (buyAndHold (← Date.readOptional (ps.getD "initial_date" .null))))
  | "rebalancing_buy_and_hold" => some (["frequency"], fun ps => do
      pure (rebalancing (← Frequency.read (ps.getD "frequency" (.text "Monthly"))) none))
  | "moving_average_crossover" => some (["fast", "slow"], fun ps =>
      ofWindows name (ps.getD "fast" (.integer 20)) (ps.getD "slow" (.integer 50)))
  | _ => none

end Rule

namespace Strategy

/-- The name, once it is found to be one. -/
def readName (x : Document) : Except Error String :=
  if x.isGiven && !(Text.trim x.plainText).isEmpty then .ok x.plainText
  else .error .unnamedStrategy

def readAssets (name : String) (x : Document) : Except Error Listings :=
  if !x.isGiven then .error (.noAssets name)
  else match x with
    | .object fs => do
        pure (OrderedMap.ofList (← fs.mapM fun (a, c) => do pure (a, ← Currency.read c)))
    | _ => .error .missingAttribute

def readCash : Document → Except Error Balances
  | .object fs => BalanceSheet.read (.written (fs.map fun (c, v) => (c, .written v)))
  | _ => .error .missingAttribute

/-- A strategy from values that have not been checked: name, assets and cash in this order, then
what its rule needs. -/
def read (name assets cash : Document) (sizer : Sizer) (pricing : Pricing)
    (rule : String → Except Error Rule) : Except Error (String × Strategy) := do
  let name ← readName name
  let assets ← readAssets name assets
  let cash ← readCash cash
  let rule ← rule name
  pure (name, { assets, sizer, pricing, rule, book := Book.start cash })

def ofConfig (c : StrategyConfig) : Except Error (String × Strategy) :=
  match Rule.builder c.name c.type with
  | none => .error (.unknownComponent .strategy c.type Factory.strategy.registered)
  | some (names, make) => Factory.strategy.guarded c.type do
      let sizer ← Sizer.ofConfig c.sizer
      let pricing ← Pricing.ofConfig c.pricing
      Parameters.requireKnown c.parameters names
      if (Text.trim c.name).isEmpty then throw .unnamedStrategy
      let rule ← make c.parameters
      pure (c.name, { assets := c.assets, sizer, pricing, rule, book := Book.start c.cash })

/-- A strategy from a declaration that has not been checked. -/
def ofDocument (x : Document) : Except Error (String × Strategy) := do
  let _ ← Factory.strategy.declaredType x
  ofConfig (← StrategyConfig.read x)

end Strategy

namespace Portfolio

def ofStrategies (name : String) (strategies : List StrategyConfig) (c : BacktestConfig)
    (allocator : ComponentConfig) : Except Error Portfolio := do
  let named ← strategies.mapM Strategy.ofConfig
  let allocator ← Allocator.ofConfig allocator
  build name (.text c.base.code) named allocator ⟨c.commission⟩ none [] none

/-- The portfolio of a configuration and that of its benchmark, which funds itself. -/
def ofConfig (c : BacktestConfig) : Except Error (Portfolio × Option Portfolio) := do
  let portfolio ← ofStrategies c.name c.strategies c c.allocator
  match c.benchmark with
  | none => pure (portfolio, none)
  | some b => do
      let benchmark ← ofStrategies s!"{c.name}:benchmark" [b] c
        (ComponentConfig.ofType "self_funded")
      pure (portfolio, some benchmark)

end Portfolio
end Backtesting
