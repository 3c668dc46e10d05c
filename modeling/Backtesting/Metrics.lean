import Backtesting.Result

/-!
The figures of a result by name: those of its tearsheet and those of its trades.
-/
namespace Backtesting

inductive Metric
  | count (value : Int)
  | real (value : Float)
  | complex (re im : Float)
  | absent

namespace Metric

def ofGrowth : Growth → Metric
  | .real x => real x
  | .complex re im => complex re im

def ofOption : Option Float → Metric
  | some x => real x
  | none => absent

/-- The text of a part of a complex number, a whole one without its point. -/
def partText (x : Float) : String :=
  let s := Binary64.toText x
  if s.endsWith ".0" then (s.dropEnd 2).toString else s

def complexText (re im : Float) : String :=
  let imaginary := partText im ++ "j"
  if re == 0 && !Series.RunningMean.isNegative re then imaginary
  else
    let sign := if Series.RunningMean.isNegative im && !im.isNaN then "" else "+"
    s!"({partText re}{sign}{imaginary})"

def text : Metric → String
  | count n => toString n
  | real x => Binary64.toText x
  | complex re im => complexText re im
  | absent => "None"

def toDocument : Metric → Document
  | count n => .integer n
  | real x => .number x
  | m@(complex ..) => .text m.text
  | absent => .null

end Metric

abbrev Metrics := OrderedMap String Metric

namespace Metrics

def toDocument (m : Metrics) : Document :=
  .object (m.toList.map fun (name, value) => (name, value.toDocument))

def ofTearsheet (t : Tearsheet) : Metrics :=
  OrderedMap.ofList
    [("annualized_return", .ofGrowth t.annualizedReturn),
      ("sharpe_ratio", .real t.sharpeRatio),
      ("sortino_ratio", .real t.sortinoRatio),
      ("annualized_sharpe_ratio", .real t.annualizedSharpeRatio),
      ("annualized_sortino_ratio", .real t.annualizedSortinoRatio),
      ("max_drawdown", .real t.drawdown.deepest),
      ("max_drawdown_duration", .count t.drawdown.longest),
      ("cagr_pct", .ofGrowth t.yearlyGrowth),
      ("volatility", .real t.volatility),
      ("annualized_volatility", .real t.annualizedVolatility),
      ("alpha", .ofOption (t.relative.map (·.alpha))),
      ("beta", .ofOption (t.relative.map (·.beta))),
      ("information_ratio", .ofOption (t.relative.map (·.informationRatio)))]

/-- The sum of what the fills amount to, one after the other. -/
def total (amount : FillRow → Except Error Decimal) (fills : List FillRow) : Except Error Decimal :=
  fills.foldlM (fun sum f => do Decimal.lift (sum.add (← amount f))) Decimal.zero

def turnover (f : FillRow) : Except Error Decimal := do
  let price ← f.decimal "fill_price"
  let quantity ← f.quantity
  Decimal.lift (price.mul (Decimal.ofInt quantity))

def readEquity : Option Decimal → Except Error Float
  | some x => Tearsheet.readDecimal x
  | none => .ok 0

def ofTrades (r : Result) : Except Error Metrics := do
  let commission ← total (·.decimal "commission") r.fills
  let worth ← total turnover r.fills
  let commission ← Tearsheet.readDecimal commission
  let worth ← Tearsheet.readDecimal worth
  let first ← readEquity r.equity.head?
  let last ← readEquity r.equity.getLast?
  pure (OrderedMap.ofList
    [("n_signals", .count r.signalCount),
      ("n_orders", .count r.orderCount),
      ("n_fills", .count r.fills.length),
      ("total_commission", .real commission),
      ("turnover", .real worth),
      ("initial_equity", .real first),
      ("final_equity", .real last)])

end Metrics

/-- A source of figures. -/
inductive Collector
  | tearsheet | trades
deriving DecidableEq, Repr

namespace Collector

def ofName? : String → Option Collector
  | "tearsheet" => some tearsheet
  | "trades" => some trades
  | _ => none

/-- The figures of a result. A tearsheet that the result brings along is not made again. -/
def compute (c : Collector) (r : Result) : Except Error Metrics :=
  match c with
  | trades => Metrics.ofTrades r
  | tearsheet =>
      match r.tearsheet with
      | some t => .ok (Metrics.ofTearsheet t)
      | none => do
          pure (Metrics.ofTearsheet
            (← Tearsheet.ofCurves Tearsheet.readDecimal r.equityCurve r.benchmarkCurve))

end Collector

def Metrics.collect (collectors : List Collector) (r : Result) : Except Error Metrics :=
  collectors.foldlM (fun (m : Metrics) c => do pure (m.putAll (← c.compute r).toList))
    OrderedMap.empty

end Backtesting
