import Backtesting.Portfolio.Basic
import Backtesting.Tearsheet

/-!
The facts of a finished run, apart from the portfolio they come from: the equity curve beside that
of the benchmark, the fills as rows of text, and the books at the end.
-/
namespace Backtesting

abbrev FillRow := List (String × String)

namespace FillRow

def ofFill (f : Fill) : FillRow :=
  [("date", f.date.toText),
    ("strategy", f.strategy),
    ("asset", f.asset),
    ("trade_action", f.action.label),
    ("quantity", toString f.quantity),
    ("fill_price", f.price.toText),
    ("commission", f.commission.toText)]

def field (r : FillRow) (name : String) : Except Error String :=
  match r.lookup name with
  | some s => .ok s
  | none => .error .missingKey

def decimal (r : FillRow) (name : String) : Except Error Decimal := do
  Decimal.lift (Decimal.ofText (← r.field name))

def quantity (r : FillRow) : Except Error Int := do Document.intOfText (← r.field "quantity")

end FillRow

structure Result where
  name : String
  base : String
  strategies : List String
  signalCount : Int
  orderCount : Int
  dates : List Date
  equity : List Decimal
  /-- The benchmark on the same days, where it has a value. -/
  benchmark : Option (List (Option Decimal))
  fills : List FillRow
  positions : List (String × List (Asset × Int))
  cash : List (String × List (String × String))
  tearsheet : Option Tearsheet

namespace Result

def ofPortfolio (p : Portfolio) (benchmark : Option Portfolio) (tearsheet : Option Tearsheet) :
    Result where
  name := p.name
  base := p.base.code
  strategies := p.strategies.keys
  signalCount := p.signalCount
  orderCount := p.orderCount
  dates := p.equity.values.dates
  equity := p.equity.values.values
  benchmark := benchmark.map fun b => p.equity.values.dates.map b.equity.values.get?
  fills := p.fills.map FillRow.ofFill
  positions := p.strategies.toList.map fun (name, s) => (name, s.book.positions.toList)
  cash := p.strategies.toList.map fun (name, s) =>
    (name, s.book.cash.toList.map fun (c, v) => (c.code, v.toText))
  tearsheet := tearsheet

def equityCurve (r : Result) : Curve Decimal := OrderedMap.ofList (r.dates.zip r.equity)

/-- The days on which the benchmark has a value. -/
def benchmarkCurve (r : Result) : Option (Curve Decimal) :=
  r.benchmark.map fun values =>
    OrderedMap.ofList ((r.dates.zip values).filterMap fun (d, v) => v.map (d, ·))

end Result
end Backtesting
