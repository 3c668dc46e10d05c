import Backtesting.OrderedMap
import Backtesting.Statistics.Performance

/-!
The performance of an equity curve in one sheet, alone and, where there is a benchmark, beside it
on the days that both curves have.
-/
namespace Backtesting

/-- How a curve did beside its benchmark. -/
structure Relative where
  alpha : Float
  beta : Float
  informationRatio : Float

structure Tearsheet where
  annualizedReturn : Growth
  sharpeRatio : Float
  sortinoRatio : Float
  yearlyGrowth : Growth
  volatility : Float
  annualizedVolatility : Float
  annualizedSharpeRatio : Float
  annualizedSortinoRatio : Float
  relative : Option Relative
  equity : List (Date × Float)
  drawdown : Drawdown Float

/-- Values by day as they are handed in; each day once. -/
abbrev Curve (α : Type) := OrderedMap Date α

namespace Relative

def ofReturns (returns benchmark : List Float) : Except Error Relative := do
  let alpha ← Performance.alpha returns benchmark 0
  let beta ← Performance.beta returns benchmark
  let informationRatio ← Performance.informationRatio returns benchmark
  pure ⟨alpha, beta, informationRatio⟩

variable {α : Type}

/-- The returns between the days that both curves have. -/
def ofCurves (read : α → Except Error Float) (equity benchmark : Curve α) :
    Except Error Relative := do
  let common := equity.toList.filterMap fun (d, v) => (benchmark.get? d).map (v, ·)
  let returns ← Performance.dailyReturns (← common.mapM fun e => read e.1)
  let other ← Performance.dailyReturns (← common.mapM fun e => read e.2)
  ofReturns returns other

end Relative

namespace Tearsheet

def ofReturns (equity : List (Date × Float)) (returns : List Float) (relative : Option Relative) :
    Except Error Tearsheet := do
  let days := Performance.tradingDays
  let drawdown ← Performance.drawdowns equity
  let annualizedReturn ← Performance.annualizedReturn returns days
  let sharpeRatio ← Performance.sharpeRatio returns 0
  let sortinoRatio ← Performance.sortinoRatio returns 0
  let yearlyGrowth ← Performance.yearlyGrowth returns days
  let volatility ← Performance.volatility returns
  let annualizedVolatility ← Performance.annualizedVolatility returns days
  let annualizedSharpeRatio ← Performance.annualizedSharpeRatio returns 0 days
  let annualizedSortinoRatio ← Performance.annualizedSortinoRatio returns 0 days
  pure { annualizedReturn, sharpeRatio, sortinoRatio, yearlyGrowth, volatility,
         annualizedVolatility, annualizedSharpeRatio, annualizedSortinoRatio, relative, equity,
         drawdown }

variable {α : Type}

/-- The sheet of curves whose values are still to be read. Of the benchmark only the days in common
are read, and they before the statistics of the curve alone. -/
def ofCurves (read : α → Except Error Float) (equity : Curve α) (benchmark : Option (Curve α)) :
    Except Error Tearsheet := do
  let points ← equity.toList.mapM fun (d, v) => do pure (d, ← read v)
  let returns ← Performance.dailyReturns (points.map Prod.snd)
  let relative ← benchmark.mapM (Relative.ofCurves read equity)
  ofReturns points returns relative

def readDecimal (x : Decimal) : Except Error Float := Decimal.lift x.toFloat

end Tearsheet
end Backtesting
