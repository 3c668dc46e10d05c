import Backtesting.Document.Number
import Backtesting.Statistics.Drawdown
import Backtesting.Statistics.Growth
import Backtesting.Statistics.Series

/-!
Statistics of daily returns. A year has 252 trading days unless told otherwise, deviations are
those of a sample, and a ratio over zero is zero. Most of them need two observations.
-/
namespace Backtesting.Performance

def tradingDays : Float := 252

def requireSome (xs : List Float) : Except Error Unit :=
  if xs.isEmpty then .error .emptySeries else .ok ()

def requireCount (n : Nat) : Except Error Unit :=
  if n < 2 then .error (.tooFewObservations n) else .ok ()

/-- At least one value, and then at least two. -/
def requireSample (xs : List Float) : Except Error Unit := do
  requireSome xs
  requireCount xs.length

/-- A series of values that are still to be read; there must be one. -/
def readSeries (xs : List Document) : Except Error (List Float) := do
  let xs ← xs.mapM Document.toFloat
  requireSome xs
  pure xs

def ratio (num den : Float) : Float := if den == 0 then 0 else num / den

def rootOf (days : Float) : Float := days.sqrt

def dailyReturns (equity : List Float) : Except Error (List Float) := do
  requireSample equity
  match equity.dropLast.findIdx? (· == 0) with
  | some i => throw (.zeroEquity i)
  | none => pure (Series.changes equity)

/-- The values of a curve from its returns, the first one being `initial`. -/
def equityFromReturns (returns : List Float) (initial : Float) : Except Error (List Float) := do
  requireSome returns
  match returns.zipIdx.find? (·.1 < -1) with
  | some (x, i) => throw (.invalidReturn i x)
  | none => pure ((compounded 1 returns).map (initial * ·))
where
  compounded (total : Float) : List Float → List Float
    | [] => [total]
    | r :: rs => total :: compounded (total * (1 + r)) rs

def totalGrowth (returns : List Float) : Float := Series.product (returns.map (1 + ·))

def annualizedReturn (returns : List Float) (days : Float) : Except Error Growth := do
  requireSome returns
  pure (← Growth.power (totalGrowth returns) (days / Series.count returns)).gain

def quotient (num den : Float) : Except Error Float :=
  if den == 0 then .error .floatDivisionByZero else .ok (num / den)

/-- The growth over the years that the returns make up, per year and in percent. -/
def yearlyGrowth (returns : List Float) (days : Float) : Except Error Growth := do
  requireSample returns
  let years ← quotient (Series.count returns) days
  if years == 0 then throw .noYears
  let growth ← (Growth.power (totalGrowth returns) (1 / years)).mapError fun
    | .numberTooLarge => .growthOverflow
    | e => e
  pure growth.gain.percent

def volatility (returns : List Float) : Except Error Float := do
  requireSample returns
  pure (Series.deviation returns)

def annualizedVolatility (returns : List Float) (days : Float) : Except Error Float := do
  pure ((← volatility returns) * rootOf days)

/-- What a return falls short of the risk-free one, zero where it does not. -/
def shortfall (riskFree x : Float) : Float :=
  let excess := x - riskFree
  if excess.isNaN || excess < 0 then excess else 0

def downsideDeviation (returns : List Float) (riskFree : Float) : Except Error Float := do
  requireSample returns
  let squares := returns.map fun x => shortfall riskFree x * shortfall riskFree x
  pure (Series.mean squares).sqrt

def sharpeRatio (returns : List Float) (riskFree : Float) : Except Error Float := do
  requireSample returns
  pure (ratio (Series.mean returns - riskFree) (Series.deviation returns))

def annualizedSharpeRatio (returns : List Float) (riskFree days : Float) : Except Error Float := do
  pure ((← sharpeRatio returns riskFree) * rootOf days)

def sortinoRatio (returns : List Float) (riskFree : Float) : Except Error Float := do
  let downside ← downsideDeviation returns riskFree
  pure (ratio (Series.mean returns - riskFree) downside)

def annualizedSortinoRatio (returns : List Float) (riskFree days : Float) : Except Error Float := do
  pure ((← sortinoRatio returns riskFree) * rootOf days)

/-- Two series can be compared when both are long enough and equally long. -/
def requirePair (returns benchmark : List Float) : Except Error Unit := do
  requireSome returns
  requireSome benchmark
  requireCount returns.length
  requireCount benchmark.length
  if returns.length ≠ benchmark.length then
    throw (.unequalLengths returns.length benchmark.length)

def covariance (xs ys : List Float) : Float :=
  let mx := Series.mean xs
  let my := Series.mean ys
  Series.sum (List.zipWith (fun x y => (x - mx) * (y - my)) xs ys) / Float.ofNat (xs.length - 1)

def beta (returns benchmark : List Float) : Except Error Float := do
  requirePair returns benchmark
  pure (ratio (covariance returns benchmark) (Series.variance benchmark))

def alpha (returns benchmark : List Float) (riskFree : Float) : Except Error Float := do
  requirePair returns benchmark
  let slope ← beta returns benchmark
  pure (Series.mean returns - riskFree - slope * (Series.mean benchmark - riskFree))

def informationRatio (returns benchmark : List Float) : Except Error Float := do
  requirePair returns benchmark
  let active := List.zipWith (· - ·) returns benchmark
  pure (ratio (Series.mean active) (Series.deviation active))

def drawdowns (equity : List (Date × Float)) : Except Error (Drawdown Float) := do
  requireCount equity.length
  pure (Drawdown.ofCurve equity)

end Backtesting.Performance
