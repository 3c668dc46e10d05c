import Backtesting.Strategy.Book
import Backtesting.Statistics.Series
import Backtesting.Trading.Signal

/-!
From signals to holdings. Each signaled asset has a weight of the capital, either from a fixed
table or in inverse proportion to the deviation of its daily returns; the holding is as many whole
units as that part of the capital pays for at the close.
-/
namespace Backtesting

abbrev Weights := OrderedMap Asset Decimal

inductive Sizer
  | fixedWeight (weights : Weights)
  | inverseVolatility (lookback : Nat)
deriving DecidableEq

namespace Sizer

/-- Fixed weights from values still to be read; none may be negative. -/
def fixed (weights : List (Asset × Amount)) : Except Error Sizer := do
  let weights ← weights.mapM fun (a, w) => do pure (a, ← w.read)
  let weights : Weights := OrderedMap.ofList weights
  weights.toList.forM fun (a, w) => do
    if ← Decimal.lift (w.isLess 0) then throw (Error.negativeWeight a w)
  pure (fixedWeight weights)

/-- The deviation of the last `lookback` returns, zero where there are not enough closes or one of
them is not positive. -/
def volatility (lookback : Nat) (market : MarketHistory) (a : Asset) (d : Date) :
    Except Error Float :=
  let closes := market.closes a (some d)
  if closes.length < lookback + 1 then .ok 0
  else do
    let prices ← (closes.drop (closes.length - (lookback + 1))).mapM fun (_, c) =>
      Decimal.lift c.toFloat
    if prices.any (· ≤ 0) then pure 0
    else pure (Series.deviation (Series.changes prices))

/-- Weights of one in all among the given assets, equal ones while a deviation is unknown or
zero. -/
def inverseWeights (assets : List Asset) (deviations : List Float) :
    Except Error (List (Asset × Decimal)) :=
  if deviations.any (· ≤ 0) then do
    let equal ← Decimal.lift (Decimal.div 1 (Decimal.ofInt assets.length))
    pure (assets.map (·, equal))
  else do
    let inverse := deviations.map (1 / ·)
    let total := Series.sum inverse
    (assets.zip inverse).mapM fun (a, x) => do
      pure (a, ← (Document.number (x / total)).toDecimal)

def weightsFor (s : Sizer) (d : Date) (signals : OrderedMap Asset Signal)
    (market : MarketHistory) : Except Error Weights :=
  match s with
  | fixedWeight weights => do
      let entries ← signals.keys.mapM fun a =>
        match weights.get? a with
        | some w => .ok (a, w)
        | none => .error (.assetNotConfigured a "weight")
      pure (OrderedMap.ofList entries)
  | inverseVolatility lookback => do
      let zeros : Weights := signals.mapValues fun _ _ => 0
      let assets := (signals.toList.filter (·.2.direction != 0)).map Prod.fst
      if assets.isEmpty then pure zeros
      else
        let deviations ← assets.mapM fun a => volatility lookback market a d
        pure (zeros.putAll (← inverseWeights assets deviations))

/-- The capital to be distributed, in the base currency: the target capital where there is one,
else what the book is worth. -/
def capital (b : Book) (l : Listings) (d : Date) (market : MarketHistory) (fx : FxHistory) :
    Except Error Decimal :=
  if b.target.isEmpty then b.totalValue l d fx.base market fx
  else
    b.target.toList.foldlM (fun total e => do
      Decimal.lift (total.add (← fx.convert d e.2 e.1 fx.base))) Decimal.zero

/-- The holding of one asset for its part of the capital. -/
def size (l : Listings) (d : Date) (capital : Decimal) (weights : Weights)
    (market : MarketHistory) (fx : FxHistory) (a : Asset) (s : Signal) : Except Error Int :=
  if s.direction = 0 then .ok 0
  else do
    let close := (← market.requireBar d a).close
    if ← Decimal.lift (close.isAtMost 0) then throw (.closeNotPositive a d close)
    let weight ← match weights.get? a with
      | some w => .ok w
      | none => .error .missingKey
    let inBase ← Decimal.lift (capital.mul weight)
    let inListing ← fx.convert d inBase fx.base (← l.currencyOf a)
    let quantity ← Decimal.lift (inListing.div close >>= Decimal.floorInt)
    pure (s.direction * max quantity 0)

def sizesFor (s : Sizer) (b : Book) (l : Listings) (d : Date) (signals : OrderedMap Asset Signal)
    (market : MarketHistory) (fx : FxHistory) : Except Error (OrderedMap Asset Int) :=
  if signals.isEmpty then .ok OrderedMap.empty
  else do
    let weights ← s.weightsFor d signals market
    let capital ← capital b l d market fx
    let sizes ← signals.toList.mapM fun (a, signal) => do
      pure (a, ← size l d capital weights market fx a signal)
    pure (OrderedMap.ofList sizes)

end Sizer
end Backtesting
