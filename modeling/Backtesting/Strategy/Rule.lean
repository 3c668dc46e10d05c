import Backtesting.Calendar.Text
import Backtesting.Market.History
import Backtesting.Statistics.Series
import Backtesting.Strategy.Frequency
import Backtesting.Trading.Signal

/-!
The rules by which strategies signal. Buying and holding signals on one day only, the first one
seen unless a day is given; rebalancing signals when the period since its last signal is over; the
crossover compares two means of closes and goes by the book for whether it is invested.
-/
namespace Backtesting

inductive Rule
  | buyAndHold (initial : Option Date)
  | rebalancing (frequency : Frequency) (last : Option Date)
  | crossover (fast slow : Nat)
deriving DecidableEq

abbrev Signals := OrderedMap Asset Signal

def Signals.same (s : Signal) (assets : List Asset) : Signals :=
  OrderedMap.ofList (assets.map (·, s))

namespace Rule

/-- Whether the period since the last signal is over on `d`. -/
def isDue (frequency : Frequency) (last : Option Date) (d : Date) : Except Error Bool :=
  match last with
  | none => .ok true
  | some e => do
      match ← frequency.next e with
      | none => pure false
      | some due => pure (due ≤ d)

/-- Fast and slow mean of the closes up to `d`, `none` before there are enough of them or when
there is none on `d` itself. -/
def averages (fast slow : Nat) (market : MarketHistory) (a : Asset) (d : Date) :
    Except Error (Option (Float × Float)) :=
  let closes := market.closes a (some d)
  if closes.length < slow ∨ closes.getLast?.map Prod.fst ≠ some d then .ok none
  else do
    let prices ← (closes.drop (closes.length - slow)).mapM fun (_, c) => Decimal.lift c.toFloat
    pure (some (Series.lastMean fast prices, Series.lastMean slow prices))

def crossing (invested : Bool) (fast slow : Float) : Option Signal :=
  if slow < fast && !invested then some .long
  else if fast < slow && invested then some .exit
  else none

def crossoverSignals (fast slow : Nat) (market : MarketHistory) (position : Asset → Int)
    (d : Date) (assets : List Asset) : Except Error Signals := do
  let signals ← assets.mapM fun a => do
    match ← averages fast slow market a d with
    | none => pure none
    | some (f, s) => pure ((crossing (0 < position a) f s).map (a, ·))
  pure (OrderedMap.ofList (signals.filterMap id))

/-- The signals of `d` and the rule as it goes on. -/
def signals (r : Rule) (market : MarketHistory) (position : Asset → Int) (assets : List Asset)
    (d : Date) : Except Error (Rule × Signals) :=
  match r with
  | buyAndHold initial =>
      let initial := initial.getD d
      .ok (buyAndHold (some initial),
        if d = initial then Signals.same .underweight assets else OrderedMap.empty)
  | rebalancing frequency last => do
      if ← isDue frequency last d then
        pure (rebalancing frequency (some d), Signals.same .rebalance assets)
      else pure (r, OrderedMap.empty)
  | crossover fast slow => do
      pure (r, ← crossoverSignals fast slow market position d assets)

def dateText : Option Date → Document
  | none => .null
  | some d => .text d.toText

/-- What the rule remembers, as a document. -/
def exportState : Rule → Document
  | buyAndHold initial => .object [("initial_date", dateText initial)]
  | rebalancing _ last => .object [("last_rebalancing_date", dateText last)]
  | crossover .. => .object []

def restoreState (r : Rule) (state : Document) : Except Error Rule :=
  match r with
  | buyAndHold _ => do pure (buyAndHold (← Date.readOptional (state.field "initial_date")))
  | rebalancing f _ => do
      pure (rebalancing f (← Date.readOptional (state.field "last_rebalancing_date")))
  | crossover .. => .ok r

/-- The day on which buying and holding signals; other rules have none. -/
def initialDate : Rule → Except Error (Option Date)
  | buyAndHold initial => .ok initial
  | _ => .error .missingAttribute

def lastRebalancing : Rule → Except Error (Option Date)
  | rebalancing _ last => .ok last
  | _ => .error .missingAttribute

/-- The day on which a rebalancing rule signals after one on `d`. -/
def nextRebalancing (r : Rule) (d : Date) : Except Error (Option Date) :=
  match r with
  | rebalancing frequency _ => frequency.next d
  | _ => .error .missingAttribute

def isRebalancingDay (r : Rule) (d : Date) : Except Error Bool :=
  match r with
  | rebalancing frequency last => isDue frequency last d
  | _ => .error .missingAttribute

/-- Whether a crossover takes a position for an investment. -/
def isInvested (r : Rule) (position : Int) : Except Error Bool :=
  match r with
  | crossover .. => .ok (0 < position)
  | _ => .error .missingAttribute

end Rule
end Backtesting
