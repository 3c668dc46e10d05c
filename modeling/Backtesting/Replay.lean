import Backtesting.Market.Tables
import Backtesting.Portfolio.Events
import Backtesting.Tearsheet

/-!
The replay of past days through a portfolio and, beside it, a benchmark. A day that has bars becomes
one event, with the rates of exactly that day, if it lies in the range and in the calendar. Rates of
days without bars are passed over. What follows the end of the range is not looked at.
-/
namespace Backtesting

structure ReplayRange where
  start : Option Date
  finish : Option Date
  calendar : Option (List Date)

namespace ReplayRange

def isOver (r : ReplayRange) (d : Date) : Bool := r.finish.any (· < d)

def admits (r : ReplayRange) (d : Date) : Bool :=
  d.isWithin r.start r.finish && r.calendar.all (·.contains d)

end ReplayRange

namespace MarketDay

def ofRates (rates : OrderedMap Currency Decimal) : List (String × Amount) :=
  rates.toList.map fun (c, r) => (c.code, .known r)

/-- The event of a day with bars, given the rates of that day if there are any. -/
def ofDay (d : Date) (bars : Bars) (rates : Option (OrderedMap Currency Decimal)) : MarketDay :=
  ⟨d, bars, ofRates (rates.getD OrderedMap.empty)⟩

/-- Days with bars beside the rates that are still to come. -/
def mergeDays (range : ReplayRange) (failure : Option Error) :
    Feed (Date × OrderedMap Currency Decimal) → List (Date × Bars) → Feed MarketDay
  | _, [] => ⟨[], failure⟩
  | fx, (d, bars) :: rest =>
      let fx := fx.since d
      match fx.blocked? with
      | some e => Feed.failed e
      | none =>
          if range.isOver d then Feed.ofList []
          else
            let later := mergeDays range failure fx rest
            if range.admits d then later.cons (ofDay d bars (fx.on? d)) else later

def merge (range : ReplayRange) (bars : Feed (Date × Bars))
    (fx : Feed (Date × OrderedMap Currency Decimal)) : Feed MarketDay :=
  match fx.blocked? with
  | some e => Feed.failed e
  | none => mergeDays range bars.failure fx bars.items

end MarketDay

structure Replay where
  portfolio : Portfolio
  benchmark : Option Portfolio
  /-- The days that both have gone through. -/
  days : Nat

namespace Replay

def start (portfolio : Portfolio) (benchmark : Option Portfolio) : Replay := ⟨portfolio, benchmark, 0⟩

def portfolios (r : Replay) : List Portfolio := r.portfolio :: r.benchmark.toList

def assets (r : Replay) : List Asset := (r.portfolios.flatMap Portfolio.assets).eraseDups

def currencies (r : Replay) : List Currency := (r.portfolios.flatMap Portfolio.currencies).eraseDups

/-- The events for the assets and currencies that the portfolios have at the start. -/
def events (r : Replay) (data : MarketTables) (range : ReplayRange) : Feed MarketDay :=
  MarketDay.merge range (data.barFeed r.assets)
    (data.rateFeed (r.currencies.map fun c => .text c.code))

def onPortfolio (x : Action Portfolio α) : Action Replay α := fun r =>
  let (p, a) := x r.portfolio
  ({ r with portfolio := p }, a)

def onBenchmark (x : Action Portfolio Unit) : Action Replay Unit := fun r =>
  match r.benchmark with
  | none => (r, .ok ())
  | some b =>
      let (b, a) := x b
      ({ r with benchmark := some b }, a)

def playDay (day : MarketDay) : Action Replay Unit := do
  onPortfolio (Portfolio.handle (.market day))
  onBenchmark (Portfolio.handle (.market day))
  Action.modify fun r => { r with days := r.days + 1 }

/-- Goes through a feed; a failure of the feed comes after its days. -/
def play (feed : Feed MarketDay) : Action Replay Unit := do
  Action.forEach feed.items playDay
  match feed.failure with
  | some e => Action.fail e
  | none => return ()

def tearsheet (r : Replay) : Except Error Tearsheet :=
  let curve (p : Portfolio) : Curve Decimal := OrderedMap.ofList p.equity.points
  Tearsheet.ofCurves Tearsheet.readDecimal (curve r.portfolio) (r.benchmark.map curve)

def readRange (start finish : Document) (calendar : Option (List Date)) :
    Except Error ReplayRange := do
  let start ← Date.readOptional start
  let finish ← Date.readOptional finish
  pure ⟨start, finish, calendar⟩

/-- Replays the data and sums up the equity curves. -/
def run (data : MarketTables) (start finish : Document) (calendar : Option (List Date)) :
    Action Replay Tearsheet := do
  let range ← Action.ofExcept (readRange start finish calendar)
  let feed ← Action.read fun r => .ok (r.events data range)
  play feed
  Action.read tearsheet

end Replay
end Backtesting
