import Backtesting.Strategy.Rule
import Backtesting.Strategy.Sizing
import Backtesting.Trading.Pricing

/-!
A strategy: the assets it trades with their currencies, how it signals, sizes and prices, and its
book. Its name belongs to the portfolio that runs it.
-/
namespace Backtesting

structure Strategy where
  assets : Listings
  sizer : Sizer
  pricing : Pricing
  rule : Rule
  book : Book

namespace Strategy

def currencyOf (s : Strategy) (a : Asset) : Except Error Currency := s.assets.currencyOf a

def position (s : Strategy) (a : Asset) : Int := s.book.position a

def totalValue (s : Strategy) (d : Date) (base : Currency) (market : MarketHistory)
    (fx : FxHistory) : Except Error Decimal := s.book.totalValue s.assets d base market fx

def capital (s : Strategy) (d : Date) (market : MarketHistory) (fx : FxHistory) :
    Except Error Decimal := Sizer.capital s.book s.assets d market fx

def sizesFor (s : Strategy) (sizer : Sizer) (d : Date) (signals : Signals)
    (market : MarketHistory) (fx : FxHistory) : Except Error (OrderedMap Asset Int) :=
  sizer.sizesFor s.book s.assets d signals market fx

/-- The signals of `d`, which the rule may remember. -/
def signals (s : Strategy) (d : Date) (market : MarketHistory) :
    Except Error (Strategy × Signals) := do
  let (rule, signals) ← s.rule.signals market s.position s.assets.keys d
  pure ({ s with rule }, signals)

def setTarget (s : Strategy) (capital : BalanceSheet) : Except Error Strategy := do
  pure { s with book := ← s.book.setTarget capital }

def applySplit (s : Strategy) (a : Asset) (ratio : Amount) : Except Error Strategy := do
  pure { s with book := ← s.book.applySplit a ratio }

def onBook (x : Action Book α) : Action Strategy α := fun s =>
  let (book, r) := x s.book
  ({ s with book }, r)

def applyFill (f : Fill) : Action Strategy Unit := fun s => onBook (Book.applyFill s.assets f) s

def applyDividend (a : Asset) (perShare : Amount) : Action Strategy Decimal := fun s =>
  onBook (Book.applyDividend s.assets a perShare) s

def restoreState (s : Strategy) (state : Document) : Except Error Strategy := do
  pure { s with rule := ← s.rule.restoreState state }

def kind (s : Strategy) : String :=
  match s.rule with
  | .buyAndHold _ => "BuyAndHoldStrategy"
  | .rebalancing .. => "RebalancingBuyAndHoldStrategy"
  | .crossover .. => "MovingAverageCrossoverStrategy"

def summary (s : Strategy) (name : String) : String :=
  s!"{s.kind}(name={Text.quoted name}, assets={Text.quotedList s.assets.keys})"

end Strategy
end Backtesting
