import Backtesting.Market.History
import Backtesting.Trading.Order

/-!
The simulated brokerage. An order is matched against the close of its asset on its day and filled
completely or not at all: at the close, or at the price that the order names. Each fill costs a
fixed share of its worth.
-/
namespace Backtesting

structure Commission where
  rate : Decimal
deriving DecidableEq, Repr

namespace Commission

def standard : Commission := ⟨.finite false 1 (-3)⟩

def on (c : Commission) (price : Decimal) (quantity : Int) : Except Decimal.Fault Decimal := do
  (← price.mul (Decimal.ofInt quantity)).mul c.rate

end Commission

namespace Order

/-- Whether the close is at least as good as the limit. -/
def limitMet (action : TradeAction) (limit close : Decimal) : Except Decimal.Fault Bool :=
  match action with
  | .buy => limit.isAtLeast close
  | .sell => limit.isAtMost close

/-- Whether the close has reached the stop. -/
def stopMet (action : TradeAction) (stop close : Decimal) : Except Decimal.Fault Bool :=
  match action with
  | .buy => stop.isAtMost close
  | .sell => stop.isAtLeast close

/-- The price at which the order is filled against `close`, `none` when it is not. -/
def fillPrice (o : Order) (close : Decimal) : Except Decimal.Fault (Option Decimal) :=
  match o.terms with
  | .market .. => .ok (some close)
  | .limit price _ => do return if ← limitMet o.action price close then some price else none
  | .stop price _ => do return if ← stopMet o.action price close then some price else none
  | .stopLimit trigger limit => do
      if ← stopMet o.action trigger close then
        return if ← limitMet o.action limit close then some limit else none
      else return none

end Order

structure Brokerage where
  commission : Commission
  fills : List Fill
  submitted : Nat
  rejected : Nat

namespace Brokerage

def start (commission : Commission) : Brokerage := ⟨commission, [], 0, 0⟩

/-- What became of an order. -/
inductive Outcome
  | noBar
  | unmatched (close : Decimal)
  | filled (fill : Fill)

def filled? : Outcome → Option Fill
  | .filled f => some f
  | _ => none

/-- The outcome of an order against the bar of its asset on its day. -/
def execute (commission : Commission) (o : Order) : Option Bar → Except Error Outcome
  | none => .ok .noBar
  | some bar => do
      match ← Decimal.lift (o.fillPrice bar.close) with
      | none => pure (.unmatched bar.close)
      | some price =>
          let cost ← Decimal.lift (commission.on price o.quantity)
          pure (.filled ⟨o.date, o.strategy, o.asset, o.action, price, o.quantity, cost⟩)

/-- An order counts as submitted even when pricing it fails. -/
def submit (b : Brokerage) (h : MarketHistory) (o : Order) : Brokerage × Except Error Outcome :=
  let b := { b with submitted := b.submitted + 1 }
  match execute b.commission o (h.bar? o.date o.asset) with
  | .error e => (b, .error e)
  | .ok (.filled f) => ({ b with fills := b.fills ++ [f] }, .ok (.filled f))
  | .ok outcome => ({ b with rejected := b.rejected + 1 }, .ok outcome)

/-- What a listener has heard that came when there were `known` fills. -/
def fillsSince (b : Brokerage) (known : Nat) : List Fill := b.fills.drop known

end Brokerage
end Backtesting
