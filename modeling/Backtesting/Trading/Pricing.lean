import Backtesting.Market.History
import Backtesting.Trading.Order

/-!
How orders are priced. All prices hang on the close of the day: an offset in basis points is a
concession to the other side, above the close for a purchase and below it for a sale.
-/
namespace Backtesting

inductive Pricing
  | closePrice
  | limit (offset : Decimal)
  | stop (offset : Decimal)
  | stopLimit (stopOffset limitOffset : Decimal)
deriving DecidableEq, Repr

/-- `close · (1 + side · offset / 10000)`. -/
def offsetPrice (close : Decimal) (action : TradeAction) (offset : Decimal) :
    Except Decimal.Fault Decimal := do
  let sided ← (Decimal.ofInt action.sign).mul offset
  close.mul (← Decimal.add 1 (← sided.div 10000))

structure OrderPrices where
  type : OrderType
  primary : Option Decimal
  secondary : Option Decimal
deriving DecidableEq, Repr

namespace Pricing

def pricesAt (p : Pricing) (close : Decimal) (action : TradeAction) :
    Except Decimal.Fault OrderPrices :=
  match p with
  | closePrice => .ok ⟨.market, some close, none⟩
  | limit offset => do return ⟨.limit, some (← offsetPrice close action offset), none⟩
  | stop offset => do return ⟨.stop, some (← offsetPrice close action offset), none⟩
  | stopLimit stopOffset limitOffset => do
      let trigger ← offsetPrice close action stopOffset
      return ⟨.stopLimit, some trigger, some (← offsetPrice close action limitOffset)⟩

def prices (p : Pricing) (h : MarketHistory) (d : Date) (a : Asset) (action : TradeAction) :
    Except Error OrderPrices := do
  let bar ← h.requireBar d a
  Decimal.lift (p.pricesAt bar.close action)

end Pricing
end Backtesting
