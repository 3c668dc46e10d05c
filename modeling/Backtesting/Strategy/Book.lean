import Backtesting.Action
import Backtesting.Market.History
import Backtesting.Market.Rates
import Backtesting.Trading.Order

/-!
The book of a strategy: its positions, its cash by currency and the capital it is told to work
with. The mutators follow fills, dividends and splits; `totalValue` is what the book is worth.
-/
namespace Backtesting

abbrev Balances := OrderedMap Currency Decimal

/-- Sums of money by currency as they are handed in. -/
inductive BalanceSheet
  | known (balances : Balances)
  | written (entries : List (String × Amount))

namespace BalanceSheet

def readEntry (e : String × Amount) : Except Error (Currency × Decimal) := do
  let currency ← Currency.read (.text e.1)
  pure (currency, ← e.2.read)

def read : BalanceSheet → Except Error Balances
  | known b => .ok b
  | written entries => do pure (OrderedMap.ofList (← entries.mapM readEntry))

end BalanceSheet

abbrev Listings := OrderedMap Asset Currency

def Listings.currencyOf (l : Listings) (a : Asset) : Except Error Currency :=
  match l.get? a with
  | some c => .ok c
  | none => .error (.assetNotConfigured a "currency")

structure Book where
  positions : OrderedMap Asset Int
  cash : Balances
  target : Balances
deriving DecidableEq

namespace Book

def start (cash : Balances) : Book := ⟨OrderedMap.empty, cash, OrderedMap.empty⟩

def position (b : Book) (a : Asset) : Int := b.positions.getD a 0

def balance (b : Book) (c : Currency) : Decimal := b.cash.getD c 0

def positionValue (l : Listings) (d : Date) (base : Currency) (market : MarketHistory)
    (fx : FxHistory) (total : Decimal) (e : Asset × Int) : Except Error Decimal :=
  if e.2 = 0 then .ok total
  else do
    let bar ← market.requireBar d e.1
    let worth ← Decimal.lift (bar.close.mul (Decimal.ofInt e.2))
    let worth ← fx.convert d worth (← l.currencyOf e.1) base
    Decimal.lift (total.add worth)

def balanceValue (d : Date) (base : Currency) (fx : FxHistory) (total : Decimal)
    (e : Currency × Decimal) : Except Error Decimal := do
  if ← Decimal.lift (e.2.isSame 0) then pure total
  else
    let worth ← fx.convert d e.2 e.1 base
    Decimal.lift (total.add worth)

/-- Positions at the closes of the day and balances, all in the base currency. Flat positions and
zero balances are passed over, so they need neither bar nor rate. -/
def totalValue (b : Book) (l : Listings) (d : Date) (base : Currency) (market : MarketHistory)
    (fx : FxHistory) : Except Error Decimal := do
  let total ← b.positions.toList.foldlM (positionValue l d base market fx) Decimal.zero
  b.cash.toList.foldlM (balanceValue d base fx) total

/-- Adds to a balance; a currency without one starts at zero. -/
def credit (b : Book) (c : Currency) (amount : Decimal) : Except Error Book := do
  pure { b with cash := b.cash.put c (← Decimal.lift ((b.balance c).add amount)) }

def movePosition (b : Book) (a : Asset) (quantity : Int) : Book :=
  { b with positions := b.positions.put a (b.position a + quantity) }

/-- The position moves before the cash does. -/
def applyFill (l : Listings) (f : Fill) : Action Book Unit := do
  let c ← Action.ofExcept (l.currencyOf f.asset)
  Action.modify (·.movePosition f.asset f.signedQuantity)
  Action.update fun b => do b.credit c (← Decimal.lift f.cashFlow)

/-- The amount credited; a flat position earns nothing. -/
def applyDividend (l : Listings) (a : Asset) (perShare : Amount) : Action Book Decimal := do
  let b ← Action.get
  let quantity := b.position a
  if quantity = 0 then return 0
  let c ← Action.ofExcept (l.currencyOf a)
  let amount ← Action.ofExcept do
    Decimal.lift ((← perShare.read).mul (Decimal.ofInt quantity))
  Action.update (·.credit c amount)
  return amount

/-- The position times the ratio, to the nearest whole share. -/
def applySplit (b : Book) (a : Asset) (ratio : Amount) : Except Error Book :=
  match b.positions.get? a with
  | none => .ok b
  | some quantity => do
      let ratio ← ratio.read
      let scaled ← Decimal.lift ((Decimal.ofInt quantity).mul ratio >>= Decimal.nearestInt)
      pure { b with positions := b.positions.put a scaled }

def setTarget (b : Book) (capital : BalanceSheet) : Except Error Book := do
  pure { b with target := ← capital.read }

def setCash (b : Book) (cash : BalanceSheet) : Except Error Book := do
  pure { b with cash := ← cash.read }

def setPositions (b : Book) (positions : List (Asset × Document)) : Except Error Book := do
  let positions ← positions.mapM fun (a, q) => do pure (a, ← q.toInt)
  pure { b with positions := OrderedMap.ofList positions }

/-- Replaces positions, cash and target capital, in this order. -/
def restore (positions : List (Asset × Document)) (cash target : BalanceSheet) :
    Action Book Unit := do
  Action.update (·.setPositions positions)
  Action.update (·.setCash cash)
  Action.update (·.setTarget target)

end Book
end Backtesting
