import Backtesting.Chronicle
import Backtesting.Document.Number
import Backtesting.OrderedMap
import Backtesting.Text.Blank
import Backtesting.Text.Upper

/-!
Exchange rates by day. The rate of a currency is the value of one unit of it in the base currency,
whose own rate is always 1. A rate counts for its day alone; nothing is carried forward. Amounts
are converted through the base currency.
-/
namespace Backtesting

/-- A currency by its code in any case, with blanks around it. -/
def Currency.read (x : Document) : Except Error Currency :=
  match Currency.ofCode? (Text.upper (Text.trim x.plainText)) with
  | some c => .ok c
  | none => .error (.unsupportedCurrency x)

/-- A currency by its exact code. -/
def Currency.ofCode (s : String) : Except Error Currency :=
  match Currency.ofCode? s with
  | some c => .ok c
  | none => .error .unknownCode

structure FxHistory where
  base : Currency
  rates : Chronicle (OrderedMap Currency Decimal)

namespace FxHistory

def empty (base : Currency) : FxHistory := ⟨base, Chronicle.empty⟩

instance : Inhabited FxHistory := ⟨empty .usd⟩

def lastDate? (h : FxHistory) : Option Date := h.rates.lastDate?

def dates (h : FxHistory) : List Date := h.rates.dates

def size (h : FxHistory) : Nat := h.rates.size

def readRate (d : Date) (e : String × Amount) : Except Error (Currency × Decimal) := do
  let rate ← e.2.read
  if ← Decimal.lift (rate.isAtMost 0) then throw (.rateNotPositive e.1 d rate)
  let currency ← Currency.ofCode e.1
  pure (currency, rate)

def append (h : FxHistory) (d : Date) (rates : List (String × Amount)) : Except Error FxHistory :=
  match h.rates.later? d with
  | some last => .error (.outOfOrder "fx rate" d last)
  | none => do
      let rates ← rates.mapM (readRate d)
      pure { h with rates := h.rates.put d (OrderedMap.ofList rates) }

def rate (h : FxHistory) (d : Date) (c : Currency) : Except Error Decimal :=
  if c = h.base then .ok 1
  else match h.rates.get? d with
    | none => .error (.noFxRate d c)
    | some rates => match rates.get? c with
      | some r => .ok r
      | none => .error (.noFxRate d c)

def convert (h : FxHistory) (d : Date) (amount : Decimal) (source target : Currency) :
    Except Error Decimal :=
  if source = target then .ok amount
  else do
    let inBase ← Decimal.lift (amount.mul (← h.rate d source))
    if target = h.base then pure inBase
    else Decimal.lift (inBase.div (← h.rate d target))

def toBase (h : FxHistory) (d : Date) (amount : Decimal) (source : Currency) :
    Except Error Decimal := h.convert d amount source h.base

end FxHistory
end Backtesting
