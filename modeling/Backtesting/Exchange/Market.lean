import Backtesting.Document.Schema
import Backtesting.Market.Equity
import Backtesting.Market.History
import Backtesting.Market.Rates

/-!
Bars, rates and values as documents. A bar is handed in by its close alone or with any of its
fields; what is left out is the close, or a thousand units traded without dividend or split. Maps
whose order counts are shown as lists of pairs.
-/
namespace Backtesting

namespace Document

/-- Entries in order, each a list of key and value. -/
def pairs (entries : List (String × Document)) : Document :=
  .list (entries.map fun (k, x) => .list [.text k, x])

def optional (f : α → Document) : Option α → Document
  | none => .null
  | some a => f a

def ofNat (n : Nat) : Document := .integer n

def string (x : Document) (key : String) (default_ : String) : String :=
  ((x.field key).text?).getD default_

/-- The name at a key of a closed set of names. -/
def named (x : Document) (read : String → Option α) : Except Error α :=
  match x.text?.bind read with
  | some a => .ok a
  | none => .error .unknownCode

/-- Amounts by name that are still to be read. -/
def amounts (x : Document) : List (String × Amount) := x.fields.map fun (k, v) => (k, .written v)

def amount? (x : Document) : Option Amount := if x.isNull then none else some (.written x)

end Document

namespace Date

def toDocument (d : Date) : Document := .text d.toText

/-- A date in the one form that sorts as text. -/
def ofDocument (x : Document) : Except Error Date :=
  match x.text?.bind Schema.dateText? with
  | some d => .ok d
  | none => .error .dateOutOfRange

def optionalOfDocument : Document → Except Error (Option Date)
  | .null => .ok none
  | x => (ofDocument x).map some

end Date

def Decimal.toDocument (x : Decimal) : Document := .text x.toText

/-- The currency of a history, dollars unless it is given. -/
def Currency.ofField (x : Document) (key : String) : Except Error Currency :=
  ((x.get? key).getD (.text Currency.usd.code)).named Currency.ofCode?

namespace Quote

def fields (q : Quote) : List (String × Document) :=
  [("open", q.opening.toDocument), ("high", q.high.toDocument), ("low", q.low.toDocument),
    ("close", q.close.toDocument), ("adjusted_close", q.adjustedClose.toDocument),
    ("volume", .integer q.volume), ("dividend_per_share", q.dividend.toDocument),
    ("split_coefficient", q.split.toDocument)]

def toDocument (q : Quote) : Document := .object q.fields

end Quote

namespace Bar

def ofFields (x close : Document) : Except Error Bar :=
  let get (key : String) (default_ : Document) := (x.get? key).getD default_
  read (get "open" close) (get "high" close) (get "low" close) close (get "adjusted_close" close)
    (get "volume" (.integer 1000)) (get "dividend_per_share" (.integer 0))
    (get "split_coefficient" (.integer 1))

def ofDocument (x : Document) : Except Error Bar :=
  match x with
  | .object _ => ofFields x (x.field "close")
  | close => ofFields (.object []) close

end Bar

namespace Bars

def ofDocument (x : Document) : Except Error Bars := do
  pure (OrderedMap.ofList (← x.fields.mapM fun (a, b) => do pure (a, ← Bar.ofDocument b)))

def toDocument (b : Bars) : Document :=
  Document.pairs (b.toList.map fun (a, b) => (a, b.toQuote.toDocument))

end Bars

namespace MarketHistory

def toDocument (h : MarketHistory) : Document :=
  Document.pairs (h.bars.days.map fun (d, b) => (d.toText, Bars.toDocument b))

end MarketHistory

def ratesDocument (m : OrderedMap Currency Decimal) : Document :=
  Document.pairs (m.toList.map fun (c, v) => (c.code, v.toDocument))

def FxHistory.toDocument (h : FxHistory) : Document :=
  Document.pairs (h.rates.days.map fun (d, r) => (d.toText, ratesDocument r))

def seriesDocument (l : List (Date × Decimal)) : Document :=
  Document.pairs (l.map fun (d, v) => (d.toText, v.toDocument))

/-- Bars and rates of past days. -/
structure Histories where
  market : MarketHistory
  fx : FxHistory

namespace Histories

/-- Takes in a day; rates only where there is an entry for them. -/
def append (h : Histories) (day : Document) : Except Error Histories := do
  let d ← Date.ofDocument (day.field "date")
  let market ← h.market.append d (← Bars.ofDocument (day.field "bars"))
  match day.get? "fx" with
  | none => pure { h with market }
  | some rates => pure { market, fx := ← h.fx.append d rates.amounts }

def start (x : Document) : Except Error Histories := do
  pure ⟨MarketHistory.empty, FxHistory.empty (← Currency.ofField x "base")⟩

def ofDocument (x : Document) : Except Error Histories := do
  (x.field "history").items.foldlM append (← start x)

end Histories
end Backtesting
