import Backtesting.Config.Components
import Backtesting.Exchange.Market

/-!
Signals, orders, fills, books and strategies as documents.
-/
namespace Backtesting

namespace Signals

def ofDocument (x : Document) : Except Error Signals := do
  pure (OrderedMap.ofList (← x.fields.mapM fun (a, s) => do pure (a, ← s.named Signal.ofLabel?)))

def toDocument (s : Signals) (d : Date) (strategy : String) : Document :=
  .object [("date", d.toDocument), ("strategy", .text strategy),
    ("signals", Document.pairs (s.toList.map fun (a, x) => (a, .text x.label))),
    ("empty", .bool s.isEmpty)]

end Signals

def strategyOf (x : Document) : String := x.string "strategy" "s1"

def OrderRequest.ofDocument (x : Document) : Except Error OrderRequest := do
  let action ← (x.field "action").named TradeAction.ofLabel?
  let type ← (x.field "type").named OrderType.ofLabel?
  let date ← Date.ofDocument (x.field "date")
  pure {
    date, action, type
    strategy := strategyOf x
    asset := x.string "asset" ""
    quantity := x.field "quantity"
    primary := (x.field "primary").amount?
    secondary := (x.field "secondary").amount? }

def OrderPrices.fields (primary secondary : Option Decimal) : List (String × Document) :=
  [("primary", Document.optional Decimal.toDocument primary),
    ("secondary", Document.optional Decimal.toDocument secondary)]

def OrderPrices.toDocument (p : OrderPrices) : Document :=
  .object (("type", .text p.type.label) :: fields p.primary p.secondary)

namespace Fill

def ofDocument (x : Document) : Except Error Fill := do
  let action ← (x.field "action").named TradeAction.ofLabel?
  let price ← (x.field "price").toDecimal
  let commission ← ((x.get? "commission").getD (.integer 0)).toDecimal
  let date ← Date.ofDocument (x.field "date")
  let quantity := ((x.field "quantity").integer?).getD 0
  pure ⟨date, strategyOf x, x.string "asset" "", action, price, quantity, commission⟩

def toDocument (f : Fill) : Except Error Document := do
  let cashFlow ← Decimal.lift f.cashFlow
  pure (.object [("date", f.date.toDocument), ("strategy", .text f.strategy),
    ("asset", .text f.asset), ("action", .text f.action.label), ("price", f.price.toDocument),
    ("quantity", .integer f.quantity), ("commission", f.commission.toDocument),
    ("signed", .integer f.signedQuantity), ("cash_flow", cashFlow.toDocument)])

end Fill

def positionsDocument (p : OrderedMap Asset Int) : Document :=
  Document.pairs (p.toList.map fun (a, q) => (a, .integer q))

def Listings.toDocument (l : Listings) : Document :=
  Document.pairs (l.toList.map fun (a, c) => (a, .text c.code))

namespace Sizer

def fields (s : Sizer) : List (String × Document) :=
  match s with
  | fixedWeight w => [("weights", .object (w.toList.map fun (a, v) => (a, v.toDocument)))]
  | inverseVolatility n => [("lookback", .ofNat n)]

end Sizer

def Pricing.fields : Pricing → List (String × Document)
  | closePrice => []
  | limit o | stop o => [("offset_bps", o.toDocument)]
  | stopLimit s l => [("stop_offset_bps", s.toDocument), ("limit_offset_bps", l.toDocument)]

def Rule.fields : Rule → List (String × Document)
  | buyAndHold d => [("initial_date", Document.optional Date.toDocument d)]
  | rebalancing f _ => [("frequency", .text f.label)]
  | crossover f s => [("fast", .ofNat f), ("slow", .ofNat s)]

/-- A component by its kind and fields. -/
def componentDocument (kind : String) (fields : List (String × Document)) : Document :=
  .object (("class", .text kind) :: fields)

namespace Strategy

/-- What the strategy is made of. -/
def fields (s : Strategy) (name : String) : List (String × Document) :=
  [("name", .text name), ("assets", s.assets.toDocument), ("cash", ratesDocument s.book.cash),
    ("sizer", .text s.sizer.kind), ("pricing", .text s.pricing.kind)] ++ s.rule.fields

/-- Where the strategy stands. -/
def bookFields (s : Strategy) : List (String × Document) :=
  [("positions", positionsDocument s.book.positions), ("cash", ratesDocument s.book.cash),
    ("target", ratesDocument s.book.target), ("state", s.rule.exportState)]

def restoreBook (x : Document) : Action Strategy Unit :=
  onBook (Book.restore (x.field "positions").fields (.written (x.field "cash").amounts)
    (.written (x.field "target_capital").amounts))

/-- A strategy with the book that is kept for it, if there is one. -/
def withBook (s : Strategy) (books : Document) (name : String) : Except Error Strategy :=
  match books.get? name with
  | none => .ok s
  | some b =>
      match restoreBook b s with
      | (s, .ok _) => .ok s
      | (_, .error e) => .error e

end Strategy

/-- A component of some kind as it is declared, or the kinds that there are. -/
def Factory.describe (f : Factory) (x : Document) : Except Error Document :=
  match f with
  | strategy => do
      let (name, s) ← Strategy.ofDocument x
      pure (componentDocument s.kind (s.fields name))
  | sizer => do
      let s ← createFrom sizer Sizer.builder x
      pure (componentDocument s.kind s.fields)
  | pricing => do
      let p ← createFrom pricing Pricing.builder x
      pure (componentDocument p.kind p.fields)
  | allocator => do
      let a ← createFrom allocator Allocator.builder x
      pure (componentDocument a.kind [])

end Backtesting
