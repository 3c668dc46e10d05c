import Backtesting.Market.Bar
import Backtesting.Trading.Signal

/-!
Orders and fills. A request may name any prices; an order exists only when its type has the prices
it needs, all its prices are above zero and its quantity is positive. The side of a trade is its
action, so a quantity carries no sign.
-/
namespace Backtesting

inductive OrderType
  | market | limit | stop | stopLimit
deriving DecidableEq, Repr, Inhabited

namespace OrderType

def label : OrderType → String
  | market => "Market"
  | limit => "Limit"
  | stop => "Stop"
  | stopLimit => "StopLimit"

def ofLabel? : String → Option OrderType
  | "Market" => some market
  | "Limit" => some limit
  | "Stop" => some stop
  | "StopLimit" => some stopLimit
  | _ => none

end OrderType

/-- The prices of an order by its type. A price that the type does not use is kept, not matched. -/
inductive OrderTerms
  | market (primary secondary : Option Decimal)
  | limit (price : Decimal) (secondary : Option Decimal)
  | stop (price : Decimal) (secondary : Option Decimal)
  | stopLimit (trigger limit : Decimal)
deriving DecidableEq, Repr

namespace OrderTerms

def type : OrderTerms → OrderType
  | market .. => .market
  | limit .. => .limit
  | stop .. => .stop
  | stopLimit .. => .stopLimit

def primary? : OrderTerms → Option Decimal
  | market p _ => p
  | limit p _ => some p
  | stop p _ => some p
  | stopLimit p _ => some p

def secondary? : OrderTerms → Option Decimal
  | market _ s => s
  | limit _ s => s
  | stop _ s => s
  | stopLimit _ s => some s

end OrderTerms

structure OrderRequest where
  date : Date
  strategy : String
  asset : Asset
  action : TradeAction
  type : OrderType
  quantity : Document
  primary : Option Amount
  secondary : Option Amount

structure Order where
  date : Date
  strategy : String
  asset : Asset
  action : TradeAction
  terms : OrderTerms
  quantity : Int
  quantity_pos : 0 < quantity

namespace OrderRequest

def readPrice : Option Amount → Except Error (Option Decimal)
  | none => .ok none
  | some p => p.read.map some

/-- A whole number as such or as a number without a fraction; text is none. -/
def wholeQuantity (q : Document) : Except Error Int := do
  let n ← q.toInt
  match q with
  | .text _ => throw (.orderQuantity q)
  | .number x =>
      match Binary64.ofInt? n with
      | some y => if x == y then pure n else throw (.orderQuantity q)
      | none => pure n
  | _ => pure n

def terms (r : OrderRequest) (primary secondary : Option Decimal) : Except Error OrderTerms :=
  match r.type, primary, secondary with
  | .market, p, s => .ok (.market p s)
  | .limit, some p, s => .ok (.limit p s)
  | .stop, some p, s => .ok (.stop p s)
  | .stopLimit, some p, some s => .ok (.stopLimit p s)
  | .stopLimit, _, _ => .error (.orderWithoutPrices r.asset)
  | t, none, _ => .error (.orderWithoutPrice t.label r.asset)

def requirePositive (field : String) : Option Decimal → Except Error Unit
  | none => .ok ()
  | some p => do if ← Decimal.lift (p.isAtMost 0) then throw (.orderPrice field p)

def validate (r : OrderRequest) : Except Error Order := do
  let primary ← readPrice r.primary
  let secondary ← readPrice r.secondary
  let quantity ← wholeQuantity r.quantity
  if h : 0 < quantity then
    let terms ← r.terms primary secondary
    requirePositive "primary_price" primary
    requirePositive "secondary_price" secondary
    pure ⟨r.date, r.strategy, r.asset, r.action, terms, quantity, h⟩
  else throw (.orderQuantity r.quantity)

end OrderRequest

structure Fill where
  date : Date
  strategy : String
  asset : Asset
  action : TradeAction
  price : Decimal
  quantity : Int
  commission : Decimal
deriving DecidableEq

namespace Fill

def signedQuantity (f : Fill) : Int := f.action.sign * f.quantity

/-- The change of cash in the currency of the asset; a purchase takes cash away. -/
def cashFlow (f : Fill) : Except Decimal.Fault Decimal := do
  let worth ← f.price.mul (Decimal.ofInt f.signedQuantity)
  (← worth.neg).sub f.commission

end Fill
end Backtesting
