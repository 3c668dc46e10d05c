import Backtesting.Journal
import Backtesting.Market.Equity
import Backtesting.Portfolio.Allocation
import Backtesting.Trading.Brokerage

/-!
A portfolio: strategies under distinct names, the histories of bars and rates, the equity curve,
the fills and the brokerage they come from. The journal holds what was reported along the way.
-/
namespace Backtesting

structure Portfolio where
  name : String
  base : Currency
  strategies : Strategies
  listings : Listings
  allocator : Allocator
  market : MarketHistory
  fx : FxHistory
  equity : EquityCurve
  fills : List Fill
  signalCount : Nat
  orderCount : Nat
  brokerage : Brokerage
  /-- The bars that orders are matched against, where these are not the bars of the portfolio. -/
  venue : Option MarketHistory
  journal : List LogEntry

namespace Portfolio

def gatherStrategies (name : String) (named : List (String × Strategy)) :
    Except Error Strategies := do
  let strategies ← named.foldlM (fun (m : Strategies) e =>
    if m.contains e.1 then .error (.duplicateStrategy name e.1) else .ok (m.put e.1 e.2))
    OrderedMap.empty
  if strategies.isEmpty then throw (.noStrategies name)
  pure strategies

def listAsset (name : String) (l : Listings) (e : Asset × Currency) : Except Error Listings :=
  match l.get? e.1 with
  | some c => if c = e.2 then .ok (l.put e.1 e.2) else .error (.listedTwice name e.1 c e.2)
  | none => .ok (l.put e.1 e.2)

/-- The currencies of all assets; every strategy must agree on them. -/
def mergeListings (name : String) (explicit : List (Asset × Document))
    (strategies : Strategies) : Except Error Listings := do
  let explicit ← explicit.mapM fun (a, c) => do pure (a, ← Currency.read c)
  (strategies.values.flatMap (·.assets.toList)).foldlM (listAsset name)
    (OrderedMap.ofList explicit)

/-- A portfolio without history. `fxBase` is the base currency of its rates. -/
def build (name : String) (base : Document) (named : List (String × Strategy))
    (allocator : Allocator) (commission : Commission) (fxBase : Option Currency)
    (explicit : List (Asset × Document)) (venue : Option MarketHistory) :
    Except Error Portfolio := do
  let base ← Currency.read base
  let strategies ← gatherStrategies name named
  let listings ← mergeListings name explicit strategies
  let fxBase := fxBase.getD base
  if fxBase ≠ base then throw (.fxBaseMismatch name fxBase base)
  pure {
    name, base, strategies, listings, allocator
    market := MarketHistory.empty
    fx := FxHistory.empty fxBase
    equity := EquityCurve.empty
    fills := []
    signalCount := 0
    orderCount := 0
    brokerage := Brokerage.start commission
    venue
    journal := [] }

def strategy (p : Portfolio) (name : String) : Except Error Strategy :=
  match p.strategies.get? name with
  | some s => .ok s
  | none => .error (.unknownStrategy name)

def assets (p : Portfolio) : List Asset := p.listings.keys

/-- The currencies other than the base that assets are listed in or cash is held in. -/
def currencies (p : Portfolio) : List Currency :=
  let listed := p.listings.values.map (·, ())
  let held := p.strategies.values.flatMap fun s => s.book.cash.keys.map (·, ())
  (OrderedMap.ofList (listed ++ held)).keys.filter (· ≠ p.base)

/-- The positions of all strategies together. -/
def positions (p : Portfolio) : OrderedMap Asset Int :=
  (p.strategies.values.flatMap fun s => s.book.positions.toList).foldl
    (fun m e => m.put e.1 (m.getD e.1 0 + e.2)) OrderedMap.empty

def totalValue (p : Portfolio) (d : Date) : Except Error Decimal :=
  p.strategies.totalValue d p.base p.market p.fx

end Portfolio
end Backtesting
