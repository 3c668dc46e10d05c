import Backtesting.Chronicle
import Backtesting.Market.Bar
import Backtesting.OrderedMap

/-!
The bars of all days so far. Days are appended in order; the only revision of the past is a split,
which adjusts every bar of one asset. A split that fails at some day leaves the days before it
adjusted.
-/
namespace Backtesting

abbrev Bars := OrderedMap Asset Bar

structure MarketHistory where
  bars : Chronicle Bars

namespace MarketHistory

def empty : MarketHistory := ⟨Chronicle.empty⟩

instance : Inhabited MarketHistory := ⟨empty⟩

def lastDate? (h : MarketHistory) : Option Date := h.bars.lastDate?

def dates (h : MarketHistory) : List Date := h.bars.dates

def size (h : MarketHistory) : Nat := h.bars.size

def contains (h : MarketHistory) (d : Date) : Bool := h.bars.contains d

def append (h : MarketHistory) (d : Date) (bars : Bars) : Except Error MarketHistory :=
  match h.bars.later? d with
  | some last => .error (.outOfOrder "market data" d last)
  | none => .ok ⟨h.bars.put d bars⟩

def bar? (h : MarketHistory) (d : Date) (a : Asset) : Option Bar := do (← h.bars.get? d).get? a

def requireBar (h : MarketHistory) (d : Date) (a : Asset) : Except Error Bar :=
  match h.bar? d a with
  | some b => .ok b
  | none => .error (.noMarketData d a)

/-- The bars of a day after a split of `a`; `none` when the day has no bar of it. -/
def splitDay (a : Asset) (coefficient : Decimal) (bars : Bars) : Except Error (Option Bars) :=
  match bars.get? a with
  | none => .ok none
  | some b => (b.adjustedForSplit coefficient).map fun b => some (bars.put a b)

/-- The history after a split of `a` and the number of bars adjusted. -/
def split (h : MarketHistory) (a : Asset) (coefficient : Decimal) :
    MarketHistory × Except Error Nat :=
  let (c, n) := h.bars.revise (splitDay a coefficient)
  (⟨c⟩, n)

/-- The closes of `a` up to the cap, oldest first. The walk ends at the first day beyond it. -/
def closesIn (a : Asset) (cap : Option Date) : List (Date × Bars) → List (Date × Decimal)
  | [] => []
  | (d, bars) :: rest =>
      if cap.any (· < d) then []
      else match bars.get? a with
        | some b => (d, b.close) :: closesIn a cap rest
        | none => closesIn a cap rest

def closes (h : MarketHistory) (a : Asset) (cap : Option Date) : List (Date × Decimal) :=
  closesIn a cap h.bars.days

end MarketHistory
end Backtesting
