import Backtesting.Strategy.Basic

/-!
How the capital of a portfolio is divided among its strategies. A strategy funds itself with what
it is worth, or all strategies share the total value evenly; amounts are in the base currency. A
fixed allocation ignores the values and hands out the same capital every day.
-/
namespace Backtesting

inductive Allocator
  | selfFunded
  | equalWeight
  | fixed (capital : List (String × List (String × Amount)))

abbrev Strategies := OrderedMap String Strategy

/-- What the strategies are worth together. -/
def Strategies.totalValue (strategies : Strategies) (d : Date) (base : Currency)
    (market : MarketHistory) (fx : FxHistory) : Except Error Decimal :=
  strategies.values.foldlM (fun total s => do
    Decimal.lift (total.add (← s.totalValue d base market fx))) Decimal.zero

namespace Allocator

def inBase (base : Currency) (amount : Decimal) : BalanceSheet :=
  .known (OrderedMap.empty.put base amount)

/-- The values of the strategies in the order of the portfolio. -/
def values (strategies : Strategies) (d : Date) (base : Currency) (market : MarketHistory)
    (fx : FxHistory) : Except Error (List (String × Decimal)) :=
  strategies.toList.mapM fun (name, s) => do pure (name, ← s.totalValue d base market fx)

/-- The capital of each strategy by name. -/
def allocate (a : Allocator) (strategies : Strategies) (d : Date) (base : Currency)
    (market : MarketHistory) (fx : FxHistory) : Except Error (List (String × BalanceSheet)) :=
  match a with
  | selfFunded => do
      let worth ← values strategies d base market fx
      pure (worth.map fun (name, v) => (name, inBase base v))
  | equalWeight =>
      if strategies.isEmpty then .ok []
      else do
        let total ← strategies.totalValue d base market fx
        let share ← Decimal.lift (total.div (Decimal.ofInt strategies.size))
        pure (strategies.keys.map (·, inBase base share))
  | fixed capital => .ok (capital.map fun (name, c) => (name, .written c))

end Allocator
end Backtesting
