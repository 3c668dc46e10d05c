import Backtesting.Chronicle
import Backtesting.Document.Number

/-!
The value of a portfolio by day, in its base currency.
-/
namespace Backtesting

structure EquityCurve where
  values : Chronicle Decimal

namespace EquityCurve

def empty : EquityCurve := ⟨Chronicle.empty⟩

instance : Inhabited EquityCurve := ⟨empty⟩

def lastDate? (c : EquityCurve) : Option Date := c.values.lastDate?

def lastValue? (c : EquityCurve) : Option Decimal := c.values.last?.map Prod.snd

def points (c : EquityCurve) : List (Date × Decimal) := c.values.days

def size (c : EquityCurve) : Nat := c.values.size

def record (c : EquityCurve) (d : Date) (value : Amount) : Except Error EquityCurve :=
  match c.values.later? d with
  | some last => .error (.outOfOrder "equity curve" d last)
  | none => do
      let value ← value.read
      pure ⟨c.values.put d value⟩

end EquityCurve
end Backtesting
