import Backtesting.Calendar.Date

/-!
Drawdowns of a curve: how far each value lies below the highest one before it. A day that sets no
new peak extends the time since the last one, which is counted in calendar days with both ends. The
numbers may be of any kind that has an order and a quotient.
-/
namespace Backtesting

/-- A day of a curve with what it lost since the peak and how long ago that was. -/
structure UnderWater (α : Type u) where
  day : Date
  loss : α
  age : Int

structure Peak (α : Type u) where
  value : α
  day : Option Date

namespace Peak

variable {α : Type u} [OfNat α 0] [OfNat α 1] [LT α] [DecidableLT α] [Sub α] [Div α]

/-- Before any value: only a positive one can be a peak. -/
def start : Peak α := ⟨0, none⟩

/-- Days since the peak, the first and the last one counted. -/
def age (p : Peak α) (d : Date) : Int :=
  match p.day with
  | some e => e.daysBetween d + 1
  | none => 0

def loss (p : Peak α) (x : α) : α := if 0 < p.value then x / p.value - 1 else 0

/-- The peak after a value and what the value means beside the peak before it. -/
def step (p : Peak α) (d : Date) (x : α) : Peak α × UnderWater α :=
  if p.value < x then (⟨x, some d⟩, ⟨d, 0, 0⟩) else (p, ⟨d, p.loss x, p.age d⟩)

def walk : Peak α → List (Date × α) → List (UnderWater α)
  | _, [] => []
  | p, (d, x) :: rest => (p.step d x).2 :: walk (p.step d x).1 rest

end Peak

structure Drawdown (α : Type u) where
  days : List (UnderWater α)

namespace Drawdown

variable {α : Type u} [OfNat α 0] [OfNat α 1] [LT α] [DecidableLT α] [Sub α] [Div α]

def ofCurve (curve : List (Date × α)) : Drawdown α := ⟨Peak.start.walk curve⟩

def byDate (w : Drawdown α) : List (Date × α) := w.days.map fun e => (e.day, e.loss)

/-- The greatest loss; losses are not positive. -/
def deepest (w : Drawdown α) : α :=
  w.days.foldl (fun worst e => if e.loss < worst then e.loss else worst) 0

def longest (w : Drawdown α) : Int := w.days.foldl (fun most e => max most e.age) 0

end Drawdown
end Backtesting
