import Backtesting.Power

/-!
Decimal numbers as prices and money are written. A finite number keeps its sign, its coefficient
and its exponent apart, so 1.0 and 1.00 are different decimals of one value and a zero has a sign.
The order compares values and knows no place for a NaN.
-/
namespace Backtesting

inductive Decimal
  | finite (negative : Bool) (coefficient : Nat) (exponent : Int)
  | infinity (negative : Bool)
  | nan (negative signaling : Bool) (payload : Nat)
deriving DecidableEq, Repr, Inhabited

namespace Decimal

/-- The ways in which reading, computing or converting can fail. -/
inductive Fault
  | badText
  | invalidOperation
  | divisionByZero
  | overflow
  | integerOfNaN
  | integerOfInfinity
  | floatOfSignalingNaN
deriving DecidableEq, Repr

def digitCountFrom : Nat → Nat → Nat
  | 0, _ => 1
  | fuel + 1, n => if n < 10 then 1 else digitCountFrom fuel (n / 10) + 1

/-- The number of decimal digits of `n`; zero has one. -/
def digitCount (n : Nat) : Nat := digitCountFrom (n.log2 + 1) n

def zero : Decimal := finite false 0 0

def ofInt (i : Int) : Decimal := finite (i < 0) i.natAbs 0

instance (n : Nat) : OfNat Decimal n := ⟨finite false n 0⟩

def IsFinite : Decimal → Prop
  | finite .. => True
  | _ => False

instance : DecidablePred IsFinite := fun x => by
  cases x <;> simp only [IsFinite] <;> infer_instance

/-- A zero of either sign and any exponent. -/
def isZero : Decimal → Bool
  | finite _ c _ => c == 0
  | _ => false

def alignedOrdering (c₁ : Nat) (e₁ : Int) (c₂ : Nat) (e₂ : Int) : Ordering :=
  if e₁ ≤ e₂ then compare c₁ (c₂ * tenTo (e₂ - e₁).toNat)
  else compare (c₁ * tenTo (e₁ - e₂).toNat) c₂

/-- Magnitudes are told apart by the place of the leading digit; only where that is the same are
the coefficients brought to one exponent. -/
def magnitudeOrdering (c₁ : Nat) (e₁ : Int) (c₂ : Nat) (e₂ : Int) : Ordering :=
  if c₁ = 0 then (if c₂ = 0 then .eq else .lt)
  else if c₂ = 0 then .gt
  else match compare (e₁ + digitCount c₁) (e₂ + digitCount c₂) with
    | .eq => alignedOrdering c₁ e₁ c₂ e₂
    | o => o

/-- The order of two numbers, `none` when one of them is a NaN. -/
def ordering? : Decimal → Decimal → Option Ordering
  | nan .., _ => none
  | _, nan .. => none
  | infinity n₁, infinity n₂ =>
      some (if n₁ = n₂ then .eq else if n₁ then .lt else .gt)
  | infinity n, finite .. => some (if n then .lt else .gt)
  | finite .., infinity n => some (if n then .gt else .lt)
  | finite n₁ c₁ e₁, finite n₂ c₂ e₂ =>
      some <|
        if c₁ = 0 ∧ c₂ = 0 then .eq
        else if c₁ = 0 then (if n₂ then .gt else .lt)
        else if c₂ = 0 then (if n₁ then .lt else .gt)
        else match n₁, n₂ with
          | false, true => .gt
          | true, false => .lt
          | false, false => magnitudeOrdering c₁ e₁ c₂ e₂
          | true, true => magnitudeOrdering c₂ e₂ c₁ e₁

def ordered (a b : Decimal) (p : Ordering → Bool) : Except Fault Bool :=
  match ordering? a b with
  | some o => .ok (p o)
  | none => .error .invalidOperation

def isLess (a b : Decimal) : Except Fault Bool := ordered a b (· == .lt)

def isAtMost (a b : Decimal) : Except Fault Bool := ordered a b (· != .gt)

def isAtLeast (a b : Decimal) : Except Fault Bool := ordered a b (· != .lt)

/-- A quiet NaN equals nothing; a signaling one refuses the question. -/
def isSame (a b : Decimal) : Except Fault Bool :=
  match a, b with
  | nan _ true _, _ => .error .invalidOperation
  | _, nan _ true _ => .error .invalidOperation
  | a, b => .ok (ordering? a b == some .eq)

end Decimal
end Backtesting
