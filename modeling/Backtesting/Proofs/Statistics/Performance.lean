import Backtesting.Proofs.Except
import Backtesting.Statistics.Performance

/-!
How many values the statistics need. Whatever takes a deviation of daily returns needs two of them,
so it needs three values; a comparison needs as many of both series. The growth over a year needs one
return, and that its power can be taken.
-/
namespace Backtesting

open Backtesting.Except (FailsOnly Fails)

/-- There are too few values. -/
def Error.IsShortage (e : Error) : Prop := e.label? = some "InsufficientDataError"

instance (e : Error) : Decidable e.IsShortage := inferInstanceAs (Decidable (e.label? = _))

/-- A power is refused where it leaves the range of the numbers, or divides by zero. -/
theorem Growth.failsOnly_power (base exponent : Float) :
    FailsOnly (fun e => e = .numberTooLarge ∨ exponent < 0 ∧ e = .floatDivisionByZero)
      (power base exponent) := by
  simp [power, zeroPower, complexPower, finitePower]

namespace Performance

variable {xs ys : List Float}

theorem requireSome_eq_ok (h : xs ≠ []) : requireSome xs = .ok () := by
  simp [requireSome, h]

theorem requireCount_eq_ok {n : Nat} (h : 2 ≤ n) : requireCount n = .ok () := by
  have hcount : ¬ n < 2 := by omega
  simp [requireCount, hcount]

theorem requireSample_eq_ok (h : 2 ≤ xs.length) : requireSample xs = .ok () := by
  have hne : xs ≠ [] := List.ne_nil_of_length_pos (by omega)
  simp [requireSample, requireSome_eq_ok hne, requireCount_eq_ok h]

theorem fails_requireSample (h : xs.length < 2) : Fails Error.IsShortage (requireSample xs) := by
  match xs, h with
  | [], _ => exact ⟨.emptySeries, rfl, rfl⟩
  | [x], _ => exact ⟨.tooFewObservations 1, rfl, rfl⟩

theorem requirePair_eq_ok (h : 2 ≤ xs.length) (hsame : xs.length = ys.length) :
    requirePair xs ys = .ok () := by
  have hne : xs ≠ [] := List.ne_nil_of_length_pos (by omega)
  have hne' : ys ≠ [] := List.ne_nil_of_length_pos (by omega)
  simp [requirePair, requireSome_eq_ok hne, requireSome_eq_ok hne', requireCount_eq_ok h, ← hsame,
    pure, Except.pure]

theorem fails_requirePair (h : xs.length < 2) (hsame : xs.length = ys.length) :
    Fails Error.IsShortage (requirePair xs ys) := by
  match xs, ys, h, hsame with
  | [], [], _, _ => exact ⟨.emptySeries, rfl, rfl⟩
  | [x], [y], _, _ => exact ⟨.tooFewObservations 1, rfl, rfl⟩

theorem length_changes (xs : List Float) : (Series.changes xs).length = xs.length - 1 := by
  induction xs with
  | nil => rfl
  | cons x xs ih =>
    cases xs with
    | nil => rfl
    | cons y xs => simp [Series.changes, ih]

theorem dailyReturns_eq_ok (h : 2 ≤ xs.length) (hzero : ∀ x ∈ xs, (x == 0) = false) :
    dailyReturns xs = .ok (Series.changes xs) := by
  have hnone : xs.dropLast.findIdx? (· == 0) = none := by
    rw [List.findIdx?_eq_none_iff]
    exact fun x hx => hzero x (List.dropLast_subset xs hx)
  simp [dailyReturns, requireSample_eq_ok h, hnone, pure, Except.pure]

theorem fails_dailyReturns (h : xs.length < 2) : Fails Error.IsShortage (dailyReturns xs) :=
  (fails_requireSample h).bind _

theorem drawdowns_eq_ok {points : List (Date × Float)} (h : 2 ≤ points.length) :
    drawdowns points = .ok (Drawdown.ofCurve points) := by
  simp [drawdowns, requireCount_eq_ok h, pure, Except.pure]

theorem failsOnly_annualizedReturn (hne : xs ≠ []) (days : Float) :
    FailsOnly (fun e => e = .numberTooLarge ∨
        days / Series.count xs < 0 ∧ e = .floatDivisionByZero) (annualizedReturn xs days) := by
  simp [annualizedReturn, requireSome_eq_ok hne, Growth.failsOnly_power]

/-- A yearly growth fails as its sample does, or where its power does. -/
theorem failsOnly_yearlyGrowth {E : Error → Prop} (hsample : FailsOnly E (requireSample xs))
    (hzero : E .floatDivisionByZero) (hyears : E .noYears) (hlarge : E .growthOverflow)
    (days : Float) : FailsOnly E (yearlyGrowth xs days) := by
  apply FailsOnly.bind hsample
  intro _ _
  apply FailsOnly.bind
  · simp [quotient, hzero]
  intro years _
  split
  · exact .error hyears
  apply FailsOnly.bind
  · rw [FailsOnly.mapError_iff]
    refine FailsOnly.imp (Growth.failsOnly_power (totalGrowth xs) (1 / years)) ?_
    intro e he
    rcases he with rfl | ⟨-, rfl⟩
    · exact hlarge
    · exact hzero
  · intro growth _
    exact .ok _

end Performance
end Backtesting
