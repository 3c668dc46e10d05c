import Backtesting.Binary64.Basic
import Backtesting.Proofs.Decimal.Error

/-!
Which faults computing can end with. Among any decimals these are all that there are. Finite numbers
are left by no operation, as long as nothing is divided by zero, and among them nothing but an overflow
can happen: a NaN and an infinity are the only numbers that cannot be compared, made whole or added up.
What follows from a domain of numbers is proved once and holds for both.
-/
namespace Backtesting.Decimal

open Backtesting.Except (FailsOnly Gives)

/-- Numbers that computing does not leave, and the faults that it has among them. What is divided by
must not be at most zero. -/
structure Domain where
  Has : Decimal → Prop
  Faults : Fault → Prop
  ofInt : ∀ i, Has (ofInt i)
  ordered : ∀ {a b}, Has a → Has b → ∀ p, FailsOnly Faults (ordered a b p)
  isSame : ∀ {a b}, Has a → Has b → FailsOnly Faults (a.isSame b)
  add : ∀ {a b}, Has a → Has b → Gives Faults Has (a.add b)
  sub : ∀ {a b}, Has a → Has b → Gives Faults Has (a.sub b)
  neg : ∀ {a}, Has a → Gives Faults Has a.neg
  mul : ∀ {a b}, Has a → Has b → Gives Faults Has (a.mul b)
  div : ∀ {a b}, Has a → Has b → b.isAtMost 0 = .ok false → Gives Faults Has (a.div b)
  nearestInt : ∀ {a}, Has a → FailsOnly Faults a.nearestInt
  floorInt : ∀ {a}, Has a → FailsOnly Faults a.floorInt
  toFloat : ∀ {a}, Has a → FailsOnly Faults a.toFloat

theorem isFinite_iff {a : Decimal} : a.IsFinite ↔ ∃ n c e, a = finite n c e := by
  cases a <;> simp [IsFinite]

/-- Rounding gives a finite number or none at all. -/
theorem gives_round (n : Bool) (c : Nat) (e : Int) (i : Bool) :
    Gives (· = .overflow) IsFinite (round n c e i) := by
  refine ⟨fun f hf => overflow_of_round hf, fun x hx => ?_⟩
  obtain ⟨c', e', rfl, -⟩ := finite_of_round hx
  trivial

theorem gives_add (n n' : Bool) (c c' : Nat) (e e' : Int) :
    Gives (· = .overflow) IsFinite ((finite n c e).add (finite n' c' e')) := by
  show Gives _ _ (if e' ≤ e then addOrdered n c e n' c' e' else addOrdered n' c' e' n c e)
  unfold addOrdered
  split
  · exact gives_round _ _ _ _
  · exact gives_round _ _ _ _

/-- A quotient of finite numbers is finite where the divisor is no zero. -/
theorem gives_div (n n' : Bool) (c : Nat) {c' : Nat} (e e' : Int) (hc' : c' ≠ 0) :
    Gives (· = .overflow) IsFinite ((finite n c e).div (finite n' c' e')) := by
  rw [div_finite hc']
  unfold divFinite
  dsimp only
  split
  · exact gives_round _ _ _ _
  · split
    · exact gives_round _ _ _ _
    · exact gives_round _ _ _ _

/-- What counts something can be divided by. -/
theorem isAtMost_ofInt {i : Int} (h : 0 < i) : (ofInt i).isAtMost 0 = .ok false := by
  have hpos : i.natAbs ≠ 0 := by omega
  have hsign : decide (i < 0) = false := decide_eq_false (by omega)
  show (finite (decide (i < 0)) i.natAbs 0).isAtMost (finite false 0 0) = _
  simp [isAtMost, ordered, ordering?, hpos, hsign]

namespace Domain

/-- Any decimals, with all faults. -/
def all : Domain where
  Has _ := True
  Faults _ := True
  ofInt _ := trivial
  ordered _ _ _ := .any _
  isSame _ _ := .any _
  add _ _ := ⟨.any _, fun _ _ => trivial⟩
  sub _ _ := ⟨.any _, fun _ _ => trivial⟩
  neg _ := ⟨.any _, fun _ _ => trivial⟩
  mul _ _ := ⟨.any _, fun _ _ => trivial⟩
  div _ _ _ := ⟨.any _, fun _ _ => trivial⟩
  nearestInt _ := .any _
  floorInt _ := .any _
  toFloat _ := .any _

/-- Finite numbers, among which nothing but an overflow can happen. -/
def finite : Domain where
  Has := IsFinite
  Faults := (· = .overflow)
  ofInt _ := trivial
  ordered ha hb p := by
    obtain ⟨n, c, e, rfl⟩ := isFinite_iff.mp ha
    obtain ⟨n', c', e', rfl⟩ := isFinite_iff.mp hb
    exact .ok _
  isSame ha hb := by
    obtain ⟨n, c, e, rfl⟩ := isFinite_iff.mp ha
    obtain ⟨n', c', e', rfl⟩ := isFinite_iff.mp hb
    exact .ok _
  add ha hb := by
    obtain ⟨n, c, e, rfl⟩ := isFinite_iff.mp ha
    obtain ⟨n', c', e', rfl⟩ := isFinite_iff.mp hb
    exact gives_add n n' c c' e e'
  sub ha hb := by
    obtain ⟨n, c, e, rfl⟩ := isFinite_iff.mp ha
    obtain ⟨n', c', e', rfl⟩ := isFinite_iff.mp hb
    exact gives_add n (!n') c c' e e'
  neg ha := by
    obtain ⟨n, c, e, rfl⟩ := isFinite_iff.mp ha
    exact gives_round _ _ _ _
  mul ha hb := by
    obtain ⟨n, c, e, rfl⟩ := isFinite_iff.mp ha
    obtain ⟨n', c', e', rfl⟩ := isFinite_iff.mp hb
    exact gives_round _ _ _ _
  div ha hb hpos := by
    obtain ⟨n, c, e, rfl⟩ := isFinite_iff.mp ha
    obtain ⟨n', c', e', rfl⟩ := isFinite_iff.mp hb
    refine gives_div n n' c e e' fun hzero => ?_
    subst hzero
    exact Bool.noConfusion (Except.ok.inj hpos)
  nearestInt ha := by
    obtain ⟨n, c, e, rfl⟩ := isFinite_iff.mp ha
    exact .ok _
  floorInt ha := by
    obtain ⟨n, c, e, rfl⟩ := isFinite_iff.mp ha
    exact .ok _
  toFloat ha := by
    obtain ⟨n, c, e, rfl⟩ := isFinite_iff.mp ha
    exact .ok _

variable {D : Domain} {a : Decimal}

theorem isAtMost (ha : D.Has a) : FailsOnly D.Faults (a.isAtMost 0) := D.ordered ha (D.ofInt 0) _

theorem isLess (ha : D.Has a) : FailsOnly D.Faults (a.isLess 0) := D.ordered ha (D.ofInt 0) _

end Domain
end Backtesting.Decimal
