import Backtesting.Proofs.Decimal.Error
import Mathlib.Tactic.GCongr

/-!
Several roundings in a row. An exact factor or divisor between them changes the number and its error
alike, so the error stays a fixed part of the number, which grows by half a unit with every rounding.
-/
namespace Backtesting.Decimal

variable {a b x : Decimal} {j k : Nat} {v w y : ℚ}

/-- The part of a number that `k` roundings can add to it. -/
def drift (k : Nat) : ℚ := (1 + halfUnit) ^ k - 1

theorem drift_nonneg (k : Nat) : 0 ≤ drift k := by
  have hgrowth : 1 ≤ (1 + halfUnit) ^ k := one_le_pow₀ (by linarith [halfUnit_nonneg])
  unfold drift
  linarith

theorem drift_mono (h : j ≤ k) : drift j ≤ drift k := by
  have hgrowth : (1 + halfUnit) ^ j ≤ (1 + halfUnit) ^ k :=
    pow_le_pow_right₀ (by linarith [halfUnit_nonneg]) h
  unfold drift
  linarith

theorem drift_add (j k : Nat) : drift (j + k) = drift j * (1 + drift k) + drift k := by
  unfold drift
  ring

/-- `y` is `v` up to `k` roundings. -/
def WithinSteps (k : Nat) (y v : ℚ) : Prop := |y - v| ≤ drift k * |v|

namespace WithinSteps

theorem refl (k : Nat) (v : ℚ) : WithinSteps k v v := by
  unfold WithinSteps
  rw [sub_self, abs_zero]
  exact mul_nonneg (drift_nonneg k) (abs_nonneg v)

theorem mono (h : WithinSteps j y v) (hjk : j ≤ k) : WithinSteps k y v :=
  le_trans h (mul_le_mul_of_nonneg_right (drift_mono hjk) (abs_nonneg v))

theorem abs_le_mul (h : WithinSteps k y v) : |y| ≤ (1 + drift k) * |v| := by
  have hsplit := abs_add_le (y - v) v
  rw [sub_add_cancel] at hsplit
  unfold WithinSteps at h
  linarith

theorem trans (h : WithinSteps j w y) (h' : WithinSteps k y v) : WithinSteps (j + k) w v := by
  have hj := drift_nonneg j
  calc |w - v| = |(w - y) + (y - v)| := by
        congr 1
        ring
    _ ≤ |w - y| + |y - v| := abs_add_le _ _
    _ ≤ drift j * |y| + drift k * |v| := add_le_add h h'
    _ ≤ drift j * ((1 + drift k) * |v|) + drift k * |v| := by
        gcongr
        exact h'.abs_le_mul
    _ = drift (j + k) * |v| := by
        rw [drift_add]
        ring

theorem mul_right (h : WithinSteps k y v) (c : ℚ) : WithinSteps k (y * c) (v * c) := by
  unfold WithinSteps at h ⊢
  rw [← sub_mul, abs_mul, abs_mul, ← mul_assoc]
  exact mul_le_mul_of_nonneg_right h (abs_nonneg c)

theorem div_right (h : WithinSteps k y v) (c : ℚ) : WithinSteps k (y / c) (v / c) := by
  rw [div_eq_mul_inv, div_eq_mul_inv]
  exact h.mul_right c⁻¹

/-- Numbers that are within some roundings of a third one differ by at most so many parts of it. -/
theorem abs_sub_le (h : WithinSteps j w v) (h' : WithinSteps k y v) :
    |w - y| ≤ (drift j + drift k) * |v| := by
  calc |w - y| = |(w - v) - (y - v)| := by
        congr 1
        ring
    _ ≤ |w - v| + |y - v| := abs_sub _ _
    _ ≤ drift j * |v| + drift k * |v| := add_le_add h h'
    _ = (drift j + drift k) * |v| := by ring

/-- A number is not smaller than what roundings leave of another one. -/
theorem le_abs (h : WithinSteps k y v) : (1 - drift k) * |v| ≤ |y| := by
  have hsplit := abs_sub_abs_le_abs_sub v y
  rw [abs_sub_comm] at hsplit
  unfold WithinSteps at h
  linarith

theorem abs_sub_le_mul {ε : ℚ} (h : WithinSteps k y v) (hε : drift k ≤ ε) :
    |y - v| ≤ ε * |v| :=
  le_trans h (mul_le_mul_of_nonneg_right hε (abs_nonneg v))

/-- Two ways to round towards one number lead to numbers that differ by a part of either. -/
theorem abs_sub_le_mul_min {ε : ℚ} (h : WithinSteps j w v) (h' : WithinSteps k y v) (hjk : j ≤ k)
    (hε : 0 ≤ ε) (hsum : drift j + drift k ≤ ε * (1 - drift k)) : |w - y| ≤ ε * min |w| |y| := by
  have hleast : (1 - drift k) * |v| ≤ min |w| |y| := le_min (h.mono hjk).le_abs h'.le_abs
  calc |w - y| ≤ (drift j + drift k) * |v| := h.abs_sub_le h'
    _ ≤ ε * (1 - drift k) * |v| := mul_le_mul_of_nonneg_right hsum (abs_nonneg v)
    _ = ε * ((1 - drift k) * |v|) := mul_assoc _ _ _
    _ ≤ ε * min |w| |y| := mul_le_mul_of_nonneg_left hleast hε

end WithinSteps

/-- The result is not lost to its size: it does not overflow, and no digit of it underflows. -/
def InRange (r : Except Fault Decimal) (v : ℚ) : Prop :=
  r ≠ .error .overflow ∧ ∀ x, r = .ok x → ¬ x.Underflows v

theorem not_underflows (h : x.value = v ∨ 1 ≤ |v|) : ¬ x.Underflows v := by
  rintro ⟨hne, hsmall⟩
  have hone : (10 : ℚ) ^ (-999999 : ℤ) ≤ 1 := zpow_le_one_of_nonpos₀ (by norm_num) (by norm_num)
  rcases h with hsame | hlarge
  · exact hne hsame
  · linarith

theorem inRange_of_eq_ok {r : Except Fault Decimal} (hr : r = .ok x) (h : x.value = v ∨ 1 ≤ |v|) :
    InRange r v := by
  subst hr
  refine ⟨nofun, fun x' hx' => ?_⟩
  obtain rfl := Except.ok.inj hx'
  exact not_underflows h

theorem Near.withinSteps (h : Near x v) (hlarge : ¬ x.Underflows v) : WithinSteps 1 x.value v := by
  have hone : drift 1 = halfUnit := by
    unfold drift
    ring
  rw [WithinSteps, hone]
  exact h.2.resolve_right hlarge

theorem InRange.exists_mul (ha : a.IsFinite) (hb : b.IsFinite)
    (h : InRange (a.mul b) (a.value * b.value)) :
    ∃ x, a.mul b = .ok x ∧ x.IsFinite ∧ WithinSteps 1 x.value (a.value * b.value) := by
  cases hx : a.mul b with
  | error f => exact absurd (overflow_of_mul ha hb hx ▸ hx) h.1
  | ok x =>
    have hnear := near_mul ha hb hx
    exact ⟨x, rfl, hnear.1, hnear.withinSteps (h.2 x hx)⟩

theorem InRange.exists_div (ha : a.IsFinite) (hb : b.value ≠ 0)
    (h : InRange (a.div b) (a.value / b.value)) :
    ∃ x, a.div b = .ok x ∧ x.IsFinite ∧ WithinSteps 1 x.value (a.value / b.value) := by
  cases hx : a.div b with
  | error f => exact absurd (overflow_of_div ha hb hx ▸ hx) h.1
  | ok x =>
    have hnear := near_div ha hb hx
    exact ⟨x, rfl, hnear.1, hnear.withinSteps (h.2 x hx)⟩

end Backtesting.Decimal
