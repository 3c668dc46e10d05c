import Backtesting.Proofs.Decimal.Extended

/-!
Finite decimals are ordered by what they are worth, however many zeros they are written with. Only a
NaN has no place in the order.
-/
namespace Backtesting.Decimal

variable {a b : Decimal} {o : Ordering}

theorem ordered_of_ordering (h : ordering? a b = some o) (p : Ordering → Bool) :
    ordered a b p = .ok (p o) := by
  rw [ordered, h]

theorem compares_mul_zpow {c c' : Nat} (h : o.Compares c c') (e : Int) :
    o.Compares ((c : ℚ) * 10 ^ e) (c' * 10 ^ e) := by
  have hmono : StrictMono fun c : Nat => (c : ℚ) * 10 ^ e := by
    intro c c' hlt
    have hscale : (0 : ℚ) < 10 ^ e := by positivity
    exact mul_lt_mul_of_pos_right (by exact_mod_cast hlt) hscale
  exact hmono.compares.mpr h

theorem compares_alignedOrdering (c c' : Nat) (e e' : Int) :
    (alignedOrdering c e c' e').Compares ((c : ℚ) * 10 ^ e) (c' * 10 ^ e') := by
  have hlowered : ∀ (c k : Nat) (e : Int),
      (c : ℚ) * 10 ^ (e + k) = (c * tenTo k : Nat) * 10 ^ e := by
    intro c k e
    rw [zpow_add₀ (by norm_num), ← cast_tenTo]
    push_cast
    ring
  unfold alignedOrdering
  split
  · obtain ⟨k, rfl⟩ : ∃ k : Nat, e' = e + k := ⟨(e' - e).toNat, by omega⟩
    have hplaces : (e + (k : Int) - e).toNat = k := by omega
    rw [hlowered, hplaces]
    exact compares_mul_zpow ((compare_iff _ _).mp rfl) e
  · obtain ⟨k, rfl⟩ : ∃ k : Nat, e = e' + k := ⟨(e - e').toNat, by omega⟩
    have hplaces : (e' + (k : Int) - e').toNat = k := by omega
    rw [hlowered, hplaces]
    exact compares_mul_zpow ((compare_iff _ _).mp rfl) e'

/-- A number whose leading digit stands before that of another one is greater. -/
theorem lt_of_leading_lt {c c' : Nat} {e e' : Int} (hc' : c' ≠ 0)
    (h : e + digitCount c < e' + digitCount c') : (c : ℚ) * 10 ^ e < c' * 10 ^ e' :=
  calc (c : ℚ) * 10 ^ e < 10 ^ (digitCount c + e) := (begins_self c).lt_tenTo e
    _ ≤ 10 ^ (e' + digitCount c' - 1) := zpow_le_zpow_right₀ (by norm_num) (by omega)
    _ ≤ c' * 10 ^ e' := (begins_self c').leading_le hc' e'

theorem compares_magnitudeOrdering {c c' : Nat} (hc : c ≠ 0) (hc' : c' ≠ 0) (e e' : Int) :
    (magnitudeOrdering c e c' e').Compares ((c : ℚ) * 10 ^ e) (c' * 10 ^ e') := by
  unfold magnitudeOrdering
  rw [if_neg hc, if_neg hc']
  cases h : compare (e + digitCount c) (e' + digitCount c') with
  | lt => exact lt_of_leading_lt hc' (compare_lt_iff_lt.mp h)
  | eq => exact compares_alignedOrdering c c' e e'
  | gt => exact lt_of_leading_lt hc (compare_gt_iff_gt.mp h)

theorem compares_neg {v w : ℚ} (h : o.Compares v w) : o.Compares (-w) (-v) := by
  cases o with
  | lt => exact neg_lt_neg h
  | eq => exact congrArg Neg.neg (Eq.symm h)
  | gt => exact neg_lt_neg h

/-- Finite numbers are compared by their worth. -/
theorem exists_ordering (ha : a.IsFinite) (hb : b.IsFinite) :
    ∃ o, ordering? a b = some o ∧ o.Compares a.value b.value := by
  cases a with
  | infinity n => exact absurd ha id
  | nan n signaling p => exact absurd ha id
  | finite n c e =>
    cases b with
    | infinity n' => exact absurd hb id
    | nan n' signaling p => exact absurd hb id
    | finite n' c' e' =>
      refine ⟨_, rfl, ?_⟩
      rw [value_eq_mul, value_eq_mul]
      have hsize : c ≠ 0 → (0 : ℚ) < c * 10 ^ e := fun hc => by positivity
      have hsize' : c' ≠ 0 → (0 : ℚ) < c' * 10 ^ e' := fun hc' => by positivity
      by_cases hc : c = 0
      · by_cases hc' : c' = 0
        · simp [hc, hc']
        · cases n' <;> simpa [hc, hc', signed] using hsize' hc'
      · by_cases hc' : c' = 0
        · cases n <;> simpa [hc, hc', signed] using hsize hc
        · have hplus : ∀ y : ℚ, signed false 1 * y = y := fun y => by simp [signed]
          have hminus : ∀ y : ℚ, signed true 1 * y = -y := fun y => by simp [signed]
          simp only [hc, hc', if_false, and_self]
          -- of two negative numbers the one of the smaller size is the greater
          cases n with
          | false =>
            cases n' with
            | false => simpa only [hplus] using compares_magnitudeOrdering hc hc' e e'
            | true =>
              simp only [hplus, hminus]
              exact (neg_lt_zero.mpr (hsize' hc')).trans (hsize hc)
          | true =>
            cases n' with
            | false =>
              simp only [hplus, hminus]
              exact (neg_lt_zero.mpr (hsize hc)).trans (hsize' hc')
            | true =>
              simpa only [hminus] using compares_neg (compares_magnitudeOrdering hc' hc e' e)

/-- Nothing but a NaN has no place beside zero. -/
theorem isAtMost_zero_eq_error {f : Fault} (h : a.isAtMost 0 = .error f) :
    f = .invalidOperation ∧ a.extended = .undefined := by
  cases a with
  | nan n signaling p => exact ⟨(Except.error.inj h).symm, rfl⟩
  | infinity n => exact nomatch h
  | finite n k e => exact nomatch h

theorem extended_of_isAtMost_zero {low : Bool} (h : a.isAtMost 0 = .ok low) :
    a.extended ≠ .undefined := by
  cases a with
  | nan n signaling p => exact nomatch h
  | infinity n => exact nofun
  | finite n k e => exact nofun

/-- What is not at most zero is above zero, if it is a number at all. -/
theorem pos_of_isAtMost_zero (h : a.isAtMost 0 = .ok false) (ha : a.IsFinite) : 0 < a.value := by
  obtain ⟨o, ho, hcompares⟩ := exists_ordering (b := zero) ha trivial
  rw [value_zero] at hcompares
  have hmore : (o != .gt) = false := Except.ok.inj ((ordered_of_ordering ho _).symm.trans h)
  exact hcompares.eq_gt.mp (by simpa using hmore)

/-- A finite number above zero, by its parts. -/
theorem eq_finite_of_pos (h : 0 < a.value) : ∃ k e, a = finite false k e ∧ k ≠ 0 := by
  cases a with
  | nan n signaling p => exact absurd h (lt_irrefl 0)
  | infinity n => exact absurd h (lt_irrefl 0)
  | finite n k e =>
    have hk : k ≠ 0 := coefficient_ne_zero h.ne'
    cases n with
    | false => exact ⟨k, e, rfl, hk⟩
    | true =>
      have hneg : (finite true k e).value ≤ 0 := by
        rw [value, signed, if_pos rfl]
        have hk' : (0 : ℚ) ≤ k * 10 ^ e := by positivity
        push_cast
        linarith
      exact absurd h hneg.not_gt

theorem isFinite_of_pos (h : 0 < a.value) : a.IsFinite := by
  obtain ⟨k, e, rfl, -⟩ := eq_finite_of_pos h
  trivial

end Backtesting.Decimal
