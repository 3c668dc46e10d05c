import Backtesting.Proofs.Decimal.Extended
import Backtesting.Proofs.Decimal.Faithful
import Mathlib.Algebra.BigOperators.Group.List.Basic
import Mathlib.Algebra.Order.BigOperators.Group.List
import Mathlib.Tactic.GCongr

/-!
Sums of many numbers and even shares of them. A number that 28 digits are enough for is never
rounded, and one that is no larger than the largest result never overflows. Every other step is off
by half a unit at most, so the error of a sum grows with the number of its steps.
-/
namespace Backtesting.Decimal

open Backtesting.Except (Agree)

variable {a b x : Decimal} {v : ℚ}

/-- The largest number that an operation can give. -/
def largest : ℚ := 10 ^ (maxAdjusted + 1) - 10 ^ (maxAdjusted - 27)

theorem largest_lt : largest < 10 ^ (maxAdjusted + 1) := by
  have hpos : (0 : ℚ) < 10 ^ (maxAdjusted - 27) := by positivity
  unfold largest
  linarith

theorem largest_nonneg : 0 ≤ largest := by
  have hle : (10 : ℚ) ^ (maxAdjusted - 27) ≤ 10 ^ (maxAdjusted + 1) :=
    zpow_le_zpow_right₀ (by norm_num) (by omega)
  unfold largest
  linarith

section Round

variable {n i : Bool} {c : Nat} {e : Int} {w : ℚ}

theorem le_of_inRange_error {f : Fault} (hc : c ≠ 0) (h : inRange n c e = .error f) :
    (10 : ℚ) ^ (maxAdjusted + 1) ≤ c * 10 ^ e := by
  unfold inRange at h
  split at h
  · next hbeyond =>
    calc (10 : ℚ) ^ (maxAdjusted + 1) ≤ 10 ^ (e + digitCount c - 1) :=
          zpow_le_zpow_right₀ (by norm_num) (by omega)
      _ ≤ c * 10 ^ e := (begins_self c).leading_le hc e
  · simp at h

theorem le_of_keepDigits_error {f : Fault} {q : Nat} {place : Int}
    (h : keepDigits n q place = .error f) : (10 : ℚ) ^ (maxAdjusted + 1) ≤ q * 10 ^ place := by
  unfold keepDigits at h
  split at h
  · next hq =>
    have hten : (q : ℚ) = (q / 10 : Nat) * 10 := by
      rw [hq]
      exact_mod_cast (Nat.div_mul_cancel ⟨tenTo (precision - 1), by decide⟩).symm
    have hne : q / 10 ≠ 0 := by
      rw [hq]
      decide
    calc (10 : ℚ) ^ (maxAdjusted + 1) ≤ (q / 10 : Nat) * 10 ^ (place + 1) := le_of_inRange_error hne h
      _ = q * 10 ^ place := by
        rw [hten, zpow_add₀ (by norm_num)]
        ring
  · split at h
    · simp at h
    · next hq => exact le_of_inRange_error hq h

/-- Rounding a number that is no larger than the largest result gives a result. -/
theorem exists_round (hw : Begins c i w) (hlong : i = true → precision + 1 ≤ digitCount c)
    (hle : w * 10 ^ e ≤ largest) (n : Bool) : ∃ x, round n c e i = .ok x := by
  cases h : round n c e i with
  | ok x => exact ⟨x, rfl⟩
  | error f =>
    exfalso
    have hlt := largest_lt
    by_cases hc : c = 0
    · subst hc
      simp [round] at h
    have hleading := hw.leading_le hc e
    by_cases hkept : lowest c e ≤ e
    · rw [round_of_lowest_le hc hkept] at h
      have hbeyond := le_of_inRange_error hc h
      have hscale : (0 : ℚ) < 10 ^ e := by positivity
      have hw' : (c : ℚ) * 10 ^ e ≤ w * 10 ^ e := mul_le_mul_of_nonneg_right hw.le hscale.le
      linarith
    · rw [round_of_lt_lowest hc (by omega)] at h
      have hbeyond := le_of_keepDigits_error h
      have hclose := (abs_le.mp (abs_dropped_sub_le hw (e := e) (by omega))).2
      rcases le_or_gt (lowest c e) (maxAdjusted - 27) with hlow | hhigh
      · have hunit : (10 : ℚ) ^ lowest c e ≤ 10 ^ (maxAdjusted - 27) :=
          zpow_le_zpow_right₀ (by norm_num) hlow
        have hpos : (0 : ℚ) < 10 ^ (maxAdjusted - 27) := by positivity
        unfold largest at hle
        linarith
      · have hplace : maxAdjusted + 1 ≤ e + digitCount c - 1 := by
          unfold lowest maxAdjusted minExponent precision at *
          omega
        have hpower : (10 : ℚ) ^ (maxAdjusted + 1) ≤ 10 ^ (e + digitCount c - 1) :=
          zpow_le_zpow_right₀ (by norm_num) hplace
        linarith

end Round

/-- What is finite and a result fits. -/
theorem IsResult.fits (h : a.IsResult) (ha : a.IsFinite) : Fits a.value := by
  cases a with
  | infinity n => exact absurd ha id
  | nan n signaling p => exact absurd ha id
  | finite n c e =>
    by_cases hc : c = 0
    · subst hc
      exact ⟨0, 0, by simp [value, signed_zero], by decide, by decide⟩
    · obtain hzero | ⟨hcount, hmin, -⟩ := h
      · exact absurd hzero hc
      refine ⟨signed n c, e, rfl, ?_, hmin⟩
      have hsize : (signed n c).natAbs = c := by
        cases n <;> simp [signed]
      rw [hsize]
      calc c < tenTo (digitCount c) := lt_tenTo_digitCount c
        _ ≤ tenTo precision := Nat.pow_le_pow_right (by omega) hcount

theorem IsResult.abs_le_largest (h : a.IsResult) : |a.value| ≤ largest := by
  cases a with
  | infinity n => simpa [value] using largest_nonneg
  | nan n signaling p => simpa [value] using largest_nonneg
  | finite n c e =>
    by_cases hc : c = 0
    · subst hc
      simpa [value, signed_zero] using largest_nonneg
    · obtain hzero | ⟨hcount, -, hmax⟩ := h
      · exact absurd hzero hc
      have hdigits : (c : ℚ) + 1 ≤ 10 ^ (digitCount c : ℤ) := by
        rw [← cast_tenTo]
        exact_mod_cast lt_tenTo_digitCount c
      have hscale : (0 : ℚ) < 10 ^ e := by positivity
      have hsum : (c : ℚ) * 10 ^ e + 10 ^ e ≤ 10 ^ (digitCount c + e) := by
        rw [zpow_add₀ (by norm_num), ← add_one_mul]
        exact mul_le_mul_of_nonneg_right hdigits hscale.le
      have hc₀ : (0 : ℚ) ≤ c := by positivity
      rw [value, signed_eq_mul, mul_assoc, abs_signed_mul, abs_of_nonneg (by positivity)]
      -- with the greatest leading place it ends no earlier than the largest number does
      rcases eq_or_lt_of_le (show digitCount c + e ≤ maxAdjusted + 1 by omega) with hlast | hbefore
      · have hunit : (10 : ℚ) ^ (maxAdjusted - 27) ≤ 10 ^ e :=
          zpow_le_zpow_right₀ (by norm_num) (by unfold precision at hcount; omega)
        rw [hlast] at hsum
        unfold largest
        linarith
      · have hleading : (10 : ℚ) ^ (digitCount c + e) ≤ 10 ^ maxAdjusted :=
          zpow_le_zpow_right₀ (by norm_num) (by omega)
        have hunit : (10 : ℚ) ^ (maxAdjusted - 27) ≤ 10 ^ maxAdjusted :=
          zpow_le_zpow_right₀ (by norm_num) (by omega)
        have hten : (10 : ℚ) ^ (maxAdjusted + 1) = 10 ^ maxAdjusted * 10 :=
          zpow_add_one₀ (by norm_num) _
        have hpos : (0 : ℚ) < 10 ^ maxAdjusted := by positivity
        unfold largest
        linarith

/-- A quotient no larger than the largest result can be had. -/
theorem exists_div (ha : a.IsFinite) (hb : b.value ≠ 0) (h : |a.value / b.value| ≤ largest) :
    ∃ x, a.div b = .ok x := by
  cases a with
  | infinity n => exact absurd ha id
  | nan n signaling p => exact absurd ha id
  | finite n c e =>
    cases b with
    | infinity n' => exact absurd rfl hb
    | nan n' signaling p => exact absurd rfl hb
    | finite n' c' e' =>
      have hc' := coefficient_ne_zero hb
      rw [div_finite hc']
      split
      · exact ⟨_, rfl⟩
      · next hc =>
        obtain ⟨q, place, i, w, hround, hbegins, hlong, hworth⟩ :=
          divFinite_eq_round hc hc' (n != n') e e'
        rw [hround]
        apply exists_round hbegins hlong
        rw [hworth]
        rw [value_div_value, abs_signed_mul] at h
        exact (le_abs_self _).trans h

/-- Numbers that fit have a sum without digits below the smallest place. -/
theorem Fits.exists_add {w : ℚ} (hv : Fits v) (hw : Fits w) :
    ∃ s e : Int, s * 10 ^ e = v + w ∧ minExponent ≤ e := by
  obtain ⟨s, e, rfl, -, he⟩ := hv
  obtain ⟨s', e', rfl, -, he'⟩ := hw
  rcases Int.le_total e e' with hle | hle
  · obtain ⟨k, rfl⟩ : ∃ k : Nat, e' = e + k := ⟨(e' - e).toNat, by omega⟩
    refine ⟨s + s' * tenTo k, e, ?_, he⟩
    rw [← scale_eq]
    push_cast
    ring
  · obtain ⟨k, rfl⟩ : ∃ k : Nat, e = e' + k := ⟨(e - e').toNat, by omega⟩
    refine ⟨s * tenTo k + s', e', ?_, he'⟩
    rw [← scale_eq]
    push_cast
    ring

/-- Small numbers without digits below the smallest place fit. -/
theorem fits_of_small {s e : Int} (he : minExponent ≤ e)
    (h : |(s : ℚ) * 10 ^ e| < 10 ^ (-999999 : ℤ)) : Fits (s * 10 ^ e) := by
  refine ⟨s, e, rfl, ?_, he⟩
  have hscale : (0 : ℚ) < 10 ^ e := by positivity
  have hbound : (10 : ℚ) ^ (-999999 : ℤ) ≤ 10 ^ (28 : ℤ) * 10 ^ e := by
    rw [← zpow_add₀ (by norm_num)]
    exact zpow_le_zpow_right₀ (by norm_num) (by unfold minExponent at he; omega)
  rw [abs_mul, abs_of_pos hscale] at h
  have hs : |(s : ℚ)| < 10 ^ (28 : ℤ) := lt_of_mul_lt_mul_right (h.trans_le hbound) hscale.le
  have hnat : ((s.natAbs : Nat) : ℚ) < (tenTo precision : Nat) := by
    rw [cast_tenTo, Nat.cast_natAbs]
    exact_mod_cast hs
  exact_mod_cast hnat

/-- The sum of two results is off by half a unit at most; nothing is lost below the smallest place,
as neither of them has a digit there. -/
theorem abs_add_sub_le (ha : a.IsFinite) (hb : b.IsFinite) (hra : a.IsResult) (hrb : b.IsResult)
    (h : a.add b = .ok x) :
    |x.value - (a.value + b.value)| ≤ halfUnit * |a.value + b.value| := by
  obtain ⟨s, e, hs, he⟩ := (hra.fits ha).exists_add (hrb.fits hb)
  obtain ⟨y, hy, hsame, hworth⟩ := exists_round_add ha hb h hs
  obtain ⟨-, hnear⟩ := near_of_round (begins_self _) (fun hi => Bool.noConfusion hi) hy
  rw [hworth] at hnear
  rw [hsame]
  refine hnear.resolve_right fun hunder => hunder.1 ?_
  have hfits : Fits (a.value + b.value) := by
    rw [← hs]
    apply fits_of_small he
    rw [hs]
    exact hunder.2
  rw [← hsame]
  exact value_add_of_fits ha hb hfits h

/-- Only finite numbers have a finite sum. -/
theorem isFinite_of_add (h : a.add b = .ok x) (hx : x.IsFinite) : a.IsFinite ∧ b.IsFinite := by
  by_cases hnan : a.extended ≠ .undefined ∧ b.extended ≠ .undefined
  · cases a with
    | nan n signaling p => exact absurd rfl hnan.1
    | infinity n =>
      cases b with
      | nan n' signaling p => exact absurd rfl hnan.2
      | finite n' c' e' =>
        obtain rfl : infinity n = x := Except.ok.inj h
        exact absurd hx id
      | infinity n' =>
        have hboth : (if n = n' then .ok (infinity n) else .error .invalidOperation) =
          (Except.ok x : Except Fault Decimal) := h
        split at hboth
        · obtain rfl := Except.ok.inj hboth
          exact absurd hx id
        · exact nomatch hboth
    | finite n c e =>
      cases b with
      | nan n' signaling p => exact absurd rfl hnan.2
      | infinity n' =>
        obtain rfl : infinity n' = x := Except.ok.inj h
        exact absurd hx id
      | finite n' c' e' => exact ⟨trivial, trivial⟩
  · have hundefined := handsOn_add.extended_eq h hnan
    rw [extended_of_isFinite hx] at hundefined
    exact nomatch hundefined

variable {xs : List Decimal}

theorem isFinite_of_foldlM_add (h : xs.foldlM add a = .ok b) (hb : b.IsFinite) :
    a.IsFinite ∧ ∀ x ∈ xs, x.IsFinite := by
  induction xs generalizing a with
  | nil =>
    obtain rfl := Except.foldlM_nil_eq_ok.mp h
    exact ⟨hb, fun x hx => absurd hx List.not_mem_nil⟩
  | cons x l ih =>
    obtain ⟨c, hc, hrest⟩ := Except.foldlM_cons_eq_ok.mp h
    obtain ⟨hfinite, hl⟩ := ih hrest
    obtain ⟨ha, hx⟩ := isFinite_of_add hc hfinite
    exact ⟨ha, List.forall_mem_cons.mpr ⟨hx, hl⟩⟩

/-- Each step of a chain of sums adds its half unit to the error. -/
theorem abs_foldlM_add_sub_le (hxs : ∀ x ∈ xs, x.IsResult) (ha : a.IsResult)
    (h : xs.foldlM add a = .ok b) (hb : b.IsFinite) :
    |b.value - (a.value + (xs.map value).sum)| ≤
      ((1 + halfUnit) ^ xs.length - 1) * (|a.value| + (xs.map fun x => |x.value|).sum) := by
  induction xs generalizing a with
  | nil =>
    obtain rfl := Except.foldlM_nil_eq_ok.mp h
    simp
  | cons x l ih =>
    obtain ⟨c, hc, hrest⟩ := Except.foldlM_cons_eq_ok.mp h
    obtain ⟨hx, hl⟩ := List.forall_mem_cons.mp hxs
    obtain ⟨hfinite, -⟩ := isFinite_of_foldlM_add hrest hb
    obtain ⟨hfa, hfx⟩ := isFinite_of_add hc hfinite
    have hstep := abs_add_sub_le hfa hfx ha hx hc
    have hlater := ih hl (isResult_add hc) hrest
    rw [List.map_cons, List.sum_cons, List.map_cons, List.sum_cons, List.length_cons, pow_succ]
    have hsizes : 0 ≤ (l.map fun x => |x.value|).sum := by
      apply List.sum_nonneg
      intro q hq
      obtain ⟨y, -, rfl⟩ := List.mem_map.mp hq
      exact abs_nonneg _
    generalize (l.map value).sum = later at hlater ⊢
    generalize (l.map fun x => |x.value|).sum = sizes at hlater hsizes ⊢
    have hgrowth : 1 ≤ (1 + halfUnit) ^ l.length := one_le_pow₀ (by linarith [halfUnit_nonneg])
    generalize (1 + halfUnit) ^ l.length = growth at hlater hgrowth ⊢
    have hunit := halfUnit_nonneg
    have htriangle := abs_add_le a.value x.value
    have herror : |c.value - (a.value + x.value)| ≤ halfUnit * (|a.value| + |x.value|) :=
      hstep.trans (mul_le_mul_of_nonneg_left htriangle hunit)
    have hsize : |c.value| ≤ (1 + halfUnit) * (|a.value| + |x.value|) := by
      have hsplit := abs_add_le (c.value - (a.value + x.value)) (a.value + x.value)
      rw [sub_add_cancel] at hsplit
      linarith
    have hsummands : 0 ≤ |a.value| + |x.value| := by positivity
    have hsteps : 0 ≤ growth - 1 := by linarith
    have hmore : growth - 1 ≤ growth * (1 + halfUnit) - 1 := by nlinarith
    calc |b.value - (a.value + (x.value + later))|
        = |(b.value - (c.value + later)) + (c.value - (a.value + x.value))| := by
          congr 1
          ring
      _ ≤ |b.value - (c.value + later)| + |c.value - (a.value + x.value)| := abs_add_le _ _
      _ ≤ (growth - 1) * (|c.value| + sizes) + halfUnit * (|a.value| + |x.value|) :=
          add_le_add hlater herror
      _ ≤ (growth - 1) * ((1 + halfUnit) * (|a.value| + |x.value|) + sizes) +
            halfUnit * (|a.value| + |x.value|) := by gcongr
      _ = (growth * (1 + halfUnit) - 1) * (|a.value| + |x.value|) + (growth - 1) * sizes := by ring
      _ ≤ (growth * (1 + halfUnit) - 1) * (|a.value| + |x.value|) +
            (growth * (1 + halfUnit) - 1) * sizes := by gcongr
      _ = (growth * (1 + halfUnit) - 1) * (|a.value| + (|x.value| + sizes)) := by ring

/-- The sum of some results is off by half a unit for each of its steps; the first one adds to zero
and rounds nothing. -/
theorem abs_sum_sub_le (hxs : ∀ x ∈ xs, x.IsResult) (h : sum xs = .ok b) (hb : b.IsFinite) :
    |b.value - (xs.map value).sum| ≤
      ((1 + halfUnit) ^ (xs.length - 1) - 1) * (xs.map fun x => |x.value|).sum := by
  cases xs with
  | nil =>
    obtain rfl := Except.foldlM_nil_eq_ok.mp h
    simp [value_zero]
  | cons x l =>
    obtain ⟨c, hc, hrest⟩ := Except.foldlM_cons_eq_ok.mp h
    obtain ⟨hx, hl⟩ := List.forall_mem_cons.mp hxs
    obtain ⟨c', hc', hsame⟩ := zero_add_of_isResult hx
    obtain rfl := Except.ok.inj (hc.symm.trans hc')
    have hbound := abs_foldlM_add_sub_le hl (isResult_add hc) hrest hb
    rw [hsame.value_eq] at hbound
    exact hbound

theorem value_foldlM_add_of_fits (hfits : ∀ k, Fits (a.value + ((xs.take k).map value).sum))
    (h : xs.foldlM add a = .ok b) (hb : b.IsFinite) : b.value = a.value + (xs.map value).sum := by
  induction xs generalizing a with
  | nil =>
    obtain rfl := Except.foldlM_nil_eq_ok.mp h
    simp
  | cons x l ih =>
    obtain ⟨c, hc, hrest⟩ := Except.foldlM_cons_eq_ok.mp h
    obtain ⟨hfinite, -⟩ := isFinite_of_foldlM_add hrest hb
    obtain ⟨ha, hx⟩ := isFinite_of_add hc hfinite
    have hfirst : Fits (a.value + x.value) := by simpa using hfits 1
    have hvalue := value_add_of_fits ha hx hfirst hc
    have hlater : ∀ k, Fits (c.value + ((l.take k).map value).sum) := by
      intro k
      have hk := hfits (k + 1)
      rwa [List.take_succ_cons, List.map_cons, List.sum_cons, ← add_assoc, ← hvalue] at hk
    rw [ih hlater hrest, hvalue, List.map_cons, List.sum_cons, add_assoc]

/-- A sum is exact if 28 digits are enough for all partial sums. -/
theorem value_sum_of_fits (hfits : ∀ k, Fits ((xs.take k).map value).sum) (h : sum xs = .ok b)
    (hb : b.IsFinite) : b.value = (xs.map value).sum := by
  have hvalue := value_foldlM_add_of_fits (a := zero) (fun k => by simpa [value_zero] using hfits k) h hb
  simpa [value_zero] using hvalue

end Backtesting.Decimal
