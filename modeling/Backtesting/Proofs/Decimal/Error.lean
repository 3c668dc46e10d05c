import Backtesting.Proofs.Decimal.Exact
import Mathlib.Algebra.Order.Field.Power
import Mathlib.Algebra.Order.Round
import Mathlib.Data.Nat.Cast.Field
import Mathlib.Data.Rat.Floor
import Mathlib.Tactic.FieldSimp
import Mathlib.Tactic.Linarith

/-!
How far a product, a quotient and a nearest whole number are from the exact ones. A result keeps 28
digits, so it is off by half a unit in the last of them, which is a fixed part of the exact number;
only below the smallest place that there is are digits lost whatever the number is worth.
-/
namespace Backtesting

/-- To the nearest whole number, a half away from zero. -/
def halfUp (v : ℚ) : Int := if v < 0 then -round (-v) else round v

theorem abs_halfUp_sub_le (v : ℚ) : |(halfUp v : ℚ) - v| ≤ 1 / 2 := by
  unfold halfUp
  split
  · have hround := abs_sub_round (-v)
    have hturned : ((-round (-v) : Int) : ℚ) - v = -v - round (-v) := by
      push_cast
      ring
    rwa [hturned]
  · rw [abs_sub_comm]
    exact abs_sub_round v

theorem round_natCast_div {c u : Nat} (hu : 0 < u) :
    round ((c : ℚ) / u) = ((2 * c + u) / (2 * u) : Nat) := by
  have hsum : (c : ℚ) / u + 1 / 2 = ((2 * c + u : Nat) : ℚ) / (2 * u : Nat) := by
    have hu' : (u : ℚ) ≠ 0 := by exact_mod_cast hu.ne'
    push_cast
    field_simp
  rw [round_eq, hsum, Rat.floor_natCast_div_natCast]
  rfl

theorem halfUp_signed (n : Bool) {v : ℚ} (hv : 0 ≤ v) {m : Nat} (hm : round v = m) :
    halfUp (Decimal.signed n 1 * v) = Decimal.signed n m := by
  cases n with
  | false => simp [halfUp, Decimal.signed, hv.not_gt, hm]
  | true =>
    rcases hv.eq_or_lt with rfl | hpos
    · obtain rfl : m = 0 := by simpa using hm.symm
      simp [halfUp, Decimal.signed]
    · simp [halfUp, Decimal.signed, hpos, hm]

namespace Decimal

variable {a b x : Decimal}

/-- Half a unit in the last of 28 digits, as a part of the number. -/
def halfUnit : ℚ := 10 ^ (-27 : ℤ) / 2

theorem halfUnit_nonneg : 0 ≤ halfUnit := by
  norm_num [halfUnit]

/-- `x` is not the exact result `v`, and `v` is too small for all its digits to be kept. -/
def Underflows (x : Decimal) (v : ℚ) : Prop := x.value ≠ v ∧ |v| < 10 ^ (-999999 : ℤ)

theorem signed_eq_mul (n : Bool) (c : Nat) : (signed n c : ℚ) = signed n 1 * c := by
  cases n <;> simp [signed]

theorem abs_signed_one (n : Bool) : |(signed n 1 : ℚ)| = 1 := by
  cases n <;> simp [signed]

theorem abs_signed_mul (n : Bool) (y : ℚ) : |(signed n 1 : ℚ) * y| = |y| := by
  rw [abs_mul, abs_signed_one, one_mul]

theorem signed_one_mul_signed_one (n n' : Bool) :
    (signed n 1 : ℚ) * signed n' 1 = signed (n != n') 1 := by
  cases n <;> cases n' <;> simp [signed]

theorem tenTo_le_of_digitCount {c : Nat} (hc : c ≠ 0) : tenTo (digitCount c - 1) ≤ c := by
  rw [digitCount_eq, Nat.add_sub_cancel]
  exact Nat.pow_log_le_self 10 hc

theorem cast_tenTo (k : Nat) : (tenTo k : ℚ) = 10 ^ (k : ℤ) := by
  rw [tenTo_eq, zpow_natCast]
  push_cast
  rfl

/-- A number `w` of which the whole part is `c`, or which is `c` unless digits follow. -/
structure Begins (c : Nat) (inexact : Bool) (w : ℚ) : Prop where
  le : (c : ℚ) ≤ w
  lt : w < c + 1
  exact : inexact = false → w = c
  more : inexact = true → (c : ℚ) < w

theorem begins_self (c : Nat) : Begins c false c :=
  ⟨le_rfl, by linarith, fun _ => rfl, fun h => Bool.noConfusion h⟩

theorem Begins.leading_le {c : Nat} {i : Bool} {w : ℚ} (hw : Begins c i w) (hc : c ≠ 0)
    (e : Int) : (10 : ℚ) ^ (e + digitCount c - 1) ≤ w * 10 ^ e := by
  have hdigits : (tenTo (digitCount c - 1) : ℚ) ≤ w :=
    le_trans (by exact_mod_cast tenTo_le_of_digitCount hc) hw.le
  have hcount := digitCount_pos c
  have hexponent : e + digitCount c - 1 = (digitCount c - 1 : Nat) + e := by omega
  rw [hexponent, zpow_add₀ (by norm_num), ← cast_tenTo]
  gcongr

theorem Begins.lt_tenTo {c : Nat} {i : Bool} {w : ℚ} (hw : Begins c i w) (e : Int) :
    w * 10 ^ e < 10 ^ (digitCount c + e) := by
  have hdigits : (c : ℚ) + 1 ≤ tenTo (digitCount c) := by
    exact_mod_cast lt_tenTo_digitCount c
  have hlt : w < tenTo (digitCount c) := hw.lt.trans_le hdigits
  rw [zpow_add₀ (by norm_num), ← cast_tenTo]
  gcongr

/-- Of a number that begins with zero nothing follows, as there would be too few digits before. -/
theorem Begins.eq_zero {i : Bool} {w : ℚ} (hw : Begins 0 i w)
    (hlong : i = true → precision + 1 ≤ digitCount 0) : w = 0 := by
  have hzero : w = (0 : Nat) := by
    apply hw.exact
    by_contra hi
    have hdigits := hlong (by simpa using hi)
    exact absurd hdigits (by decide)
  exact_mod_cast hzero

/-- Where no digit before is dropped none follows either. -/
theorem Begins.eq_of_lowest_le {c : Nat} {i : Bool} {e : Int} {w : ℚ} (hw : Begins c i w)
    (hlong : i = true → precision + 1 ≤ digitCount c) (h : lowest c e ≤ e) : w = c := by
  apply hw.exact
  by_contra hi
  have hdigits := hlong (by simpa using hi)
  have hplace : e + digitCount c - precision ≤ lowest c e := le_max_left _ _
  omega

theorem two_mul_succ_le_tenTo {c k : Nat} (h : digitCount c < k) : 2 * (c + 1) ≤ tenTo k := by
  have hc : c + 1 ≤ tenTo (digitCount c) := lt_tenTo_digitCount c
  calc 2 * (c + 1) ≤ tenTo (digitCount c + 1) := by
        rw [tenTo_succ]
        omega
    _ ≤ tenTo k := Nat.pow_le_pow_right (by omega) h

/-- Digits are dropped to the nearest. -/
theorem abs_dropDigits_sub_le {c k : Nat} {i : Bool} {w : ℚ} (hw : Begins c i w) (hk : 0 < k) :
    |(dropDigits c k i : ℚ) * tenTo k - w| ≤ tenTo k / 2 := by
  obtain ⟨j, rfl⟩ : ∃ j, k = j + 1 := ⟨k - 1, by omega⟩
  have hle := hw.le
  have hlt := hw.lt
  have hpos := tenTo_pos j
  have hunit : tenTo (j + 1) = tenTo j * 10 := tenTo_succ j
  unfold dropDigits
  split
  · next hshort =>
    have hsmall : 2 * ((c : ℚ) + 1) ≤ tenTo (j + 1) := by
      exact_mod_cast two_mul_succ_le_tenTo hshort
    have hc₀ : (0 : ℚ) ≤ c := by positivity
    rw [Nat.cast_zero, zero_mul, zero_sub, abs_neg, abs_of_nonneg (hc₀.trans hle)]
    linarith
  · dsimp only
    obtain ⟨u, hu⟩ : ∃ u, tenTo (j + 1) = 2 * u := ⟨tenTo j * 5, by omega⟩
    rw [hu]
    have hsplit := Nat.div_add_mod c (2 * u)
    have hmod : c % (2 * u) < 2 * u := Nat.mod_lt _ (by omega)
    generalize c / (2 * u) = q at hsplit
    generalize c % (2 * u) = r at hsplit hmod
    have hsplit' : 2 * (u : ℚ) * q + r = c := by exact_mod_cast hsplit
    have hmod' : (r : ℚ) + 1 ≤ 2 * u := by exact_mod_cast hmod
    simp only [Bool.or_eq_true, decide_eq_true_eq, Bool.and_eq_true, beq_iff_eq]
    split
    · next hup =>
      have hhalf : (u : ℚ) ≤ r := by
        have hr : u ≤ r := by omega
        exact_mod_cast hr
      rw [abs_le]
      push_cast
      constructor
      · linarith
      · linarith
    · next hdown =>
      rw [abs_le]
      push_cast
      by_cases hhalf : r = u
      · have hexact : w = c := by
          apply hw.exact
          by_contra hi
          exact hdown (Or.inr ⟨by omega, Or.inl (by simpa using hi)⟩)
        have hhalf' : (r : ℚ) = u := by exact_mod_cast hhalf
        constructor
        · linarith
        · linarith
      · have hless : (r : ℚ) + 1 ≤ u := by
          have hr : r + 1 ≤ u := by omega
          exact_mod_cast hr
        have hr₀ : (0 : ℚ) ≤ r := by positivity
        constructor
        · linarith
        · linarith

theorem inRange_eq_ok {n : Bool} {c : Nat} {e : Int} (h : inRange n c e = .ok x) :
    x = finite n c e := by
  unfold inRange at h
  split at h
  · simp at h
  · exact (Except.ok.inj h).symm

theorem keepDigits_eq_ok {n : Bool} {q : Nat} {place : Int} (h : keepDigits n q place = .ok x) :
    ∃ c e, x = finite n c e ∧ (c : ℚ) * 10 ^ e = q * 10 ^ place := by
  unfold keepDigits at h
  split at h
  · next hq =>
    refine ⟨q / 10, place + 1, inRange_eq_ok h, ?_⟩
    have hten : (q : ℚ) = (q / 10 : Nat) * 10 := by
      rw [hq]
      exact_mod_cast (Nat.div_mul_cancel ⟨tenTo (precision - 1), by decide⟩).symm
    rw [hten, zpow_add₀ (by norm_num)]
    ring
  · split at h
    · next hq => exact ⟨0, place, (Except.ok.inj h).symm, by rw [hq]⟩
    · exact ⟨q, place, inRange_eq_ok h, rfl⟩

/-- Digits are dropped from behind the last one that is kept, to the nearest. -/
theorem abs_dropped_sub_le {i : Bool} {c : Nat} {e : Int} {w : ℚ} (hw : Begins c i w)
    (h : e < lowest c e) :
    |(dropDigits c (lowest c e - e).toNat i : ℚ) * 10 ^ lowest c e - w * 10 ^ e| ≤
      10 ^ lowest c e / 2 := by
  obtain ⟨k, hk⟩ : ∃ k : Nat, lowest c e = e + (k + 1 : Nat) :=
    ⟨(lowest c e - e).toNat - 1, by omega⟩
  have hplaces : (lowest c e - e).toNat = k + 1 := by omega
  have hscale : (0 : ℚ) < 10 ^ e := by positivity
  have hunit : (10 : ℚ) ^ lowest c e = tenTo (k + 1) * 10 ^ e := by
    rw [hk, zpow_add₀ (by norm_num), cast_tenTo, mul_comm]
  have hdropped := abs_dropDigits_sub_le hw (k := k + 1) (by omega)
  rw [hplaces, hunit, ← mul_assoc, ← sub_mul, abs_mul, abs_of_pos hscale]
  calc _ ≤ (tenTo (k + 1) : ℚ) / 2 * 10 ^ e := by gcongr
    _ = _ := by ring

/-- A rounded number has the sign and, up to half a unit, the size that it is to have. Where digits
follow there are more than 28 of them before. -/
theorem round_error {n i : Bool} {c : Nat} {e : Int} {w : ℚ} (hc : c ≠ 0) (hw : Begins c i w)
    (hlong : i = true → precision + 1 ≤ digitCount c) (h : round n c e i = .ok x) :
    ∃ c' e', x = finite n c' e' ∧
      (|(c' : ℚ) * 10 ^ e' - w * 10 ^ e| ≤ halfUnit * (w * 10 ^ e) ∨
        w * 10 ^ e < 10 ^ (-999999 : ℤ)) := by
  have hscale : (0 : ℚ) < 10 ^ e := by positivity
  have hc₀ : (0 : ℚ) ≤ c := by positivity
  have hw₀ : 0 ≤ w := hc₀.trans hw.le
  by_cases hfits : lowest c e ≤ e
  · rw [round_of_lowest_le hc hfits] at h
    refine ⟨c, e, inRange_eq_ok h, Or.inl ?_⟩
    rw [hw.eq_of_lowest_le hlong hfits, sub_self, abs_zero]
    exact mul_nonneg halfUnit_nonneg (mul_nonneg hc₀ hscale.le)
  rw [round_of_lt_lowest hc (by omega)] at h
  obtain ⟨c', e', rfl, hkept⟩ := keepDigits_eq_ok h
  refine ⟨c', e', rfl, ?_⟩
  have herror : |(c' : ℚ) * 10 ^ e' - w * 10 ^ e| ≤ 10 ^ lowest c e / 2 := by
    rw [hkept]
    exact abs_dropped_sub_le hw (by omega)
  -- either 28 digits are kept, or the digits end at the smallest place there is
  rcases le_or_gt minExponent (e + digitCount c - precision) with hnormal | hsmall
  · left
    have hlowest : lowest c e = e + digitCount c - precision := max_eq_left hnormal
    calc _ ≤ (10 : ℚ) ^ lowest c e / 2 := herror
      _ = halfUnit * 10 ^ (e + digitCount c - 1) := by
          have hexponent : lowest c e = -27 + (e + digitCount c - 1) := by
            rw [hlowest]
            unfold precision
            omega
          rw [hexponent, zpow_add₀ (by norm_num), halfUnit]
          ring
      _ ≤ halfUnit * (w * 10 ^ e) := mul_le_mul_of_nonneg_left (hw.leading_le hc e) halfUnit_nonneg
  · right
    calc w * 10 ^ e < 10 ^ (digitCount c + e) := hw.lt_tenTo e
      _ ≤ 10 ^ (-999999 : ℤ) := by
          apply zpow_le_zpow_right₀ (by norm_num)
          unfold minExponent precision at *
          omega

/-- A result is the exact number up to half a unit, or it underflows. -/
def Near (x : Decimal) (v : ℚ) : Prop :=
  x.IsFinite ∧ (|x.value - v| ≤ halfUnit * |v| ∨ Underflows x v)

theorem near_of_value_eq {v : ℚ} (hx : x.IsFinite) (h : x.value = v) : Near x v := by
  refine ⟨hx, Or.inl ?_⟩
  rw [h, sub_self, abs_zero]
  exact mul_nonneg halfUnit_nonneg (abs_nonneg v)

theorem near_of_round {n i : Bool} {c : Nat} {e : Int} {w : ℚ} (hw : Begins c i w)
    (hlong : i = true → precision + 1 ≤ digitCount c) (h : round n c e i = .ok x) :
    Near x (signed n 1 * (w * 10 ^ e)) := by
  by_cases hc : c = 0
  · subst hc
    obtain rfl := Except.ok.inj h
    refine near_of_value_eq ?_ ?_
    · trivial
    · rw [hw.eq_zero hlong, value, signed_zero]
      simp
  obtain ⟨c', e', rfl, herror⟩ := round_error hc hw hlong h
  have hw₀ : 0 ≤ w * 10 ^ e := mul_nonneg ((Nat.cast_nonneg c).trans hw.le) (by positivity)
  have hvalue : (finite n c' e').value = signed n 1 * ((c' : ℚ) * 10 ^ e') := by
    rw [value, signed_eq_mul, mul_assoc]
  by_cases hsame : (finite n c' e').value = signed n 1 * (w * 10 ^ e)
  · exact near_of_value_eq trivial hsame
  refine ⟨trivial, herror.imp (fun hle => ?_) fun hlt => ⟨hsame, ?_⟩⟩
  · rwa [hvalue, ← mul_sub, abs_signed_mul, abs_signed_mul, abs_of_nonneg hw₀]
  · rwa [abs_signed_mul, abs_of_nonneg hw₀]

theorem overflow_of_round {n i : Bool} {c : Nat} {e : Int} {f : Fault}
    (h : round n c e i = .error f) : f = .overflow := by
  have hrange : ∀ {n c e}, inRange n c e = .error f → f = .overflow := by
    intro n c e h
    unfold inRange at h
    split at h
    · exact (Except.error.inj h).symm
    · simp at h
  unfold round at h
  split at h
  · simp at h
  · dsimp only at h
    split at h
    · exact hrange h
    · split at h
      · exact hrange h
      · split at h
        · simp at h
        · exact hrange h

theorem finite_of_round {n i : Bool} {k : Nat} {e : Int} (h : round n k e i = .ok x) :
    ∃ k' e', x = finite n k' e' ∧ (k = 0 → k' = 0) := by
  by_cases hk : k = 0
  · subst hk
    exact ⟨0, _, (Except.ok.inj h).symm, fun _ => rfl⟩
  by_cases hfits : lowest k e ≤ e
  · rw [round_of_lowest_le hk hfits] at h
    exact ⟨k, e, inRange_eq_ok h, fun hzero => absurd hzero hk⟩
  · rw [round_of_lt_lowest hk (by omega)] at h
    obtain ⟨k', e', rfl, -⟩ := keepDigits_eq_ok h
    exact ⟨k', e', rfl, fun hzero => absurd hzero hk⟩

theorem value_mul_value (n n' : Bool) (c c' : Nat) (e e' : Int) :
    (finite n c e).value * (finite n' c' e').value =
      signed (n != n') 1 * (((c * c' : Nat) : ℚ) * 10 ^ (e + e')) := by
  rw [value, value, signed_eq_mul n, signed_eq_mul n', ← signed_one_mul_signed_one,
    zpow_add₀ (by norm_num)]
  push_cast
  ring

theorem near_mul (ha : a.IsFinite) (hb : b.IsFinite) (h : a.mul b = .ok x) :
    Near x (a.value * b.value) := by
  cases a with
  | infinity n => exact absurd ha id
  | nan n signaling p => exact absurd ha id
  | finite n c e =>
    cases b with
    | infinity n' => exact absurd hb id
    | nan n' signaling p => exact absurd hb id
    | finite n' c' e' =>
      rw [value_mul_value]
      exact near_of_round (begins_self _) (fun hi => Bool.noConfusion hi) h

theorem overflow_of_mul {f : Fault} (ha : a.IsFinite) (hb : b.IsFinite)
    (h : a.mul b = .error f) : f = .overflow := by
  cases a with
  | infinity n => exact absurd ha id
  | nan n signaling p => exact absurd ha id
  | finite n c e =>
    cases b with
    | infinity n' => exact absurd hb id
    | nan n' signaling p => exact absurd hb id
    | finite n' c' e' => exact overflow_of_round h

/-- Trailing zeros go from the coefficient into the exponent. -/
theorem value_stripZeros (fuel c : Nat) (e ideal : Int) :
    ((stripZeros fuel c e ideal).1 : ℚ) * 10 ^ (stripZeros fuel c e ideal).2 = c * 10 ^ e := by
  induction fuel generalizing c e with
  | zero => rfl
  | succ fuel ih =>
    unfold stripZeros
    split
    · next hzero =>
      have hten : (c : ℚ) = (c / 10 : Nat) * 10 := by
        exact_mod_cast (Nat.div_mul_cancel (Nat.dvd_of_mod_eq_zero hzero.2)).symm
      rw [ih, hten, zpow_add₀ (by norm_num)]
      ring
    · rfl

/-- A whole quotient with a remainder goes on behind its last digit. -/
theorem begins_div {num den : Nat} (hden : 0 < den) (h : num % den ≠ 0) :
    Begins (num / den) true ((num : ℚ) / den) := by
  have hden' : (0 : ℚ) < den := by exact_mod_cast hden
  have hsplit := Nat.div_add_mod num den
  have hmod : num % den < den := Nat.mod_lt _ hden
  have hmore : ((num / den : Nat) : ℚ) < num / den := by
    rw [lt_div_iff₀ hden']
    have hlt : num / den * den < num := by
      rw [Nat.mul_comm]
      omega
    exact_mod_cast hlt
  refine ⟨hmore.le, ?_, fun hi => Bool.noConfusion hi, fun _ => hmore⟩
  rw [div_lt_iff₀ hden']
  have hlt : num < (num / den + 1) * den := by
    rw [Nat.add_mul, Nat.mul_comm (num / den)]
    omega
  exact_mod_cast hlt

/-- A quotient of shifted coefficients has more than 28 digits before its last place. -/
theorem digitCount_quotient {c c' j k : Nat} (hc : c ≠ 0)
    (h : precision + digitCount c' + k + 1 = digitCount c + j) (hc' : c' ≠ 0) :
    precision + 1 ≤ digitCount (c * tenTo j / (c' * tenTo k)) := by
  have hcount := digitCount_pos c
  have hden : 0 < c' * tenTo k := Nat.mul_pos (Nat.pos_of_ne_zero hc') (tenTo_pos k)
  apply lt_digitCount
  rw [Nat.le_div_iff_mul_le hden]
  calc tenTo precision * (c' * tenTo k)
      ≤ tenTo precision * (tenTo (digitCount c') * tenTo k) := by
        gcongr
        exact (lt_tenTo_digitCount c').le
    _ = tenTo (digitCount c - 1) * tenTo j := by
        rw [← tenTo_add, ← tenTo_add, ← tenTo_add]
        congr 1
        omega
    _ ≤ c * tenTo j := Nat.mul_le_mul_right _ (tenTo_le_of_digitCount hc)

/-- A quotient of finite numbers is rounded from enough of its digits. -/
theorem divFinite_eq_round {c c' : Nat} (hc : c ≠ 0) (hc' : c' ≠ 0) (n : Bool) (e e' : Int) :
    ∃ q place i w, divFinite n c e c' e' = round n q place i ∧ Begins q i w ∧
      (i = true → precision + 1 ≤ digitCount q) ∧
      w * 10 ^ place = (c : ℚ) / c' * 10 ^ (e - e') := by
  obtain ⟨shift, hshift⟩ :
      ∃ s, s = (digitCount c' : Int) - digitCount c + precision + 1 := ⟨_, rfl⟩
  obtain ⟨j, hj⟩ : ∃ j, j = shift.toNat := ⟨_, rfl⟩
  obtain ⟨k, hk⟩ : ∃ k, k = (-shift).toNat := ⟨_, rfl⟩
  have hden : 0 < c' * tenTo k := Nat.mul_pos (Nat.pos_of_ne_zero hc') (tenTo_pos k)
  have hworth : (c : ℚ) / c' * 10 ^ (e - e') =
      ((c * tenTo j : Nat) : ℚ) / (c' * tenTo k : Nat) * 10 ^ (e - e' - shift) := by
    have hplaces : e - e' - shift = (e - e') + k - j := by omega
    have hpower : (10 : ℚ) ^ (e - e' + k - j) = 10 ^ (e - e') * tenTo k / tenTo j := by
      rw [zpow_sub₀ (by norm_num), zpow_add₀ (by norm_num), cast_tenTo, cast_tenTo]
    have hne : (c' : ℚ) ≠ 0 := by exact_mod_cast hc'
    have hj' : (tenTo j : ℚ) ≠ 0 := by exact_mod_cast (tenTo_pos j).ne'
    have hk' : (tenTo k : ℚ) ≠ 0 := by exact_mod_cast (tenTo_pos k).ne'
    rw [hplaces, hpower]
    push_cast
    field_simp
  have hdigits := digitCount_quotient (j := j) (k := k) hc (by omega) hc'
  rw [hworth]
  unfold divFinite
  simp only [← hshift, ← hj, ← hk]
  split
  · next hexact =>
    have hquotient : ((c * tenTo j : Nat) : ℚ) / (c' * tenTo k : Nat) =
        (c * tenTo j / (c' * tenTo k) : Nat) := by
      rw [Nat.cast_div (Nat.dvd_of_mod_eq_zero hexact) (by exact_mod_cast hden.ne')]
    rw [hquotient, ← value_stripZeros]
    exact ⟨_, _, _, _, rfl, begins_self _, fun hi => Bool.noConfusion hi, rfl⟩
  · next hinexact => exact ⟨_, _, _, _, rfl, begins_div hden hinexact, fun _ => hdigits, rfl⟩

theorem near_divFinite {n : Bool} {c c' : Nat} {e e' : Int} (hc : c ≠ 0) (hc' : c' ≠ 0)
    (h : divFinite n c e c' e' = .ok x) :
    Near x (signed n 1 * ((c : ℚ) / c' * 10 ^ (e - e'))) := by
  obtain ⟨q, place, i, w, hround, hbegins, hlong, hworth⟩ := divFinite_eq_round hc hc' n e e'
  rw [← hworth]
  exact near_of_round hbegins hlong (hround.symm.trans h)

theorem value_div_value (n n' : Bool) (c c' : Nat) (e e' : Int) :
    (finite n c e).value / (finite n' c' e').value =
      signed (n != n') 1 * ((c : ℚ) / c' * 10 ^ (e - e')) := by
  have hsign : (signed n' 1 : ℚ)⁻¹ = signed n' 1 := by
    cases n' <;> simp [signed]
  rw [value, value, signed_eq_mul n, signed_eq_mul n', ← signed_one_mul_signed_one,
    zpow_sub₀ (by norm_num)]
  rw [div_eq_mul_inv, mul_inv, mul_inv, hsign]
  ring

/-- Only a coefficient that is not zero makes a number that is not worth zero. -/
theorem coefficient_ne_zero {n : Bool} {c : Nat} {e : Int} (h : (finite n c e).value ≠ 0) :
    c ≠ 0 := by
  rintro rfl
  exact h (by simp [value, signed_zero])

theorem div_finite {n n' : Bool} {c c' : Nat} {e e' : Int} (hc' : c' ≠ 0) :
    (finite n c e).div (finite n' c' e') =
      if c = 0 then round (n != n') 0 (e - e') false else divFinite (n != n') c e c' e' := by
  show (if c' = 0 then _ else _) = _
  rw [if_neg hc']

theorem near_div (ha : a.IsFinite) (hb : b.value ≠ 0) (h : a.div b = .ok x) :
    Near x (a.value / b.value) := by
  cases a with
  | infinity n => exact absurd ha id
  | nan n signaling p => exact absurd ha id
  | finite n c e =>
    cases b with
    | infinity n' => exact absurd rfl hb
    | nan n' signaling p => exact absurd rfl hb
    | finite n' c' e' =>
      have hc' := coefficient_ne_zero hb
      rw [div_finite hc'] at h
      rw [value_div_value]
      split at h
      · next hc =>
        have hzero := near_of_round (begins_self 0) (fun hi => Bool.noConfusion hi) h
        rw [hc]
        simpa using hzero
      · next hc => exact near_divFinite hc hc' h

theorem overflow_of_div {f : Fault} (ha : a.IsFinite) (hb : b.value ≠ 0)
    (h : a.div b = .error f) : f = .overflow := by
  cases a with
  | infinity n => exact absurd ha id
  | nan n signaling p => exact absurd ha id
  | finite n c e =>
    cases b with
    | infinity n' => exact absurd rfl hb
    | nan n' signaling p => exact absurd rfl hb
    | finite n' c' e' =>
      rw [div_finite (coefficient_ne_zero hb)] at h
      split at h
      · exact overflow_of_round h
      · next hc =>
        obtain ⟨q, place, i, w, hround, -⟩ :=
          divFinite_eq_round hc (coefficient_ne_zero hb) (n != n') e e'
        exact overflow_of_round (hround.symm.trans h)

theorem cast_lowered (c k : Nat) : (lowered c k 0 : ℚ) = c * 10 ^ (k : ℤ) := by
  unfold lowered
  split
  · next hc => simp [hc]
  · rw [← cast_tenTo]
    simp

theorem nearestInt_of_isFinite (hx : x.IsFinite) : x.nearestInt = .ok (halfUp x.value) := by
  cases x with
  | infinity n => exact absurd hx id
  | nan n signaling p => exact absurd hx id
  | finite n c e =>
    refine congrArg Except.ok ?_
    have hsize : (0 : ℚ) ≤ c * 10 ^ e := by positivity
    rw [value, signed_eq_mul, mul_assoc]
    refine (halfUp_signed n hsize ?_).symm
    by_cases hwhole : 0 ≤ e
    · obtain ⟨k, rfl⟩ := Int.eq_ofNat_of_zero_le hwhole
      rw [if_pos hwhole, ← cast_lowered, round_natCast]
    · obtain ⟨k, rfl⟩ : ∃ k : Nat, e = -k := ⟨(-e).toNat, by omega⟩
      have hplaces : (-(-(k : Int))).toNat = k := by omega
      rw [if_neg hwhole, hplaces, zpow_neg, ← cast_tenTo, ← div_eq_mul_inv,
        round_natCast_div (tenTo_pos k)]
      split
      · next hshort =>
        have hsmall := two_mul_succ_le_tenTo hshort
        rw [Nat.div_eq_of_lt (by omega)]
      · rfl

/-- The nearest whole number is no more than a half away. -/
theorem nearestInt_eq (hx : x.IsFinite) : ∃ m : Int, x.nearestInt = .ok m ∧
    |(m : ℚ) - x.value| ≤ 1 / 2 :=
  ⟨halfUp x.value, nearestInt_of_isFinite hx, abs_halfUp_sub_le x.value⟩

theorem nearestInt_of_value {i : Int} (hx : x.IsFinite) (h : x.value = i) :
    x.nearestInt = .ok i := by
  obtain ⟨m, hm, herror⟩ := nearestInt_eq hx
  rw [h] at herror
  have hless : |((m - i : Int) : ℚ)| < 1 := by
    push_cast
    linarith
  have hsame : |m - i| < 1 := by exact_mod_cast hless
  have hzero := Int.abs_lt_one_iff.mp hsame
  obtain rfl : m = i := by omega
  exact hm

/-- A rounded whole number is a whole number: its digits end before the point or none is dropped. -/
theorem value_roundSigned_int {i : Int} (h : roundSigned i 0 = .ok x) :
    x.IsFinite ∧ ∃ j : Int, x.value = j := by
  unfold roundSigned at h
  by_cases hi : i.natAbs = 0
  · rw [hi] at h
    obtain rfl := Except.ok.inj h
    exact ⟨trivial, 0, by simp [value, signed_zero]⟩
  by_cases hfits : lowest i.natAbs 0 ≤ 0
  · rw [round_of_lowest_le hi hfits] at h
    obtain rfl := inRange_eq_ok h
    refine ⟨trivial, signed (i < 0) i.natAbs, ?_⟩
    rw [value, zpow_zero, mul_one]
  · rw [round_of_lt_lowest hi (by omega)] at h
    obtain ⟨k, hk⟩ : ∃ k : Nat, lowest i.natAbs 0 = k := ⟨(lowest i.natAbs 0).toNat, by omega⟩
    rw [hk] at h
    generalize dropDigits i.natAbs _ false = q at h
    obtain ⟨c, e, rfl, hvalue⟩ := keepDigits_eq_ok h
    refine ⟨trivial, signed (i < 0) (q * tenTo k), ?_⟩
    rw [value, signed_eq_mul, mul_assoc, hvalue, signed_eq_mul _ (q * tenTo k), zpow_natCast,
      tenTo_eq]
    push_cast
    rfl

/-- A product that is a whole number is rounded to a whole number. -/
theorem mul_of_int (ha : a.IsFinite) (hb : b.IsFinite) {i : Int} (hi : a.value * b.value = i)
    (h : a.mul b = .ok x) : ∃ j : Int, x.value = j := by
  cases a with
  | infinity n => exact absurd ha id
  | nan n signaling p => exact absurd ha id
  | finite n c e =>
    cases b with
    | infinity n' => exact absurd hb id
    | nan n' signaling p => exact absurd hb id
    | finite n' c' e' =>
      by_cases hc : c * c' = 0
      · have hzero : round (n != n') (c * c') (e + e') false = .ok x := h
        rw [hc] at hzero
        obtain rfl := Except.ok.inj hzero
        exact ⟨0, by simp [value, signed_zero]⟩
      have hround : roundSigned (signed (n != n') (c * c')) (e + e') = .ok x := by
        rw [roundSigned_signed (Nat.pos_of_ne_zero hc)]
        exact h
      have hworth : (signed (n != n') (c * c') : ℚ) * 10 ^ (e + e') = i * 10 ^ (0 : Int) := by
        rw [zpow_zero, mul_one, ← hi, value_mul_value, signed_eq_mul, mul_assoc]
      obtain ⟨y, hy, hsame⟩ := (agree_roundSigned hworth).exists_ok hround
      obtain ⟨-, j, hj⟩ := value_roundSigned_int hy
      exact ⟨j, hsame.value_eq.trans hj⟩

end Decimal
end Backtesting
