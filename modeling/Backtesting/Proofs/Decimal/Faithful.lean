import Backtesting.Proofs.Decimal.Error

/-!
Rounding does not pass over a number that 28 digits are enough for: a result never lies beyond such
a number that the exact one does not lie beyond, so a number of this kind is not rounded at all.
-/
namespace Backtesting.Decimal

variable {a b x : Decimal} {v : ℚ}

/-- A number that 28 digits are enough for, none of them below the smallest place. -/
def Fits (v : ℚ) : Prop :=
  ∃ s e : Int, v = s * 10 ^ e ∧ s.natAbs < tenTo precision ∧ minExponent ≤ e

theorem fits_intCast {i : Int} (h : i.natAbs < tenTo precision) : Fits i :=
  ⟨i, 0, by rw [zpow_zero, mul_one], h, by decide⟩

theorem Fits.neg (h : Fits v) : Fits (-v) := by
  obtain ⟨s, e, rfl, hs, he⟩ := h
  refine ⟨-s, e, ?_, by rwa [Int.natAbs_neg], he⟩
  push_cast
  ring

/-- No number that fits stands between `v` and what it is rounded to. -/
def Faithful (y v : ℚ) : Prop :=
  ∀ u, Fits u → (u ≤ v → u ≤ y) ∧ (v ≤ u → y ≤ u)

theorem faithful_of_eq {y : ℚ} (h : y = v) : Faithful y v := by
  rintro u -
  rw [h]
  exact ⟨id, id⟩

/-- What fits is not rounded. -/
theorem Faithful.eq_of_fits {y : ℚ} (h : Faithful y v) (hfits : Fits v) : y = v :=
  le_antisymm ((h v hfits).2 le_rfl) ((h v hfits).1 le_rfl)

theorem Faithful.signed_mul {y : ℚ} (h : Faithful y v) (n : Bool) :
    Faithful (signed n 1 * y) (signed n 1 * v) := by
  cases n with
  | false => simpa [signed] using h
  | true =>
    intro u hu
    obtain ⟨hbelow, habove⟩ := h (-u) hu.neg
    simp only [signed, if_true, Nat.cast_one, Int.cast_neg, Int.cast_one, neg_one_mul]
    exact ⟨fun hle => le_neg.mpr (habove (le_neg.mpr hle)),
      fun hle => neg_le.mpr (hbelow (neg_le.mpr hle))⟩

section Round

variable {n i : Bool} {c : Nat} {e : Int} {u w : ℚ}

/-- A number that fits is a whole number of the last place that is kept of another one, or it is
smaller than the least number with a digit in the leading place of that one. -/
theorem Fits.exists_whole (h : Fits u) (hw : Begins c i w) (hc : c ≠ 0) (e : Int) :
    ∃ m : Int, u ≤ m * 10 ^ lowest c e ∧
      (u = m * 10 ^ lowest c e ∨ m * 10 ^ lowest c e ≤ w * 10 ^ e) := by
  obtain ⟨s, place, rfl, hs, hplace⟩ := h
  rcases le_or_gt (lowest c e) place with hle | hlt
  · obtain ⟨k, rfl⟩ : ∃ k : Nat, place = lowest c e + k := ⟨(place - lowest c e).toNat, by omega⟩
    have hworth := scale_eq s k (lowest c e)
    exact ⟨s * tenTo k, hworth.ge, Or.inl hworth.symm⟩
  · have hlowest : lowest c e = e + digitCount c - precision := by
      unfold lowest at hlt ⊢
      omega
    have hleading : ((tenTo 27 : Int) : ℚ) * 10 ^ lowest c e = 10 ^ (e + digitCount c - 1) := by
      rw [Int.cast_natCast, cast_tenTo, ← zpow_add₀ (by norm_num), hlowest]
      congr 1
      unfold precision
      omega
    refine ⟨tenTo 27, ?_, Or.inr (hleading ▸ hw.leading_le hc e)⟩
    have hs' : (s : ℚ) ≤ 10 ^ (28 : ℤ) := by
      have hint : s ≤ tenTo precision := by omega
      have hcast : (s : ℚ) ≤ (tenTo precision : Nat) := by exact_mod_cast hint
      rwa [cast_tenTo] at hcast
    calc (s : ℚ) * 10 ^ place ≤ 10 ^ (28 : ℤ) * 10 ^ place := by gcongr
      _ = 10 ^ (28 + place) := (zpow_add₀ (by norm_num) _ _).symm
      _ ≤ 10 ^ (e + digitCount c - 1) := by
          apply zpow_le_zpow_right₀ (by norm_num)
          unfold precision at hlowest
          omega
      _ = _ := hleading.symm

/-- The nearest whole number is on the side of another one on which the number itself is. -/
private theorem nearest_le_iff {q m : Int} {y unit : ℚ} (hunit : 0 < unit)
    (h : |(q : ℚ) * unit - y| ≤ unit / 2) : (m * unit ≤ y → m ≤ q) ∧ (y ≤ m * unit → q ≤ m) := by
  obtain ⟨hlow, hhigh⟩ := abs_le.mp h
  constructor
  · intro hle
    by_contra hlt
    have hnext : (q : ℚ) + 1 ≤ m := by exact_mod_cast not_le.mp hlt
    have hscaled := mul_le_mul_of_nonneg_right hnext hunit.le
    linarith
  · intro hle
    by_contra hlt
    have hnext : (m : ℚ) + 1 ≤ q := by exact_mod_cast not_le.mp hlt
    have hscaled := mul_le_mul_of_nonneg_right hnext hunit.le
    linarith

theorem faithful_round (hw : Begins c i w) (hlong : i = true → precision + 1 ≤ digitCount c)
    (h : round n c e i = .ok x) : Faithful x.value (signed n 1 * (w * 10 ^ e)) := by
  by_cases hc : c = 0
  · subst hc
    obtain rfl := Except.ok.inj h
    apply faithful_of_eq
    rw [hw.eq_zero hlong, value, signed_zero]
    simp
  by_cases hkept : lowest c e ≤ e
  · rw [round_of_lowest_le hc hkept] at h
    apply faithful_of_eq
    rw [inRange_eq_ok h, hw.eq_of_lowest_le hlong hkept, value, signed_eq_mul, mul_assoc]
  · rw [round_of_lt_lowest hc (by omega)] at h
    obtain ⟨c', e', rfl, hworth⟩ := keepDigits_eq_ok h
    rw [value, signed_eq_mul, mul_assoc, hworth]
    apply Faithful.signed_mul
    have hclose := abs_dropped_sub_le hw (e := e) (by omega)
    generalize dropDigits c (lowest c e - e).toNat i = q at hclose
    intro u hu
    obtain ⟨m, hum, hbetween⟩ := hu.exists_whole hw hc e
    have hunit : (0 : ℚ) < 10 ^ lowest c e := by positivity
    obtain ⟨hle, hge⟩ := nearest_le_iff (q := q) (m := m) hunit (by exact_mod_cast hclose)
    constructor
    · intro huw
      have hmq : (m : ℚ) ≤ q := by
        exact_mod_cast hle (hbetween.elim (fun hsame => hsame ▸ huw) id)
      exact hum.trans (mul_le_mul_of_nonneg_right hmq hunit.le)
    · intro hwu
      have hqm : (q : ℚ) ≤ m := by exact_mod_cast hge (hwu.trans hum)
      exact (mul_le_mul_of_nonneg_right hqm hunit.le).trans
        (hbetween.elim (fun hsame => hsame.ge) fun hless => hless.trans hwu)

end Round

theorem faithful_mul (ha : a.IsFinite) (hb : b.IsFinite) (h : a.mul b = .ok x) :
    Faithful x.value (a.value * b.value) := by
  cases a with
  | infinity n => exact absurd ha id
  | nan n signaling p => exact absurd ha id
  | finite n c e =>
    cases b with
    | infinity n' => exact absurd hb id
    | nan n' signaling p => exact absurd hb id
    | finite n' c' e' =>
      rw [value_mul_value]
      exact faithful_round (begins_self _) (fun hi => Bool.noConfusion hi) h

theorem faithful_div (ha : a.IsFinite) (hb : b.value ≠ 0) (h : a.div b = .ok x) :
    Faithful x.value (a.value / b.value) := by
  cases a with
  | infinity n => exact absurd ha id
  | nan n signaling p => exact absurd ha id
  | finite n c e =>
    cases b with
    | infinity n' => exact absurd rfl hb
    | nan n' signaling p => exact absurd rfl hb
    | finite n' c' e' =>
      have hc' := coefficient_ne_zero hb
      rw [div_finite hc'] at h
      rw [value_div_value]
      split at h
      · next hc =>
        obtain rfl := Except.ok.inj h
        apply faithful_of_eq
        simp [hc, value, signed_zero]
      · next hc =>
        obtain ⟨q, place, i, w, hround, hbegins, hlong, hworth⟩ :=
          divFinite_eq_round hc hc' (n != n') e e'
        rw [← hworth]
        exact faithful_round hbegins hlong (hround.symm.trans h)

/-- A sum is the exact sum, rounded. -/
theorem exists_round_add (ha : a.IsFinite) (hb : b.IsFinite) (h : a.add b = .ok x) {s e : Int}
    (hs : (s : ℚ) * 10 ^ e = a.value + b.value) :
    ∃ y, round (s < 0) s.natAbs e false = .ok y ∧ x.value = y.value ∧
      signed (s < 0) 1 * ((s.natAbs : ℚ) * 10 ^ e) = a.value + b.value := by
  obtain ⟨y, hy, hsame⟩ := (agree_add_of_value ha hb hs).exists_ok h
  refine ⟨y, hy, hsame.value_eq, ?_⟩
  rw [← hs, ← mul_assoc, ← signed_eq_mul, signed_natAbs]

theorem faithful_add (ha : a.IsFinite) (hb : b.IsFinite) (h : a.add b = .ok x) :
    Faithful x.value (a.value + b.value) := by
  obtain ⟨s, e, hs⟩ := exists_value_add ha hb
  obtain ⟨y, hy, hsame, hworth⟩ := exists_round_add ha hb h hs
  rw [hsame, ← hworth]
  exact faithful_round (begins_self _) (fun hi => Bool.noConfusion hi) hy

/-- A product that fits is exact. -/
theorem value_mul_of_fits (ha : a.IsFinite) (hb : b.IsFinite) (hfits : Fits (a.value * b.value))
    (h : a.mul b = .ok x) : x.value = a.value * b.value :=
  (faithful_mul ha hb h).eq_of_fits hfits

/-- A quotient that fits is exact. -/
theorem value_div_of_fits (ha : a.IsFinite) (hb : b.value ≠ 0) (hfits : Fits (a.value / b.value))
    (h : a.div b = .ok x) : x.value = a.value / b.value :=
  (faithful_div ha hb h).eq_of_fits hfits

/-- A sum that fits is exact. -/
theorem value_add_of_fits (ha : a.IsFinite) (hb : b.IsFinite) (hfits : Fits (a.value + b.value))
    (h : a.add b = .ok x) : x.value = a.value + b.value :=
  (faithful_add ha hb h).eq_of_fits hfits

end Backtesting.Decimal
