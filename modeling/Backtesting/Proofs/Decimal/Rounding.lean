import Backtesting.Proofs.Decimal.Value
import Backtesting.Proofs.Except
import Mathlib.Algebra.Order.Ring.Int
import Mathlib.Tactic.Positivity

/-!
Rounding to 28 digits and the sums that go through it. What a result is depends on the worth of the
operands alone, not on their exponents: shifting zeros between coefficient and exponent does not
change how a number is rounded, and a summand too small to be seen does not either.
-/
namespace Backtesting.Decimal

open Backtesting.Except (Agree)

/-- The exponent of the last digit that a result keeps. -/
def lowest (c : Nat) (e : Int) : Int := max (e + digitCount c - precision) minExponent

theorem round_of_lowest_le {c : Nat} {e : Int} (hc : c ≠ 0) (h : lowest c e ≤ e) (n i : Bool) :
    round n c e i = inRange n c e := by
  unfold lowest at h
  simp only [round, if_neg hc, if_pos h]

/-- The result whose last digit is at `place`. Rounding up may have given it one digit too many. -/
def keepDigits (negative : Bool) (q : Nat) (place : Int) : Except Fault Decimal :=
  if q = tenTo precision then inRange negative (q / 10) (place + 1)
  else if q = 0 then .ok (finite negative 0 place)
  else inRange negative q place

theorem round_of_lt_lowest {c : Nat} {e : Int} (hc : c ≠ 0) (h : e < lowest c e) (n i : Bool) :
    round n c e i = keepDigits n (dropDigits c (lowest c e - e).toNat i) (lowest c e) := by
  have hle : ¬ lowest c e ≤ e := by omega
  unfold lowest at hle
  simp only [round, if_neg hc, if_neg hle]
  rfl

theorem lowest_shift {c : Nat} (hc : c ≠ 0) (k : Nat) (e : Int) :
    lowest (c * tenTo k) e = lowest c (e + k) := by
  unfold lowest
  rw [digitCount_mul_tenTo hc]
  congr 1
  push_cast
  ring

theorem agree_inRange_shift {c : Nat} (hc : c ≠ 0) (n : Bool) (k : Nat) (e : Int) :
    Agree SameNumber (inRange n (c * tenTo k) e) (inRange n c (e + k)) := by
  have hplace : e + digitCount (c * tenTo k) - 1 = e + k + digitCount c - 1 := by
    rw [digitCount_mul_tenTo hc]
    push_cast
    ring
  unfold inRange
  rw [hplace]
  split
  · exact .error _
  · refine .ok (Or.inr ⟨trivial, trivial, ?_⟩)
    rw [value, value, signed_mul_tenTo, scale_eq]

/-- Dropping digits that are zero drops nothing. -/
theorem dropDigits_mul_tenTo {c k : Nat} (hc : c ≠ 0) :
    dropDigits (c * tenTo k) k false = c := by
  have hdigits : ¬ digitCount (c * tenTo k) < k := by
    rw [digitCount_mul_tenTo hc]
    omega
  unfold dropDigits
  rw [if_neg hdigits]
  simp [Nat.mul_div_cancel _ (tenTo_pos k), (tenTo_pos k).ne]

theorem dropDigits_shift {c : Nat} (hc : c ≠ 0) (k j : Nat) :
    dropDigits (c * tenTo k) (k + j) false = dropDigits c j false := by
  have hpos := tenTo_pos k
  have hdigits : digitCount (c * tenTo k) < k + j ↔ digitCount c < j := by
    rw [digitCount_mul_tenTo hc]
    omega
  have hdiv : c * tenTo k / tenTo (k + j) = c / tenTo j := by
    rw [tenTo_add, Nat.mul_comm c, Nat.mul_div_mul_left _ _ hpos]
  have hmod : c * tenTo k % tenTo (k + j) = tenTo k * (c % tenTo j) := by
    rw [tenTo_add, Nat.mul_comm c, Nat.mul_mod_mul_left]
  have hless : tenTo k * tenTo j < 2 * (tenTo k * (c % tenTo j)) ↔
      tenTo j < 2 * (c % tenTo j) := by
    rw [← Nat.mul_assoc, Nat.mul_comm 2, Nat.mul_assoc]
    exact Nat.mul_lt_mul_left hpos
  have hsame : 2 * (tenTo k * (c % tenTo j)) = tenTo k * tenTo j ↔
      2 * (c % tenTo j) = tenTo j := by
    rw [← Nat.mul_assoc, Nat.mul_comm 2, Nat.mul_assoc]
    exact Nat.mul_right_inj hpos.ne'
  unfold dropDigits
  simp only [hdigits, hdiv, hmod]
  rw [tenTo_add]
  simp only [hless, beq_iff_eq, hsame, Bool.or_eq_true, Bool.and_eq_true, decide_eq_true_eq]

theorem agree_refl (r : Except Fault Decimal) : Agree SameNumber r r := by
  cases r with
  | error f => exact .error f
  | ok a => exact .ok (.refl a)

theorem agree_symm {r r' : Except Fault Decimal} (h : Agree SameNumber r r') :
    Agree SameNumber r' r := by
  cases h with
  | ok h => exact .ok h.symm
  | error f => exact .error f

theorem agree_trans {r r' r'' : Except Fault Decimal} (h : Agree SameNumber r r')
    (h' : Agree SameNumber r' r'') : Agree SameNumber r r'' := by
  cases h with
  | ok h =>
    cases h' with
    | ok h' => exact .ok (h.trans h')
  | error f =>
    cases h' with
    | error f => exact .error f

/-- Zeros may be shifted between coefficient and exponent before a number is rounded. -/
theorem agree_round_shift {c : Nat} (hc : c ≠ 0) (n : Bool) (k : Nat) (e : Int) :
    Agree SameNumber (round n (c * tenTo k) e false) (round n c (e + k) false) := by
  have hc' : c * tenTo k ≠ 0 := Nat.mul_ne_zero hc (tenTo_pos k).ne'
  have hlowest := lowest_shift hc k e
  by_cases hfits : lowest c (e + k) ≤ e
  · rw [round_of_lowest_le hc' (by omega), round_of_lowest_le hc (by omega)]
    exact agree_inRange_shift hc n k e
  by_cases hzeros : lowest c (e + k) ≤ e + k
  · -- only zeros are dropped on the left, nothing on the right
    obtain ⟨j, hj⟩ : ∃ j : Nat, lowest c (e + k) = e + j := ⟨(lowest c (e + k) - e).toNat, by omega⟩
    obtain ⟨i, rfl⟩ : ∃ i, k = i + j := ⟨k - j, by omega⟩
    have hne : c * tenTo i ≠ 0 := Nat.mul_ne_zero hc (tenTo_pos i).ne'
    have hdropped : dropDigits (c * tenTo (i + j)) j false = c * tenTo i := by
      rw [tenTo_add, ← Nat.mul_assoc]
      exact dropDigits_mul_tenTo hne
    have hkept : c * tenTo i ≠ tenTo precision := by
      have hcount : digitCount (c * tenTo i) ≤ precision := by
        have hplace : e + (i + j : Nat) + digitCount c - precision ≤ e + j := by
          rw [← hj]
          exact le_max_left _ _
        rw [digitCount_mul_tenTo hc]
        omega
      intro heq
      have hlt := lt_tenTo_digitCount (c * tenTo i)
      rw [heq] at hlt hcount
      have hle : tenTo (digitCount (tenTo precision)) ≤ tenTo precision :=
        Nat.pow_le_pow_right (by omega) hcount
      omega
    have hplaces : (lowest (c * tenTo (i + j)) e - e).toNat = j := by omega
    rw [round_of_lt_lowest hc' (by omega), round_of_lowest_le hc (by omega), hplaces, hdropped,
      hlowest, hj, keepDigits, if_neg hkept, if_neg hne]
    have hshift := agree_inRange_shift hc n i (e + j)
    have hexponent : e + j + i = e + (i + j : Nat) := by
      push_cast
      ring
    rwa [hexponent] at hshift
  · have hplaces : (lowest (c * tenTo k) e - e).toNat = k + (lowest c (e + k) - (e + k)).toNat := by
      omega
    rw [round_of_lt_lowest hc' (by omega), round_of_lt_lowest hc (by omega), hplaces,
      dropDigits_shift hc, hlowest]
    exact agree_refl _

/-- Halves of the last digit that is kept decide how a number is rounded. A number strictly between
two of them is rounded as any other one between them. -/
theorem dropDigits_of_not_dvd {c k : Nat} (hk : k + 1 ≤ digitCount c) (h : ¬ 5 * tenTo k ∣ c) :
    dropDigits c (k + 1) false = (c / (5 * tenTo k) + 1) / 2 := by
  have hpos := tenTo_pos k
  obtain ⟨u, hu⟩ : ∃ u, u = 5 * tenTo k := ⟨_, rfl⟩
  have hunit : tenTo (k + 1) = 2 * u := by
    rw [tenTo_succ, hu]
    omega
  have hmod : 0 < c % u := by
    rw [hu]
    exact Nat.pos_of_ne_zero fun hzero => h (Nat.dvd_of_mod_eq_zero hzero)
  have hlt : c % u < u := Nat.mod_lt _ (by omega)
  have hsplit : c % (2 * u) = c % u + u * (c / u % 2) := by
    rw [Nat.mul_comm 2, Nat.mod_mul]
  have hdiv : c / (2 * u) = c / u / 2 := by
    rw [Nat.mul_comm 2, Nat.div_div_eq_div_mul]
  rw [← hu]
  unfold dropDigits
  simp only [hunit, hsplit, hdiv, Bool.or_eq_true, decide_eq_true_eq, Bool.and_eq_true,
    beq_iff_eq, Bool.false_or]
  rw [if_neg (by omega)]
  rcases Nat.mod_two_eq_zero_or_one (c / u) with heven | hodd
  · rw [heven, Nat.mul_zero, Nat.add_zero, if_neg (by omega)]
    omega
  · rw [hodd, Nat.mul_one, if_pos (Or.inl (by omega))]
    omega

/-- Numbers between the same two halves are rounded alike. -/
theorem round_eq_of_div_eq {c c' k : Nat} (hdigits : precision + k + 1 ≤ digitCount c)
    (hdigits' : digitCount c' = digitCount c) (hdiv : c / (5 * tenTo k) = c' / (5 * tenTo k))
    (h : ¬ 5 * tenTo k ∣ c) (h' : ¬ 5 * tenTo k ∣ c') (n : Bool) (e : Int) :
    round n c e false = round n c' e false := by
  have hc : c ≠ 0 := by
    rintro rfl
    exact h (dvd_zero _)
  have hc' : c' ≠ 0 := by
    rintro rfl
    exact h' (dvd_zero _)
  have hlowest : lowest c' e = lowest c e := by
    unfold lowest
    rw [hdigits']
  have hplace : e + digitCount c - precision ≤ lowest c e := le_max_left _ _
  obtain ⟨j, hj⟩ : ∃ j : Nat, (lowest c e - e).toNat = k + j + 1 :=
    ⟨(lowest c e - e).toNat - (k + 1), by omega⟩
  have hunit : 5 * tenTo (k + j) = 5 * tenTo k * tenTo j := by
    rw [tenTo_add, Nat.mul_assoc]
  have hdropped : dropDigits c (k + j + 1) false = dropDigits c' (k + j + 1) false := by
    by_cases hcount : k + j + 1 ≤ digitCount c
    · have hcoarse : ∀ x, ¬ 5 * tenTo k ∣ x → ¬ 5 * tenTo (k + j) ∣ x := by
        intro x hx hdvd
        rw [hunit] at hdvd
        exact hx (dvd_of_mul_right_dvd hdvd)
      have hsame : c / (5 * tenTo (k + j)) = c' / (5 * tenTo (k + j)) := by
        rw [hunit, ← Nat.div_div_eq_div_mul, hdiv, Nat.div_div_eq_div_mul]
      rw [dropDigits_of_not_dvd hcount (hcoarse c h),
        dropDigits_of_not_dvd (by omega) (hcoarse c' h'), hsame]
    · unfold dropDigits
      rw [if_pos (by omega), if_pos (by omega)]
  rw [round_of_lt_lowest hc (by omega), round_of_lt_lowest hc' (by omega), hlowest, hj, hdropped]

theorem round_between {b k x y : Nat} (hb : tenTo (precision - 1) ≤ b / 2) (hx : 0 < x)
    (hx' : x < 5 * tenTo k) (hy : 0 < y) (hy' : y < 5 * tenTo k) (n : Bool) (e : Int) :
    round n (b * (5 * tenTo k) + x) e false = round n (b * (5 * tenTo k) + y) e false := by
  have hdiv : ∀ z < 5 * tenTo k, (b * (5 * tenTo k) + z) / (5 * tenTo k) = b := by
    intro z hz
    rw [Nat.mul_comm b, Nat.mul_add_div (by omega), Nat.div_eq_of_lt hz, Nat.add_zero]
  have hdvd : ∀ z, 0 < z → z < 5 * tenTo k → ¬ 5 * tenTo k ∣ b * (5 * tenTo k) + z := by
    intro z hz hz' h
    have hle := Nat.le_of_dvd hz ((Nat.dvd_add_right (Nat.dvd_mul_left _ b)).mp h)
    omega
  have hcount : ∀ z < 5 * tenTo k,
      digitCount (b * (5 * tenTo k) + z) = digitCount (b / 2) + (k + 1) := by
    intro z hz
    have hupper : (b * (5 * tenTo k) + z) / tenTo (k + 1) = b / 2 := by
      have hunit : tenTo (k + 1) = 5 * tenTo k * 2 := by
        rw [tenTo_succ]
        omega
      rw [hunit, ← Nat.div_div_eq_div_mul, hdiv z hz]
    have hpos := tenTo_pos (precision - 1)
    rw [digitCount_of_div (k := k + 1) (by omega), hupper]
  have hlong : precision - 1 < digitCount (b / 2) := lt_digitCount hb
  apply round_eq_of_div_eq (k := k)
  · rw [hcount x hx']
    omega
  · rw [hcount x hx', hcount y hy']
  · rw [hdiv x hx', hdiv y hy']
  · exact hdvd x hx hx'
  · exact hdvd y hy hy'

/-- The number `s · 10 ^ e` as a result. -/
def roundSigned (s : Int) (e : Int) : Except Fault Decimal := round (s < 0) s.natAbs e false

theorem agree_round_zero (n n' i i' : Bool) (e e' : Int) :
    Agree SameNumber (round n 0 e i) (round n' 0 e' i') := by
  refine .ok (Or.inr ⟨trivial, trivial, ?_⟩)
  simp [value, signed]

theorem agree_roundSigned_shift (s : Int) (k : Nat) (e : Int) :
    Agree SameNumber (roundSigned (s * tenTo k) e) (roundSigned s (e + k)) := by
  have hpos : (0 : Int) < tenTo k := by exact_mod_cast tenTo_pos k
  by_cases hs : s = 0
  · subst hs
    rw [Int.zero_mul]
    exact agree_round_zero _ _ _ _ _ _
  · have hsign : decide (s * tenTo k < 0) = decide (s < 0) := by
      rw [decide_eq_decide]
      exact ⟨fun h => neg_of_mul_neg_left h hpos.le, fun h => Int.mul_neg_of_neg_of_pos h hpos⟩
    unfold roundSigned
    rw [hsign, Int.natAbs_mul, Int.natAbs_natCast]
    exact agree_round_shift (by omega) _ k e

private theorem agree_roundSigned_of_le {s s' e e' : Int} (he : e ≤ e')
    (h : (s : ℚ) * 10 ^ e = s' * 10 ^ e') :
    Agree SameNumber (roundSigned s e) (roundSigned s' e') := by
  obtain ⟨k, rfl⟩ : ∃ k : Nat, e' = e + k := ⟨(e' - e).toNat, by omega⟩
  have hs : s = s' * tenTo k := by
    rw [← scale_eq] at h
    have hcancel := mul_right_cancel₀ (zpow_ne_zero e (by norm_num)) h
    exact_mod_cast hcancel
  rw [hs]
  exact agree_roundSigned_shift s' k e

/-- How a number is rounded depends on its worth only. -/
theorem agree_roundSigned {s s' e e' : Int} (h : (s : ℚ) * 10 ^ e = s' * 10 ^ e') :
    Agree SameNumber (roundSigned s e) (roundSigned s' e') := by
  rcases Int.le_total e e' with he | he
  · exact agree_roundSigned_of_le he h
  · exact agree_symm (agree_roundSigned_of_le he h.symm)

theorem roundSigned_signed {c : Nat} (hc : 0 < c) (n : Bool) (e : Int) :
    roundSigned (signed n c) e = round n c e false := by
  have hsign : decide (signed n c < 0) = n := by
    cases n
    · simp [signed]
    · simp [signed, hc]
  have hsize : (signed n c).natAbs = c := by
    cases n <;> simp [signed]
  rw [roundSigned, hsign, hsize]

theorem signed_add_signed (n : Bool) (c c' : Nat) :
    signed n c + signed n c' = signed n (c + c') := by
  unfold signed
  split
  · omega
  · omega

theorem signed_add_not {c c' : Nat} (h : c' ≤ c) (n : Bool) :
    signed n c + signed (!n) c' = signed n (c - c') := by
  unfold signed
  cases n
  · simp only [Bool.not_false, if_true, Bool.false_eq_true, if_false]
    omega
  · simp only [Bool.not_true, if_true, Bool.false_eq_true, if_false]
    omega

/-- A summand below everything that can be seen may as well be another one. -/
theorem roundSigned_unseen {c j k x y : Nat} (hj : 0 < j)
    (hc : precision + 2 ≤ digitCount (c * tenTo j)) (hx : 0 < x) (hx' : x ≤ tenTo k) (hy : 0 < y)
    (hy' : y ≤ tenTo k) (n n' : Bool) (e : Int) :
    roundSigned (signed n (c * tenTo j * tenTo k) + signed n' x) e =
      roundSigned (signed n (c * tenTo j * tenTo k) + signed n' y) e := by
  obtain ⟨i, rfl⟩ : ∃ i, j = i + 1 := ⟨j - 1, by omega⟩
  obtain ⟨b, hb⟩ : ∃ b, b = c * tenTo i := ⟨_, rfl⟩
  have hpos := tenTo_pos k
  have hupper : c * tenTo (i + 1) = 10 * b := by
    rw [hb, tenTo_succ, ← Nat.mul_assoc, Nat.mul_comm]
  rw [hupper] at hc ⊢
  have hlong : tenTo precision ≤ b := by
    by_contra hlt
    have hshort : digitCount (10 * b) ≤ precision + 1 := by
      apply digitCount_le _ (by omega)
      rw [tenTo_succ]
      omega
    omega
  have hfloor : tenTo precision = tenTo (precision - 1) * 10 := rfl
  have hplace := tenTo_pos (precision - 1)
  have habove : 10 * b * tenTo k = 2 * b * (5 * tenTo k) := by ring
  have hbelow : 10 * b * tenTo k = (2 * b - 1) * (5 * tenTo k) + 5 * tenTo k := by
    rw [habove, ← Nat.succ_mul]
    congr 1
    omega
  have hbig : tenTo k < 10 * b * tenTo k := by
    have hb' : 1 < 10 * b := by omega
    exact lt_mul_of_one_lt_left hpos hb'
  by_cases hn : n' = n
  · subst hn
    rw [signed_add_signed, signed_add_signed, roundSigned_signed (by omega),
      roundSigned_signed (by omega), habove]
    exact round_between (by omega) hx (by omega) hy (by omega) n' e
  · obtain rfl : n' = !n := by
      cases n <;> cases n' <;> simp at hn ⊢
    rw [signed_add_not (by omega), signed_add_not (by omega), roundSigned_signed (by omega),
      roundSigned_signed (by omega), hbelow, Nat.add_sub_assoc (by omega),
      Nat.add_sub_assoc (by omega)]
    exact round_between (by omega) (by omega) (by omega) (by omega) (by omega) n e

theorem agree_round_sign (n n' : Bool) (s e : Int) :
    Agree SameNumber (round (if s = 0 then n && n' else s < 0) s.natAbs e false)
      (roundSigned s e) := by
  unfold roundSigned
  by_cases hs : s = 0
  · subst hs
    exact agree_round_zero _ _ _ _ _ _
  · rw [if_neg hs]
    exact agree_refl _

/-- The exact sum of two finite numbers, the first of which has the greater exponent. -/
def exactSum (n : Bool) (c : Nat) (e : Int) (n' : Bool) (c' : Nat) (e' : Int) : Int :=
  signed n (c * tenTo (e - e').toNat) + signed n' c'

theorem agree_addOrdered {e e' : Int} (he : e' ≤ e) (n n' : Bool) (c c' : Nat) :
    Agree SameNumber (addOrdered n c e n' c' e')
      (roundSigned (exactSum n c e n' c' e') e') := by
  unfold addOrdered exactSum
  by_cases hc : c = 0
  · subst hc
    simp only [visible, lowered, if_true, Nat.zero_mul]
    exact agree_round_sign n n' _ e'
  by_cases hc' : c' = 0
  · subst hc'
    simp only [visible, lowered, if_neg hc, if_true, signed_zero, Int.add_zero]
    obtain ⟨k, hk⟩ : ∃ k : Nat, max e' (e - precision - 1) = e' + k :=
      ⟨(max e' (e - precision - 1) - e').toNat, by omega⟩
    have hpower : tenTo (e - e').toNat = tenTo (e - (e' + k)).toNat * tenTo k := by
      rw [← tenTo_add]
      congr 1
      have hle : e' + k ≤ e := by
        rw [← hk]
        unfold precision
        omega
      omega
    rw [hk, hpower, ← Nat.mul_assoc, signed_mul_tenTo n (c * _) k]
    exact agree_trans (agree_round_sign n n' _ _) (agree_symm (agree_roundSigned_shift _ k e'))
  obtain ⟨floor, hfloor⟩ :
      ∃ f, f = e + min (-1) ((digitCount c : Int) - precision - 2) := ⟨_, rfl⟩
  by_cases hunseen : e' + digitCount c' - 1 < floor
  · simp only [visible, lowered, if_neg hc, if_neg hc', ← hfloor, if_pos hunseen]
    have hcount := digitCount_pos c'
    obtain ⟨k, hk⟩ : ∃ k : Nat, floor = e' + k := ⟨(floor - e').toNat, by omega⟩
    obtain ⟨j, hj⟩ : ∃ j : Nat, e = floor + j := ⟨(e - floor).toNat, by omega⟩
    have hplaces : (e - floor).toNat = j := by omega
    have hpower : tenTo (e - e').toNat = tenTo j * tenTo k := by
      rw [← tenTo_add]
      congr 1
      omega
    have hlong : precision + 2 ≤ digitCount (c * tenTo j) := by
      rw [digitCount_mul_tenTo hc]
      omega
    have hsmall : c' ≤ tenTo k := by
      have hlt := lt_tenTo_digitCount c'
      have hle : tenTo (digitCount c') ≤ tenTo k := Nat.pow_le_pow_right (by omega) (by omega)
      omega
    have hshift := agree_roundSigned_shift (signed n (c * tenTo j) + signed n' 1) k e'
    rw [Int.add_mul, ← signed_mul_tenTo, ← signed_mul_tenTo, Nat.one_mul] at hshift
    rw [hplaces, hk, hpower, ← Nat.mul_assoc,
      roundSigned_unseen (by omega) hlong (by omega) hsmall (tenTo_pos k) le_rfl]
    exact agree_trans (agree_round_sign n n' _ _) (agree_symm hshift)
  · simp only [visible, lowered, if_neg hc, if_neg hc', ← hfloor, if_neg hunseen]
    exact agree_round_sign n n' _ e'

end Backtesting.Decimal
