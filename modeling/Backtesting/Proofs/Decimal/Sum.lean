import Backtesting.Proofs.Decimal.Rounding

/-!
Sums of decimals. A sum depends on the worth of its summands only, and adding a number that is
already a result to zero gives that number again.
-/
namespace Backtesting.Decimal

open Backtesting.Except (Agree)

theorem value_exactSum {e e' : Int} (he : e' ≤ e) (n n' : Bool) (c c' : Nat) :
    (exactSum n c e n' c' e' : ℚ) * 10 ^ e' = (finite n c e).value + (finite n' c' e').value := by
  obtain ⟨k, rfl⟩ : ∃ k : Nat, e = e' + k := ⟨(e - e').toNat, by omega⟩
  have hplaces : (e' + (k : Int) - e').toNat = k := by omega
  have hscale := scale_eq (signed n c) k e'
  rw [exactSum, hplaces, signed_mul_tenTo, value, value, ← hscale]
  push_cast
  ring

/-- The sum of two finite numbers is their exact sum, rounded. -/
theorem agree_add_of_value {a b : Decimal} (ha : a.IsFinite) (hb : b.IsFinite) {s e : Int}
    (h : (s : ℚ) * 10 ^ e = a.value + b.value) : Agree SameNumber (a.add b) (roundSigned s e) := by
  cases a with
  | infinity n => exact absurd ha id
  | nan n signaling p => exact absurd ha id
  | finite n c x =>
    cases b with
    | infinity n' => exact absurd hb id
    | nan n' signaling p => exact absurd hb id
    | finite n' c' x' =>
      have hadd : (finite n c x).add (finite n' c' x') =
          if x' ≤ x then addOrdered n c x n' c' x' else addOrdered n' c' x' n c x := rfl
      rw [hadd]
      by_cases hx : x' ≤ x
      · rw [if_pos hx]
        apply agree_trans (agree_addOrdered hx n n' c c')
        apply agree_roundSigned
        rw [value_exactSum hx, h]
      · have hx' : x ≤ x' := by omega
        rw [if_neg hx]
        apply agree_trans (agree_addOrdered hx' n' n c' c)
        apply agree_roundSigned
        rw [value_exactSum hx', h, add_comm]

/-- The worth of a finite number is a whole number of some unit. -/
theorem exists_value_add {a b : Decimal} (ha : a.IsFinite) (hb : b.IsFinite) :
    ∃ s e : Int, (s : ℚ) * 10 ^ e = a.value + b.value := by
  cases a with
  | infinity n => exact absurd ha id
  | nan n signaling p => exact absurd ha id
  | finite n c x =>
    cases b with
    | infinity n' => exact absurd hb id
    | nan n' signaling p => exact absurd hb id
    | finite n' c' x' =>
      rcases Int.le_total x' x with hx | hx
      · exact ⟨_, _, value_exactSum hx n n' c c'⟩
      · exact ⟨_, _, (value_exactSum hx n' n c' c).trans (add_comm _ _)⟩

/-- Beside an infinity or a NaN it does not matter which finite number stands. -/
theorem add_eq_of_not_isFinite {a a' b : Decimal} (ha : a.IsFinite) (ha' : a'.IsFinite)
    (hb : ¬ b.IsFinite) : a.add b = a'.add b ∧ b.add a = b.add a' := by
  cases a with
  | infinity n => exact absurd ha id
  | nan n signaling p => exact absurd ha id
  | finite n c x =>
    cases a' with
    | infinity n' => exact absurd ha' id
    | nan n' signaling p => exact absurd ha' id
    | finite n' c' x' =>
      cases b with
      | finite n'' c'' x'' => exact absurd trivial hb
      | infinity n'' => exact ⟨rfl, rfl⟩
      | nan n'' signaling p => cases signaling <;> exact ⟨rfl, rfl⟩

theorem SameNumber.isFinite_iff {a b : Decimal} (h : SameNumber a b) :
    a.IsFinite ↔ b.IsFinite := by
  rcases h with rfl | ⟨ha, hb, -⟩
  · exact Iff.rfl
  · exact ⟨fun _ => hb, fun _ => ha⟩

theorem SameNumber.value_eq {a b : Decimal} (h : SameNumber a b) : a.value = b.value := by
  rcases h with rfl | ⟨-, -, h⟩
  · rfl
  · exact h

/-- Numbers of one worth have sums of one worth, or fail alike. -/
theorem agree_add {a a' b b' : Decimal} (ha : SameNumber a a') (hb : SameNumber b b') :
    Agree SameNumber (a.add b) (a'.add b') := by
  by_cases hfinite : a.IsFinite ∧ b.IsFinite
  · obtain ⟨hfa, hfb⟩ := hfinite
    obtain ⟨s, e, hs⟩ := exists_value_add hfa hfb
    have hs' : (s : ℚ) * 10 ^ e = a'.value + b'.value := by
      rw [hs, ha.value_eq, hb.value_eq]
    have hleft := agree_add_of_value hfa hfb hs
    have hright := agree_add_of_value (ha.isFinite_iff.mp hfa) (hb.isFinite_iff.mp hfb) hs'
    exact agree_trans hleft (agree_symm hright)
  · rcases ha with rfl | ⟨hfa, hfa', -⟩
    · rcases hb with rfl | ⟨hfb, hfb', -⟩
      · exact agree_refl _
      · have hfa : ¬ a.IsFinite := fun h => hfinite ⟨h, hfb⟩
        rw [(add_eq_of_not_isFinite hfb hfb' hfa).2]
        exact agree_refl _
    · have hfb : ¬ b.IsFinite := fun h => hfinite ⟨hfa, h⟩
      rcases hb with rfl | ⟨hfb', -, -⟩
      · rw [(add_eq_of_not_isFinite hfa hfa' hfb).1]
        exact agree_refl _
      · exact absurd hfb' hfb

theorem agree_foldlM_add {xs ys : List Decimal} (h : List.Forall₂ SameNumber xs ys)
    {a b : Decimal} (hab : SameNumber a b) :
    Agree SameNumber (xs.foldlM add a) (ys.foldlM add b) := by
  induction h generalizing a b with
  | nil => exact .ok hab
  | cons hx _ ih =>
    rw [List.foldlM_cons, List.foldlM_cons]
    have hadd := agree_add hab hx
    generalize a.add _ = r at hadd
    generalize b.add _ = r' at hadd
    cases hadd with
    | error f => exact .error f
    | ok hsum => exact ih hsum

/-- A number as an operation gives it: rounded, in range, and without a signal. -/
def IsResult : Decimal → Prop
  | finite _ c e =>
      c = 0 ∨ (digitCount c ≤ precision ∧ minExponent ≤ e ∧ e + digitCount c - 1 ≤ maxAdjusted)
  | infinity _ => True
  | nan _ signaling p => signaling = false ∧ p < tenTo precision

theorem isResult_inRange {n : Bool} {c : Nat} {e : Int} {x : Decimal}
    (hc : digitCount c ≤ precision) (he : minExponent ≤ e) (h : inRange n c e = .ok x) :
    x.IsResult := by
  unfold inRange at h
  split at h
  · simp at h
  · obtain rfl := Except.ok.inj h
    exact Or.inr ⟨hc, he, by omega⟩

theorem dropDigits_le {c k : Nat} (h : digitCount c ≤ precision + k) (i : Bool) :
    dropDigits c k i ≤ tenTo precision := by
  have hlt : c / tenTo k < tenTo precision := by
    rw [Nat.div_lt_iff_lt_mul (tenTo_pos k), ← tenTo_add]
    have hle : tenTo (digitCount c) ≤ tenTo (precision + k) :=
      Nat.pow_le_pow_right (by omega) h
    exact lt_of_lt_of_le (lt_tenTo_digitCount c) hle
  unfold dropDigits
  split
  · exact Nat.zero_le _
  · dsimp only
    split
    · exact hlt
    · exact hlt.le

theorem isResult_round {n i : Bool} {c : Nat} {e : Int} {x : Decimal}
    (h : round n c e i = .ok x) : x.IsResult := by
  by_cases hc : c = 0
  · subst hc
    obtain rfl := Except.ok.inj h
    exact Or.inl rfl
  have hplace : e + digitCount c - precision ≤ lowest c e := le_max_left _ _
  have hmin : minExponent ≤ lowest c e := le_max_right _ _
  by_cases hlowest : lowest c e ≤ e
  · rw [round_of_lowest_le hc hlowest] at h
    exact isResult_inRange (by omega) (by omega) h
  · rw [round_of_lt_lowest hc (by omega), keepDigits] at h
    have hle := dropDigits_le (c := c) (k := (lowest c e - e).toNat) (by omega) i
    split at h
    · next hq =>
      refine isResult_inRange (digitCount_le ?_ (by decide)) (by omega) h
      rw [hq]
      decide
    · split at h
      · obtain rfl := Except.ok.inj h
        exact Or.inl rfl
      · exact isResult_inRange (digitCount_le (by omega) (by decide)) hmin h

theorem isResult_of_ofNaN? {a b c : Decimal} (h : ofNaN? a b = some (.ok c)) : c.IsResult := by
  have hpayload : ∀ (n : Bool) (p : Nat), (nan n false (p % tenTo precision)).IsResult :=
    fun n p => ⟨rfl, Nat.mod_lt p (tenTo_pos precision)⟩
  unfold ofNaN? at h
  split at h
  · simp at h
  · simp at h
  · obtain rfl := Except.ok.inj (Option.some.inj h)
    exact hpayload _ _
  · obtain rfl := Except.ok.inj (Option.some.inj h)
    exact hpayload _ _
  · simp at h

theorem ofNaN?_nan (n signaling : Bool) (p : Nat) (a : Decimal) :
    ofNaN? (nan n signaling p) a ≠ none ∧ ofNaN? a (nan n signaling p) ≠ none := by
  cases a with
  | infinity n' => cases signaling <;> simp [ofNaN?]
  | finite n' c e => cases signaling <;> simp [ofNaN?]
  | nan n' signaling' p' => cases signaling <;> cases signaling' <;> simp [ofNaN?]

theorem isResult_add {a b c : Decimal} (h : a.add b = .ok c) : c.IsResult := by
  unfold add at h
  cases hnan : ofNaN? a b with
  | some r =>
    rw [hnan] at h
    exact isResult_of_ofNaN? (hnan.trans (congrArg some h))
  | none =>
    rw [hnan] at h
    dsimp only at h
    split at h
    · split at h
      · obtain rfl := Except.ok.inj h
        trivial
      · simp at h
    · obtain rfl := Except.ok.inj h
      trivial
    · obtain rfl := Except.ok.inj h
      trivial
    · split at h
      · exact isResult_round h
      · exact isResult_round h
    · next hleft hright _ hboth =>
      cases a with
      | infinity n => exact absurd rfl (hleft n)
      | nan n signaling p => exact absurd hnan (ofNaN?_nan n signaling p b).1
      | finite n k e =>
        cases b with
        | infinity n' => exact absurd rfl (hright n')
        | nan n' signaling p => exact absurd hnan (ofNaN?_nan n' signaling p (finite n k e)).2
        | finite n' k' e' => exact absurd rfl (hboth n k e n' k' e' rfl)

/-- Adding a result to zero gives it again. -/
theorem zero_add_of_isResult {a : Decimal} (h : a.IsResult) :
    ∃ b, zero.add a = .ok b ∧ SameNumber b a := by
  cases a with
  | infinity n => exact ⟨_, rfl, .refl _⟩
  | nan n signaling p =>
    obtain ⟨rfl, hp⟩ := h
    refine ⟨nan n false (p % tenTo precision), rfl, ?_⟩
    rw [Nat.mod_eq_of_lt hp]
    exact .refl _
  | finite n c e =>
    have hworth : (signed n c : ℚ) * 10 ^ e = zero.value + (finite n c e).value := by
      simp [value, zero, signed_zero]
    have hsum := agree_add_of_value (a := zero) (b := finite n c e) trivial trivial hworth
    have hround : Agree SameNumber (roundSigned (signed n c) e) (.ok (finite n c e)) := by
      by_cases hc : c = 0
      · subst hc
        rw [signed_zero]
        refine .ok (Or.inr ⟨trivial, trivial, ?_⟩)
        simp [value, signed]
      · obtain hzero | ⟨hcount, hmin, hmax⟩ := h
        · exact absurd hzero hc
        have hlowest : lowest c e ≤ e := by
          unfold lowest
          omega
        rw [roundSigned_signed (by omega), round_of_lowest_le hc hlowest, inRange,
          if_neg (by omega)]
        exact agree_refl _
    obtain ⟨b, hb, hsame⟩ := (agree_symm (agree_trans hsum hround)).exists_ok rfl
    exact ⟨b, hb, hsame.symm⟩

end Backtesting.Decimal
