import Backtesting.Proofs.Decimal.Error
import Mathlib.Algebra.BigOperators.Group.List.Basic
import Mathlib.Data.Rat.Floor

/-!
Decimals by what they say: a number, an infinity of some sign, or nothing at all. Sums that round
nothing add up what is said, in whatever order they are taken. Products, quotients and whole parts
go by what is said alone, so decimals that say the same lead to results that say the same.
-/
namespace Backtesting.Decimal

open Backtesting.Except (Agree)

/-- A rational number, an infinity of some sign, or none of these. -/
inductive Extended
  | number (v : ℚ)
  | endless (negative : Bool)
  | undefined
deriving DecidableEq

namespace Extended

/-- Opposite infinities have no sum, and nothing comes of what is undefined. -/
protected def add : Extended → Extended → Extended
  | number v, number w => number (v + w)
  | number _, endless n => endless n
  | endless n, number _ => endless n
  | endless n, endless m => if n = m then endless n else undefined
  | _, _ => undefined

instance : Add Extended := ⟨Extended.add⟩

instance : Zero Extended := ⟨number 0⟩

@[simp] theorem number_add_number (v w : ℚ) : number v + number w = number (v + w) := rfl

@[simp] theorem number_add_endless (v : ℚ) (n : Bool) : number v + endless n = endless n := rfl

@[simp] theorem endless_add_number (n : Bool) (v : ℚ) : endless n + number v = endless n := rfl

@[simp] theorem endless_add_endless (n m : Bool) :
    endless n + endless m = if n = m then endless n else undefined := rfl

@[simp] theorem undefined_add (a : Extended) : undefined + a = undefined := by
  cases a <;> rfl

@[simp] theorem add_undefined (a : Extended) : a + undefined = undefined := by
  cases a <;> rfl

theorem zero_eq : (0 : Extended) = number 0 := rfl

instance : AddCommMonoid Extended where
  add_assoc a b c := by
    cases a with
    | undefined => simp
    | number v => cases b <;> cases c <;> simp [add_assoc]; split <;> rfl
    | endless n =>
      cases b with
      | undefined => simp
      | number w => cases c <;> simp
      | endless m =>
        cases c with
        | undefined => simp
        | number w => simp only [endless_add_endless, endless_add_number]; split <;> simp
        | endless k => cases n <;> cases m <;> cases k <;> rfl
  zero_add a := by cases a <;> simp [zero_eq]
  add_zero a := by cases a <;> simp [zero_eq]
  add_comm a b := by
    cases a with
    | undefined => simp
    | number v => cases b <;> simp [add_comm]
    | endless n =>
      cases b with
      | undefined => simp
      | number w => simp
      | endless m => cases n <;> cases m <;> rfl
  nsmul := nsmulRec

end Extended

variable {a a' b x x' : Decimal}

/-- What a decimal says. The payload of a NaN says nothing. -/
def extended : Decimal → Extended
  | finite n c e => .number (finite n c e).value
  | infinity n => .endless n
  | nan .. => .undefined

/-- Decimals that say the same. -/
def Alike (a b : Decimal) : Prop := a.extended = b.extended

instance (a b : Decimal) : Decidable (Alike a b) :=
  inferInstanceAs (Decidable (a.extended = b.extended))

theorem Alike.refl (a : Decimal) : Alike a a := rfl

theorem extended_of_isFinite (h : a.IsFinite) : a.extended = .number a.value := by
  cases a with
  | finite n c e => rfl
  | infinity n => exact absurd h id
  | nan n signaling p => exact absurd h id

theorem isFinite_of_extended {v : ℚ} (h : a.extended = .number v) : a.IsFinite ∧ a.value = v := by
  cases a with
  | finite n c e => exact ⟨trivial, Extended.number.inj h⟩
  | infinity n => exact nomatch h
  | nan n signaling p => exact nomatch h

theorem Alike.of_sameNumber (h : SameNumber a b) : Alike a b := by
  rcases h with rfl | ⟨ha, hb, hvalue⟩
  · exact .refl a
  · rw [Alike, extended_of_isFinite ha, extended_of_isFinite hb, hvalue]

/-- Of decimals that say something, those that say the same are the same number. -/
theorem Alike.sameNumber (h : Alike a b) (ha : a.extended ≠ .undefined) : SameNumber a b := by
  cases a with
  | finite n c e =>
    obtain ⟨hb, hvalue⟩ := isFinite_of_extended h.symm
    exact Or.inr ⟨trivial, hb, hvalue.symm⟩
  | infinity n =>
    cases b with
    | finite n' c e => exact nomatch h
    | infinity n' =>
      obtain rfl := Extended.endless.inj h
      exact .refl _
    | nan n' signaling p => exact nomatch h
  | nan n signaling p => exact absurd rfl ha

theorem ofNaN?_eq_none : ofNaN? a b = none ↔ a.extended ≠ .undefined ∧ b.extended ≠ .undefined := by
  cases a with
  | nan n signaling p => simpa [extended] using (ofNaN?_nan n signaling p b).1
  | finite n c e =>
    cases b with
    | nan n' signaling p => simpa [extended] using (ofNaN?_nan n' signaling p (finite n c e)).2
    | finite n' c' e' => simp [ofNaN?, extended]
    | infinity n' => simp [ofNaN?, extended]
  | infinity n =>
    cases b with
    | nan n' signaling p => simpa [extended] using (ofNaN?_nan n' signaling p (infinity n)).2
    | finite n' c' e' => simp [ofNaN?, extended]
    | infinity n' => simp [ofNaN?, extended]

/-- What comes of an operation with a NaN is none again. -/
theorem extended_of_ofNaN? (h : ofNaN? a b = some (.ok x)) : x.extended = .undefined := by
  unfold ofNaN? at h
  split at h
  · simp at h
  · simp at h
  · obtain rfl := Except.ok.inj (Option.some.inj h)
    rfl
  · obtain rfl := Except.ok.inj (Option.some.inj h)
    rfl
  · simp at h

/-- An operation that hands NaNs on to begin with. -/
def HandsOn (f : Decimal → Decimal → Except Fault Decimal) : Prop :=
  ∀ a b r, ofNaN? a b = some r → f a b = r

theorem handsOn_add : HandsOn add := fun a b r h => by
  unfold add
  rw [h]

theorem handsOn_mul : HandsOn mul := fun a b r h => by
  unfold mul
  rw [h]

theorem handsOn_div : HandsOn div := fun a b r h => by
  unfold div
  rw [h]

/-- Where the operands of such an operation are undefined, the result is. -/
theorem HandsOn.extended_eq {f : Decimal → Decimal → Except Fault Decimal} (hf : HandsOn f)
    (hx : f a b = .ok x) (hnan : ¬ (a.extended ≠ .undefined ∧ b.extended ≠ .undefined)) :
    x.extended = .undefined := by
  rw [← ofNaN?_eq_none, ← ne_eq, Option.ne_none_iff_exists'] at hnan
  obtain ⟨r, hr⟩ := hnan
  exact extended_of_ofNaN? (hr.trans (congrArg some ((hf a b r hr).symm.trans hx)))

/-- Operations on the same numbers agree, so operations on what says the same do. -/
theorem HandsOn.alike {f : Decimal → Decimal → Except Fault Decimal} (hf : HandsOn f)
    {b' : Decimal} (ha : Alike a a') (hb : Alike b b')
    (hagree : SameNumber a a' → SameNumber b b' → Agree SameNumber (f a b) (f a' b'))
    (hx : f a b = .ok x) (hx' : f a' b' = .ok x') : Alike x x' := by
  by_cases hnan : a.extended ≠ .undefined ∧ b.extended ≠ .undefined
  · obtain ⟨y, hy, hsame⟩ := (hagree (ha.sameNumber hnan.1) (hb.sameNumber hnan.2)).exists_ok hx
    obtain rfl := Except.ok.inj (hx'.symm.trans hy)
    exact .of_sameNumber hsame
  · have hnan' : ¬ (a'.extended ≠ .undefined ∧ b'.extended ≠ .undefined) := by
      rwa [← ha, ← hb]
    rw [Alike, hf.extended_eq hx hnan, hf.extended_eq hx' hnan']

theorem alike_add {b' : Decimal} (ha : Alike a a') (hb : Alike b b') (hx : a.add b = .ok x)
    (hx' : a'.add b' = .ok x') : Alike x x' := handsOn_add.alike ha hb agree_add hx hx'

/-- The sign apart from the size. -/
theorem value_eq_mul (n : Bool) (c : Nat) (e : Int) :
    (finite n c e).value = signed n 1 * (c * 10 ^ e) := by
  rw [value, signed_eq_mul, mul_assoc]

theorem value_eq_zero {n : Bool} {c : Nat} {e : Int} : (finite n c e).value = 0 ↔ c = 0 := by
  constructor
  · intro h
    by_contra hc
    have hsigned : signed n c ≠ 0 := by
      unfold signed
      split <;> omega
    exact mul_ne_zero (by exact_mod_cast hsigned) (zpow_ne_zero e (by norm_num)) h
  · rintro rfl
    simp [value, signed_zero]

/-- How a number is rounded depends on its worth only, also where it comes with its sign apart. -/
theorem agree_round {n n' : Bool} {c c' : Nat} {e e' : Int}
    (h : (finite n c e).value = (finite n' c' e').value) :
    Agree SameNumber (round n c e false) (round n' c' e' false) := by
  by_cases hc : c = 0
  · have hc' : c' = 0 := value_eq_zero.mp (h ▸ value_eq_zero.mpr hc)
    subst hc hc'
    exact agree_round_zero _ _ _ _ _ _
  · have hc' : c' ≠ 0 := fun hzero => hc (value_eq_zero.mp (h.trans (value_eq_zero.mpr hzero)))
    rw [← roundSigned_signed (by omega), ← roundSigned_signed (by omega)]
    exact agree_roundSigned h

/-- Numbers of one worth are zeros together, and have one sign where they are not. -/
theorem sign_eq {n n' : Bool} {c c' : Nat} {e e' : Int}
    (h : (finite n c e).value = (finite n' c' e').value) : (c = 0 ↔ c' = 0) ∧ (c ≠ 0 → n = n') := by
  refine ⟨by rw [← value_eq_zero (n := n) (e := e), h, value_eq_zero], fun hc => ?_⟩
  have hpos : (0 : ℚ) < c * 10 ^ e := by positivity
  have hnonneg : (0 : ℚ) ≤ c' * 10 ^ e' := by positivity
  cases n with
  | false =>
    cases n' with
    | false => rfl
    | true =>
      simp only [value, signed, if_true, if_false, Bool.false_eq_true] at h
      push_cast at h
      linarith
  | true =>
    cases n' with
    | true => rfl
    | false =>
      simp only [value, signed, if_true, if_false, Bool.false_eq_true] at h
      push_cast at h
      linarith

theorem value_product (n n' : Bool) (c c' : Nat) (e e' : Int) :
    (finite (n != n') (c * c') (e + e')).value = (finite n c e).value * (finite n' c' e').value := by
  rw [value_mul_value, value_eq_mul]

theorem agree_mul (h : SameNumber a a') (b : Decimal) : Agree SameNumber (a.mul b) (a'.mul b) := by
  rcases h with rfl | ⟨ha, ha', hvalue⟩
  · exact agree_refl _
  cases a with
  | infinity n => exact absurd ha id
  | nan n signaling p => exact absurd ha id
  | finite n c e =>
    cases a' with
    | infinity n' => exact absurd ha' id
    | nan n' signaling p => exact absurd ha' id
    | finite n' c' e' =>
      cases b with
      | nan m signaling p => cases signaling <;> exact agree_refl _
      | infinity m =>
        obtain ⟨hzero, hsign⟩ := sign_eq hvalue
        show Agree SameNumber (if c = 0 then _ else _) (if c' = 0 then _ else _)
        by_cases hc : c = 0
        · rw [if_pos hc, if_pos (hzero.mp hc)]
          exact .error _
        · rw [if_neg hc, if_neg (hc ∘ hzero.mpr), hsign hc]
          exact agree_refl _
      | finite m k i =>
        refine agree_round ?_
        rw [value_product, value_product, hvalue]

theorem alike_mul (ha : Alike a a') (hx : a.mul b = .ok x) (hx' : a'.mul b = .ok x') :
    Alike x x' := handsOn_mul.alike ha (.refl b) (fun h _ => agree_mul h b) hx hx'

/-- A quotient has the same digits however many zeros stand behind the dividend. Only where it comes
out even do they decide how many zeros it keeps. -/
theorem agree_divFinite_shift {c : Nat} (hc : c ≠ 0) (n : Bool) (k : Nat) (e : Int) (c' : Nat)
    (e' : Int) :
    Agree SameNumber (divFinite n (c * tenTo k) e c' e') (divFinite n c (e + k) c' e') := by
  obtain ⟨shift, hshift⟩ :
      ∃ s, s = (digitCount c' : Int) - digitCount c + precision + 1 := ⟨_, rfl⟩
  have hshift' : (digitCount c' : Int) - digitCount (c * tenTo k) + precision + 1 = shift - k := by
    rw [digitCount_mul_tenTo hc]
    omega
  have hplace : e - e' - (shift - k) = e + k - e' - shift := by omega
  -- beside the zeros that dividend and divisor get anyway, both get `j` more
  obtain ⟨j, hj⟩ : ∃ j, j = (k - shift).toNat - (-shift).toNat := ⟨_, rfl⟩
  have hnum : c * tenTo k * tenTo (shift - k).toNat = c * tenTo shift.toNat * tenTo j := by
    rw [Nat.mul_assoc, Nat.mul_assoc, ← tenTo_add, ← tenTo_add]
    congr 2
    omega
  have hden : c' * tenTo (-(shift - k)).toNat = c' * tenTo (-shift).toNat * tenTo j := by
    rw [Nat.mul_assoc, ← tenTo_add]
    congr 2
    omega
  unfold divFinite
  simp only [hshift', ← hshift, hplace, hnum, hden, Nat.mul_div_mul_right _ _ (tenTo_pos j),
    Nat.mul_mod_mul_right, Nat.mul_eq_zero, (tenTo_pos j).ne', or_false]
  split
  · refine agree_round ?_
    rw [value_eq_mul, value_eq_mul, value_stripZeros, value_stripZeros]
  · exact agree_refl _

private theorem agree_divFinite_of_le {c c₁ : Nat} {e e₁ : Int} (hc : c ≠ 0) (he : e ≤ e₁)
    (h : (c : ℚ) * 10 ^ e = c₁ * 10 ^ e₁) (n : Bool) (c' : Nat) (e' : Int) :
    Agree SameNumber (divFinite n c e c' e') (divFinite n c₁ e₁ c' e') := by
  obtain ⟨k, rfl⟩ : ∃ k : Nat, e₁ = e + k := ⟨(e₁ - e).toNat, by omega⟩
  have hshifted : c = c₁ * tenTo k := by
    rw [zpow_add₀ (by norm_num), mul_comm ((10 : ℚ) ^ e), ← mul_assoc, ← cast_tenTo] at h
    exact_mod_cast mul_right_cancel₀ (zpow_ne_zero e (by norm_num)) h
  subst hshifted
  exact agree_divFinite_shift (left_ne_zero_of_mul hc) n k e c' e'

theorem agree_divFinite {c c₁ : Nat} {e e₁ : Int} (hc : c ≠ 0) (hc₁ : c₁ ≠ 0)
    (h : (c : ℚ) * 10 ^ e = c₁ * 10 ^ e₁) (n : Bool) (c' : Nat) (e' : Int) :
    Agree SameNumber (divFinite n c e c' e') (divFinite n c₁ e₁ c' e') := by
  rcases Int.le_total e e₁ with he | he
  · exact agree_divFinite_of_le hc he h n c' e'
  · exact agree_symm (agree_divFinite_of_le hc₁ he h.symm n c' e')

theorem agree_div (h : SameNumber a a') (b : Decimal) : Agree SameNumber (a.div b) (a'.div b) := by
  rcases h with rfl | ⟨ha, ha', hvalue⟩
  · exact agree_refl _
  cases a with
  | infinity n => exact absurd ha id
  | nan n signaling p => exact absurd ha id
  | finite n c e =>
    cases a' with
    | infinity n' => exact absurd ha' id
    | nan n' signaling p => exact absurd ha' id
    | finite n' c' e' =>
      obtain ⟨hzero, hsign⟩ := sign_eq hvalue
      cases b with
      | nan m signaling p => cases signaling <;> exact agree_refl _
      | infinity m =>
        refine .ok (Or.inr ⟨trivial, trivial, ?_⟩)
        rw [value_eq_zero.mpr rfl, value_eq_zero.mpr rfl]
      | finite m k i =>
        by_cases hc : c = 0
        · have hc' := hzero.mp hc
          subst hc hc'
          by_cases hk : k = 0
          · subst hk
            exact .error _
          · rw [div_finite hk, div_finite hk]
            exact agree_round_zero _ _ false false _ _
        · have hc' : c' ≠ 0 := hc ∘ hzero.mpr
          obtain rfl := hsign hc
          by_cases hk : k = 0
          · subst hk
            show Agree SameNumber (if c = 0 then _ else _) (if c' = 0 then _ else _)
            rw [if_neg hc, if_neg hc']
            exact .error _
          · rw [div_finite hk, div_finite hk, if_neg hc, if_neg hc']
            refine agree_divFinite hc hc' ?_ _ k i
            have hsize := congrArg abs hvalue
            rwa [value_eq_mul, value_eq_mul, abs_signed_mul, abs_signed_mul,
              abs_of_nonneg (by positivity), abs_of_nonneg (by positivity)] at hsize

theorem alike_div (ha : Alike a a') (hx : a.div b = .ok x) (hx' : a'.div b = .ok x') :
    Alike x x' := handsOn_div.alike ha (.refl b) (fun h _ => agree_div h b) hx hx'

/-- A whole part is the floor of the worth. -/
theorem floorInt_of_isFinite (h : a.IsFinite) : a.floorInt = .ok ⌊a.value⌋ := by
  cases a with
  | infinity n => exact absurd h id
  | nan n signaling p => exact absurd h id
  | finite n c e =>
    refine congrArg Except.ok ?_
    by_cases he : 0 ≤ e
    · obtain ⟨k, rfl⟩ := Int.eq_ofNat_of_zero_le he
      have hwhole : (finite n c k).value = (signed n (lowered c k 0) : Int) := by
        rw [value_eq_mul, signed_eq_mul n (lowered c k 0), cast_lowered]
      rw [if_pos he, hwhole, Int.floor_intCast]
    · obtain ⟨k, rfl⟩ : ∃ k : Nat, e = -k := ⟨(-e).toNat, by omega⟩
      have hplaces : (-(-(k : Int))).toNat = k := by omega
      have hquotient : (finite n c (-k)).value = (signed n c : ℚ) / (tenTo k : Nat) := by
        rw [value, zpow_neg, cast_tenTo, div_eq_mul_inv]
      rw [if_neg he, hplaces, hquotient, Rat.floor_intCast_div_natCast]
      split
      · next hshort =>
        have hsmall := two_mul_succ_le_tenTo hshort
        cases n with
        | false => exact (Int.ediv_eq_zero_of_lt (by simp [signed]) (by simp [signed]; omega)).symm
        | true =>
          by_cases hc : c = 0
          · simp [hc, signed]
          · have hbelow : signed true c / (tenTo k : Int) = -1 := by
              rw [Int.ediv_eq_iff_of_pos (by omega)]
              simp only [signed, if_true]
              omega
            simp [hc, hbelow]
      · exact Int.fdiv_eq_ediv_of_nonneg _ (Int.natCast_nonneg _)

theorem alike_floorInt {i j : Int} (ha : Alike a a') (hi : a.floorInt = .ok i)
    (hj : a'.floorInt = .ok j) : i = j := by
  cases a with
  | infinity n => exact nomatch hi
  | nan n signaling p => cases signaling <;> exact nomatch hi
  | finite n c e =>
    obtain ⟨ha', hvalue⟩ := isFinite_of_extended ha.symm
    have hfinite : (finite n c e).IsFinite := trivial
    rw [floorInt_of_isFinite ha', hvalue] at hj
    rw [floorInt_of_isFinite hfinite] at hi
    exact Except.ok.inj (hi.symm.trans hj)

/-- Only numbers that are worth nothing are the same as zero. -/
theorem isSame_zero {r : Bool} (h : a.isSame 0 = .ok r) : r = decide (a.extended = 0) := by
  change a.isSame (finite false 0 0) = .ok r at h
  cases a with
  | infinity n => cases n <;> simpa [isSame, ordering?, extended, Extended.zero_eq, eq_comm] using h
  | nan n signaling p =>
    cases signaling with
    | true => cases h
    | false => simpa [isSame, ordering?, extended, Extended.zero_eq, eq_comm] using h
  | finite n c e =>
    have hzero : ((finite n c e).extended = 0) ↔ c = 0 := by
      rw [extended, Extended.zero_eq, Extended.number.injEq, value_eq_zero]
    have hdecide : decide ((finite n c e).extended = 0) = decide (c = 0) := by simp only [hzero]
    rw [hdecide]
    by_cases hc : c = 0
    · simpa [isSame, ordering?, hc, eq_comm] using h
    · cases n <;> simpa [isSame, ordering?, hc, eq_comm] using h

theorem isFinite_add (ha : a.IsFinite) (hb : b.IsFinite) (hx : a.add b = .ok x) : x.IsFinite := by
  obtain ⟨s, e, hs⟩ := exists_value_add ha hb
  obtain ⟨y, hy, hsame⟩ := (agree_add_of_value ha hb hs).exists_ok hx
  have hfinite := (near_of_round (begins_self _) (fun hi => Bool.noConfusion hi) hy).1
  exact hsame.isFinite_iff.mpr hfinite

/-- Nothing is rounded where two finite numbers are added. -/
def Unrounded (a b : Decimal) : Prop :=
  ∀ x, a.add b = .ok x → a.IsFinite → b.IsFinite → x.value = a.value + b.value

instance (a b : Decimal) : Decidable (Unrounded a b) :=
  inferInstanceAs (Decidable (∀ x, a.add b = .ok x → a.IsFinite → b.IsFinite →
    x.value = a.value + b.value))

theorem Unrounded.extended_eq (h : Unrounded a b) (hx : a.add b = .ok x) :
    x.extended = a.extended + b.extended := by
  by_cases hnan : a.extended ≠ .undefined ∧ b.extended ≠ .undefined
  · cases a with
    | nan n signaling p => exact absurd rfl hnan.1
    | infinity n =>
      cases b with
      | nan n' signaling p => exact absurd rfl hnan.2
      | finite n' c' e' =>
        obtain rfl : infinity n = x := Except.ok.inj hx
        rfl
      | infinity n' =>
        have hboth : (if n = n' then .ok (infinity n) else .error .invalidOperation) =
          (Except.ok x : Except Fault Decimal) := hx
        split at hboth
        · next hsign =>
          obtain rfl := Except.ok.inj hboth
          simp [extended, hsign]
        · exact nomatch hboth
    | finite n c e =>
      cases b with
      | nan n' signaling p => exact absurd rfl hnan.2
      | infinity n' =>
        obtain rfl : infinity n' = x := Except.ok.inj hx
        rfl
      | finite n' c' e' =>
        have ha : (finite n c e).IsFinite := trivial
        have hb : (finite n' c' e').IsFinite := trivial
        rw [extended_of_isFinite (isFinite_add ha hb hx), h x hx ha hb]
        rfl
  · rw [handsOn_add.extended_eq hx hnan]
    rcases not_and_or.mp hnan with hundefined | hundefined
    · rw [not_not.mp hundefined, Extended.undefined_add]
    · rw [not_not.mp hundefined, Extended.add_undefined]

/-- A chain of sums that round nothing says the whole sum in the end. -/
theorem Along.extended_eq {α ε : Type} {f : Decimal → α → Except ε Decimal}
    {P : Decimal → α → Prop} {g : α → Extended} {l : List α} (h : Along f P l a)
    (hb : l.foldlM f a = .ok b)
    (hstep : ∀ {total e next}, e ∈ l → P total e → f total e = .ok next →
      next.extended = total.extended + g e) :
    b.extended = a.extended + (l.map g).sum := by
  induction l generalizing a with
  | nil =>
    obtain rfl := Except.foldlM_nil_eq_ok.mp hb
    simp
  | cons e l ih =>
    obtain ⟨c, hc, hrest⟩ := Except.foldlM_cons_eq_ok.mp hb
    obtain ⟨hfirst, hlater⟩ := along_cons.mp h
    rw [ih (hlater c hc) hrest fun he => hstep (List.mem_cons_of_mem e he),
      hstep List.mem_cons_self hfirst hc, List.map_cons, List.sum_cons, add_assoc]

end Backtesting.Decimal
