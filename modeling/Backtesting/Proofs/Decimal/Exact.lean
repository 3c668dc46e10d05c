import Backtesting.Proofs.Decimal.Sum

/-!
Sums and products that round nothing off. Where every operation of a chain is exact, the number that
comes out is worth what the rational numbers say.
-/
namespace Backtesting.Decimal

variable {a b x : Decimal}

/-- What comes out of the sum is a finite number, the whole sum. -/
def ExactSum (a b : Decimal) : Prop :=
  ∀ x, a.add b = .ok x → x.IsFinite ∧ x.value = a.value + b.value

/-- What comes out of the product is a finite number, the whole product. -/
def ExactProduct (a b : Decimal) : Prop :=
  ∀ x, a.mul b = .ok x → x.IsFinite ∧ x.value = a.value * b.value

instance (a b : Decimal) : Decidable (ExactSum a b) :=
  inferInstanceAs (Decidable (∀ x, a.add b = .ok x → x.IsFinite ∧ x.value = a.value + b.value))

instance (a b : Decimal) : Decidable (ExactProduct a b) :=
  inferInstanceAs (Decidable (∀ x, a.mul b = .ok x → x.IsFinite ∧ x.value = a.value * b.value))

theorem value_zero : zero.value = 0 := by
  simp [zero, value, signed_zero]

theorem value_one : (1 : Decimal).value = 1 := by
  show (signed false 1 : ℚ) * 10 ^ (0 : Int) = 1
  simp [signed]

theorem signed_natAbs (i : Int) : signed (decide (i < 0)) i.natAbs = i := by
  unfold signed
  by_cases hi : i < 0
  · rw [if_pos (by simpa using hi)]
    omega
  · rw [if_neg (by simpa using hi)]
    omega

theorem value_ofInt (i : Int) : (ofInt i).value = i := by
  simp [ofInt, value, signed_natAbs]

theorem signed_not (n : Bool) (c : Nat) : signed (!n) c = -signed n c := by
  cases n <;> simp [signed]

theorem value_flipped (a : Decimal) : a.flipped.value = -a.value := by
  cases a with
  | finite n c e =>
    simp only [flipped, value, signed_not]
    push_cast
    ring
  | infinity n => simp [flipped, value]
  | nan n signaling p => simp [flipped, value]

/-- Only what is worth nothing is the same as zero. -/
theorem value_of_isSame_zero (h : a.isSame 0 = .ok true) : a.value = 0 := by
  change a.isSame (finite false 0 0) = .ok true at h
  cases a with
  | infinity n => cases n <;> simp [isSame, ordering?] at h
  | nan n signaling p => cases signaling <;> simp [isSame, ordering?] at h
  | finite n c e =>
    by_cases hc : c = 0
    · rw [hc]
      simp [value, signed_zero]
    · cases n <;> simp [isSame, ordering?, hc] at h

theorem isResult_mul (h : a.mul b = .ok x) : x.IsResult := by
  unfold mul at h
  cases hnan : ofNaN? a b with
  | some r =>
    rw [hnan] at h
    exact isResult_of_ofNaN? (hnan.trans (congrArg some h))
  | none =>
    rw [hnan] at h
    cases a with
    | nan n signaling p => exact absurd hnan (ofNaN?_nan n signaling p b).1
    | infinity n =>
      cases b with
      | nan n' signaling p => exact absurd hnan (ofNaN?_nan n' signaling p (infinity n)).2
      | infinity n' =>
        obtain rfl := Except.ok.inj h
        trivial
      | finite n' c' e' =>
        dsimp only at h
        split at h
        · simp at h
        · obtain rfl := Except.ok.inj h
          trivial
    | finite n c e =>
      cases b with
      | nan n' signaling p => exact absurd hnan (ofNaN?_nan n' signaling p (finite n c e)).2
      | infinity n' =>
        dsimp only at h
        split at h
        · simp at h
        · obtain rfl := Except.ok.inj h
          trivial
      | finite n' c' e' => exact isResult_round h

/-- The opposite of a result needs no rounding. -/
theorem value_neg (ha : a.IsFinite) (hresult : a.IsResult) (h : a.neg = .ok x) :
    x.IsFinite ∧ x.value = -a.value := by
  cases a with
  | infinity n => exact absurd ha id
  | nan n signaling p => exact absurd ha id
  | finite n c e =>
    by_cases hc : c = 0
    · subst hc
      obtain rfl := Except.ok.inj h
      exact ⟨trivial, by simp [value, signed_zero]⟩
    · obtain hzero | ⟨hcount, hmin, hmax⟩ := hresult
      · exact absurd hzero hc
      have hlowest : lowest c e ≤ e := by
        unfold lowest
        omega
      have hround : round (!n && c != 0) c e false = .ok x := h
      rw [round_of_lowest_le hc hlowest, inRange, if_neg (by omega)] at hround
      obtain rfl := Except.ok.inj hround
      refine ⟨trivial, ?_⟩
      have hsign : (!n && c != 0) = !n := by simp [hc]
      rw [hsign]
      simp only [value, signed_not]
      push_cast
      ring

variable {α ε : Type}

/-- `P` holds of the total and the entry at every step of a chain. -/
inductive Along (f : Decimal → α → Except ε Decimal) (P : Decimal → α → Prop) :
    List α → Decimal → Prop
  | nil (total : Decimal) : Along f P [] total
  | cons {e : α} {l : List α} {total : Decimal} (first : P total e)
      (rest : ∀ next, f total e = .ok next → Along f P l next) : Along f P (e :: l) total

theorem along_cons {f : Decimal → α → Except ε Decimal} {P : Decimal → α → Prop} {e : α}
    {l : List α} {total : Decimal} : Along f P (e :: l) total ↔
      P total e ∧ ∀ next, f total e = .ok next → Along f P l next := by
  constructor
  · rintro (_ | ⟨first, rest⟩)
    exact ⟨first, rest⟩
  · rintro ⟨first, rest⟩
    exact .cons first rest

instance Along.decidable (f : Decimal → α → Except ε Decimal) (P : Decimal → α → Prop)
    [∀ total e, Decidable (P total e)] : ∀ l total, Decidable (Along f P l total)
  | [], total => isTrue (.nil total)
  | _ :: l, _ =>
      have : DecidablePred (Along f P l) := Along.decidable f P l
      decidable_of_iff _ along_cons.symm

/-- A chain whose steps add exactly ends with the whole sum. -/
theorem Along.value_eq {f : Decimal → α → Except ε Decimal} {P : Decimal → α → Prop} {g : α → ℚ}
    {l : List α} (h : Along f P l a) (ha : a.IsFinite) (hb : l.foldlM f a = .ok b)
    (hstep : ∀ {total e next}, P total e → total.IsFinite → f total e = .ok next →
      next.IsFinite ∧ next.value = total.value + g e) :
    b.IsFinite ∧ b.value = a.value + (l.map g).sum := by
  induction l generalizing a with
  | nil =>
    obtain rfl := Except.foldlM_nil_eq_ok.mp hb
    exact ⟨ha, by simp⟩
  | cons e l ih =>
    obtain ⟨c, hc, hrest⟩ := Except.foldlM_cons_eq_ok.mp hb
    obtain ⟨hfirst, hexact⟩ := along_cons.mp h
    obtain ⟨hfinite, hvalue⟩ := hstep hfirst ha hc
    obtain ⟨hb, hsum⟩ := ih (hexact c hc) hfinite hrest
    refine ⟨hb, ?_⟩
    rw [hsum, hvalue, List.map_cons, List.sum_cons]
    ring

end Backtesting.Decimal
