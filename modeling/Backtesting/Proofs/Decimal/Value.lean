import Backtesting.Decimal.Arithmetic
import Mathlib.Algebra.Order.Field.Rat
import Mathlib.Data.Nat.Log
import Mathlib.Tactic.Ring

/-!
What a decimal is worth, as a rational number. A number can be written with several exponents; all
that counts for its digits is where the leading one stands.
-/
namespace Backtesting

theorem tenTo_eq (k : Nat) : tenTo k = 10 ^ k := rfl

namespace Decimal

theorem digitCountFrom_eq {fuel n : Nat} (h : n < 10 ^ (fuel + 1)) :
    digitCountFrom fuel n = Nat.log 10 n + 1 := by
  induction fuel generalizing n with
  | zero =>
    rw [digitCountFrom, Nat.log_of_lt (by simpa using h)]
  | succ fuel ih =>
    unfold digitCountFrom
    by_cases hn : n < 10
    · rw [if_pos hn, Nat.log_of_lt hn]
    · have hlog : 0 < Nat.log 10 n := Nat.log_pos (by omega) (by omega)
      have hdiv : n / 10 < 10 ^ (fuel + 1) := by
        rw [Nat.div_lt_iff_lt_mul (by omega), ← Nat.pow_succ]
        exact h
      rw [if_neg hn, ih hdiv, Nat.log_div_base]
      omega

theorem digitCount_eq (n : Nat) : digitCount n = Nat.log 10 n + 1 := by
  apply digitCountFrom_eq
  calc n < 2 ^ (n.log2 + 1) := Nat.lt_log2_self
    _ ≤ 10 ^ (n.log2 + 1) := Nat.pow_le_pow_left (by omega) _
    _ ≤ 10 ^ (n.log2 + 1 + 1) := Nat.pow_le_pow_right (by omega) (by omega)

theorem digitCount_pos (n : Nat) : 0 < digitCount n := by
  rw [digitCount_eq]
  omega

theorem lt_tenTo_digitCount (n : Nat) : n < tenTo (digitCount n) := by
  rw [digitCount_eq]
  exact Nat.lt_pow_succ_log_self (by omega) n

theorem digitCount_le {n k : Nat} (h : n < tenTo k) (hk : 0 < k) : digitCount n ≤ k := by
  rw [digitCount_eq]
  have hlog : Nat.log 10 n < k := Nat.log_lt_of_lt_pow' (by omega) h
  omega

theorem lt_digitCount {n k : Nat} (h : tenTo k ≤ n) : k < digitCount n := by
  rw [digitCount_eq]
  have hlog : k ≤ Nat.log 10 n := Nat.le_log_of_pow_le (by omega) h
  omega

theorem digitCount_mul_tenTo {n : Nat} (hn : n ≠ 0) (k : Nat) :
    digitCount (n * tenTo k) = digitCount n + k := by
  induction k with
  | zero => rw [tenTo_zero, Nat.mul_one, Nat.add_zero]
  | succ k ih =>
    have hne : n * tenTo k ≠ 0 := Nat.mul_ne_zero hn (tenTo_pos k).ne'
    rw [tenTo_succ, ← Nat.mul_assoc, digitCount_eq, Nat.log_mul_base (by omega) hne,
      ← digitCount_eq, ih, Nat.add_assoc]

/-- The digits of a number are those of its upper part and the places below. -/
theorem digitCount_of_div {n k : Nat} (h : n / tenTo k ≠ 0) :
    digitCount n = digitCount (n / tenTo k) + k := by
  induction k generalizing n with
  | zero => rw [tenTo_zero, Nat.div_one, Nat.add_zero]
  | succ k ih =>
    have hsplit : n / tenTo (k + 1) = n / 10 / tenTo k := by
      rw [tenTo_succ, Nat.mul_comm, Nat.div_div_eq_div_mul]
    rw [hsplit] at h ⊢
    have hten : ¬ n < 10 := by
      intro hlt
      rw [Nat.div_eq_of_lt hlt, Nat.zero_div] at h
      exact h rfl
    have hlog : 0 < Nat.log 10 n := Nat.log_pos (by omega) (by omega)
    rw [← Nat.add_assoc, ← ih h, digitCount_eq, digitCount_eq, Nat.log_div_base]
    omega

theorem signed_zero (n : Bool) : signed n 0 = 0 := by
  cases n <;> rfl

theorem signed_mul_tenTo (n : Bool) (c k : Nat) :
    signed n (c * tenTo k) = signed n c * tenTo k := by
  cases n <;> simp [signed]

/-- The worth of a number; what is no finite number counts as nothing. -/
def value : Decimal → ℚ
  | finite n c e => signed n c * 10 ^ e
  | _ => 0

/-- Finite numbers of one worth, or the very same infinity or NaN. -/
def SameNumber (a b : Decimal) : Prop :=
  a = b ∨ a.IsFinite ∧ b.IsFinite ∧ a.value = b.value

theorem SameNumber.refl (a : Decimal) : SameNumber a a := Or.inl rfl

theorem SameNumber.symm {a b : Decimal} (h : SameNumber a b) : SameNumber b a := by
  rcases h with rfl | ⟨ha, hb, h⟩
  · exact refl a
  · exact Or.inr ⟨hb, ha, h.symm⟩

theorem SameNumber.trans {a b c : Decimal} (h : SameNumber a b) (h' : SameNumber b c) :
    SameNumber a c := by
  rcases h with rfl | ⟨ha, hb, h⟩
  · exact h'
  · rcases h' with rfl | ⟨-, hc, h'⟩
    · exact Or.inr ⟨ha, hb, h⟩
    · exact Or.inr ⟨ha, hc, h.trans h'⟩

/-- A coefficient and an exponent make up for each other. -/
theorem scale_eq (s : Int) (k : Nat) (e : Int) :
    ((s * tenTo k : Int) : ℚ) * 10 ^ e = s * 10 ^ (e + k) := by
  rw [zpow_add₀ (by norm_num), zpow_natCast, tenTo_eq]
  push_cast
  ring

end Decimal
end Backtesting
