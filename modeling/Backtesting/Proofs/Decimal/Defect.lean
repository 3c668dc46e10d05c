import Backtesting.Proofs.Decimal.Domain
import Backtesting.Proofs.Decimal.Order

/-!
Decimals that are no numbers. What an operation gives lacks what makes a number only where an operand
lacked the same: infinities do not come from finite numbers, since what is too large is a fault, nor NaNs
from infinities. So the decimals without one of these defects are a domain, and the finite numbers are
those without any.
-/
namespace Backtesting.Decimal

open Backtesting.Except (FailsOnly Gives)

/-- What keeps a decimal from being a number. -/
inductive Defect
  | endless
  | undefined
deriving DecidableEq

def defect? : Decimal → Option Defect
  | finite .. => none
  | infinity _ => some .endless
  | nan .. => some .undefined

variable {a b x : Decimal} {f : Defect}

theorem isFinite_iff_defect? : x.IsFinite ↔ ∀ f, x.defect? ≠ some f := by
  cases x with
  | finite n c e => simp [IsFinite, defect?]
  | infinity n => simp [IsFinite, defect?]
  | nan n signaling p => simp [IsFinite, defect?]

/-- The defects of `x` are among those of `a` and `b`. -/
def Inherits (x a b : Decimal) : Prop := ∀ f, x.defect? = some f → a.defect? = some f ∨ b.defect? = some f

theorem Inherits.of_isFinite (h : x.IsFinite) : Inherits x a b :=
  fun f hf => absurd hf (isFinite_iff_defect?.mp h f)

theorem Inherits.left (h : x.defect? = a.defect?) : Inherits x a b := fun _ hf => Or.inl (h ▸ hf)

theorem Inherits.right (h : x.defect? = b.defect?) : Inherits x a b := fun _ hf => Or.inr (h ▸ hf)

/-- What an operation with a NaN gives is one. -/
theorem inherits_of_ofNaN? (h : ofNaN? a b = some (.ok x)) : Inherits x a b := by
  unfold ofNaN? at h
  split at h
  · simp at h
  · simp at h
  · obtain rfl := Except.ok.inj (Option.some.inj h)
    exact .left rfl
  · obtain rfl := Except.ok.inj (Option.some.inj h)
    exact .right rfl
  · simp at h

/-- Only what an operation makes of other operands is to be looked at. -/
theorem HandsOn.inherits {op : Decimal → Decimal → Except Fault Decimal} (hop : HandsOn op)
    (h : op a b = .ok x)
    (hother : a.extended ≠ .undefined → b.extended ≠ .undefined → Inherits x a b) : Inherits x a b := by
  cases hnan : ofNaN? a b with
  | none => exact hother (ofNaN?_eq_none.mp hnan).1 (ofNaN?_eq_none.mp hnan).2
  | some r =>
    rw [hop a b r hnan] at h
    exact inherits_of_ofNaN? (h ▸ hnan)

theorem inherits_add (h : a.add b = .ok x) : Inherits x a b := by
  refine handsOn_add.inherits h fun ha hb => ?_
  cases a with
  | nan n signaling p => exact absurd rfl ha
  | infinity n =>
    cases b with
    | nan n' signaling p => exact absurd rfl hb
    | finite n' c' e' =>
      obtain rfl := Except.ok.inj h
      exact .left rfl
    | infinity n' =>
      have hsum : (if n = n' then .ok (infinity n) else .error .invalidOperation) =
          (Except.ok x : Except Fault Decimal) := h
      split at hsum
      · obtain rfl := Except.ok.inj hsum
        exact .left rfl
      · exact nomatch hsum
  | finite n c e =>
    cases b with
    | nan n' signaling p => exact absurd rfl hb
    | infinity n' =>
      obtain rfl := Except.ok.inj h
      exact .right rfl
    | finite n' c' e' => exact .of_isFinite ((gives_add n n' c c' e e').value x h)

theorem defect?_flipped (a : Decimal) : a.flipped.defect? = a.defect? := by
  cases a <;> rfl

theorem inherits_sub (h : a.sub b = .ok x) : Inherits x a b := fun f hf => by
  have hinherited := inherits_add h f hf
  rwa [defect?_flipped] at hinherited

theorem inherits_neg (h : a.neg = .ok x) : Inherits x a a := by
  cases a with
  | finite n c e => exact .of_isFinite ((gives_round _ _ _ _).value x h)
  | infinity n =>
    obtain rfl := Except.ok.inj h
    exact .left rfl
  | nan n signaling p =>
    cases signaling with
    | true => exact nomatch h
    | false =>
      obtain rfl := Except.ok.inj h
      exact .left rfl

/-- An infinity times anything but a zero is one. -/
theorem inherits_mul (h : a.mul b = .ok x) : Inherits x a b := by
  refine handsOn_mul.inherits h fun ha hb => ?_
  have hendless : ∀ {c : Nat} {n : Bool}, (if c = 0 then .error .invalidOperation
      else .ok (infinity n)) = (Except.ok x : Except Fault Decimal) → x.defect? = some .endless := by
    intro c n hproduct
    split at hproduct
    · exact nomatch hproduct
    · rw [← Except.ok.inj hproduct]
      rfl
  cases a with
  | nan n signaling p => exact absurd rfl ha
  | infinity n =>
    cases b with
    | nan n' signaling p => exact absurd rfl hb
    | infinity n' =>
      obtain rfl := Except.ok.inj h
      exact .left rfl
    | finite n' c' e' => exact .left (hendless h)
  | finite n c e =>
    cases b with
    | nan n' signaling p => exact absurd rfl hb
    | infinity n' => exact .right (hendless h)
    | finite n' c' e' => exact .of_isFinite ((gives_round _ _ _ _).value x h)

/-- A finite number over an infinity is a zero. -/
theorem inherits_div (hpos : b.isAtMost 0 = .ok false) (h : a.div b = .ok x) : Inherits x a b := by
  refine handsOn_div.inherits h fun ha hb => ?_
  cases a with
  | nan n signaling p => exact absurd rfl ha
  | infinity n =>
    cases b with
    | nan n' signaling p => exact absurd rfl hb
    | infinity n' => exact nomatch h
    | finite n' c' e' =>
      obtain rfl := Except.ok.inj h
      exact .left rfl
  | finite n c e =>
    cases b with
    | nan n' signaling p => exact absurd rfl hb
    | infinity n' =>
      obtain rfl := Except.ok.inj h
      exact .of_isFinite trivial
    | finite n' c' e' =>
      have hfinite : Domain.finite.Has (finite n c e) := trivial
      have hfinite' : Domain.finite.Has (finite n' c' e') := trivial
      exact .of_isFinite ((Domain.finite.div hfinite hfinite' hpos).value x h)

/-- The decimals without a defect, with all faults. -/
def Domain.without (f : Defect) : Domain where
  Has x := x.defect? ≠ some f
  Faults _ := True
  ofInt _ := nofun
  ordered _ _ _ := .any _
  isSame _ _ := .any _
  add ha hb := ⟨.any _, fun _ h hf => (inherits_add h f hf).elim ha hb⟩
  sub ha hb := ⟨.any _, fun _ h hf => (inherits_sub h f hf).elim ha hb⟩
  neg ha := ⟨.any _, fun _ h hf => (inherits_neg h f hf).elim ha ha⟩
  mul ha hb := ⟨.any _, fun _ h hf => (inherits_mul h f hf).elim ha hb⟩
  div ha hb hpos := ⟨.any _, fun _ h hf => (inherits_div hpos h f hf).elim ha hb⟩
  nearestInt _ := .any _
  floorInt _ := .any _
  toFloat _ := .any _

/-- What can be compared is no NaN. -/
theorem has_of_ordered {p : Ordering → Bool} {r : Bool} (h : ordered a b p = .ok r) :
    (Domain.without .undefined).Has a := by
  cases a with
  | finite n c e => exact nofun
  | infinity n => exact nofun
  | nan n signaling k => exact nomatch h

end Backtesting.Decimal
