import Backtesting.Binary64.Basic

/-!
Decimal digits of binary numbers, found in whole numbers. `shortest` has the fewest digits that
read back as the number, `significant` a given count of digits, `places` a given count after the
point. Where two candidates are equally near, the even one is taken.
-/
namespace Backtesting.Binary64

/-- The place of the leading digit of the positive number `m · 2 ^ q`. -/
def leadingPlace (m : Nat) (q : Int) : Int :=
  if 0 ≤ q then Decimal.digitCount (m * twoTo q.toNat) - 1
  else
    let n := (-q).toNat
    let k := (n - m.log2) / 3 + 1
    Decimal.digitCount (m * tenTo k / twoTo n) - 1 - k

/-- Numerator and denominator of `m · 2 ^ q · 10 ^ -e`. -/
def quotientAt (m : Nat) (q e : Int) : Nat × Nat :=
  (m * twoTo q.toNat * tenTo (-e).toNat, twoTo (-q).toNat * tenTo e.toNat)

/-- The multiple of `10 ^ e` that lies among the numbers which round to `m · 2 ^ q` and is nearest
to it, if there is one. Below the least mantissa the gap is half as wide. -/
def nearestOnGrid? (m : Nat) (q e : Int) : Option Nat :=
  let (num, den) := quotientAt m (q - 2) e
  let low := (4 * num) - (if m = twoTo 52 ∧ -1074 < q then 1 else 2) * (num / m)
  let high := 4 * num + 2 * (num / m)
  let inside (t : Nat) : Bool :=
    if m % 2 = 0 then low ≤ t * den && t * den ≤ high else low < t * den && t * den < high
  let t := 4 * num / den
  let below := 4 * num - t * den
  let above := (t + 1) * den - 4 * num
  match inside t && t != 0, inside (t + 1) with
  | true, true => some (if below < above || (below == above && t % 2 == 0) then t else t + 1)
  | true, false => some t
  | false, true => some (t + 1)
  | false, false => none

def shortestFrom (m : Nat) (q top : Int) : Nat → Nat → Nat × Int
  | _, 0 => (roundQuotient (quotientAt m q (top - 16)).1 (quotientAt m q (top - 16)).2, top - 16)
  | digits, fuel + 1 =>
      let e := top - digits + 1
      match nearestOnGrid? m q e with
      | some t => (t, e)
      | none => shortestFrom m q top (digits + 1) fuel

def dropTrailingZeros : Nat → Nat → Int → Nat × Int
  | 0, c, e => (c, e)
  | fuel + 1, c, e => if c % 10 = 0 then dropTrailingZeros fuel (c / 10) (e + 1) else (c, e)

/-- The coefficient and the exponent of the shortest decimal that reads back as `m · 2 ^ q`. -/
def shortest (m : Nat) (q : Int) : Nat × Int :=
  let (c, e) := shortestFrom m q (leadingPlace m q) 1 17
  dropTrailingZeros (Decimal.digitCount c - 1) c e

/-- `count` digits of the positive number `m · 2 ^ q`, and the exponent of the last. -/
def significant (count m : Nat) (q : Int) : Nat × Int :=
  let e := leadingPlace m q - count + 1
  let (num, den) := quotientAt m q e
  let c := roundQuotient num den
  if c = tenTo count then (tenTo (count - 1), e + 1) else (c, e)

/-- The number `m · 2 ^ q` counted in units of `10 ^ -count`. -/
def places (count m : Nat) (q : Int) : Nat :=
  let (num, den) := quotientAt m q (-count)
  roundQuotient num den

end Backtesting.Binary64
