import Backtesting.Decimal.Basic

/-!
Binary floating-point numbers of 64 bits, taken apart into whole numbers and put together again. A
finite number is a mantissa below 2 ^ 53 times a power of two that is at least 2 ^ -1074; `nearest`
is the number closest to a quotient of natural numbers, half to even.
-/
namespace Backtesting.Binary64

inductive Parts
  | finite (negative : Bool) (mantissa : Nat) (exponent : Int)
  | infinity (negative : Bool)
  | nan
deriving DecidableEq, Repr

def partsOfBits (bits : Nat) : Parts :=
  let negative := bits / twoTo 63 % 2 == 1
  let field : Nat := bits / twoTo 52 % twoTo 11
  let fraction := bits % twoTo 52
  if field = 2047 then (if fraction = 0 then .infinity negative else .nan)
  else if field = 0 then .finite negative fraction (-1074)
  else .finite negative (twoTo 52 + fraction) ((field : Int) - 1075)

def parts (x : Float) : Parts := partsOfBits x.toBits.toNat

def signBit (negative : Bool) : Nat := if negative then twoTo 63 else 0

/-- The quotient to the nearest whole number, half to even. -/
def roundQuotient (num den : Nat) : Nat :=
  let q := num / den
  let r := num % den
  if den < 2 * r || (2 * r == den && q % 2 == 1) then q + 1 else q

/-- Numerator and denominator of `num / den · 2 ^ -q`. -/
def scaled (num den : Nat) (q : Int) : Nat × Nat :=
  if 0 ≤ q then (num, den * twoTo q.toNat) else (num * twoTo (-q).toNat, den)

def bitsOfScaled (negative : Bool) (m : Nat) (q : Int) : Nat :=
  let (m, q) := if m = twoTo 53 then (twoTo 52, q + 1) else (m, q)
  signBit negative +
    if 971 < q then 2047 * twoTo 52
    else if m < twoTo 52 then m
    else (q + 1075).toNat * twoTo 52 + (m - twoTo 52)

def nearestBits (negative : Bool) (num den : Nat) : Nat :=
  if num = 0 then signBit negative
  else
    let q : Int := max ((num.log2 : Int) - den.log2 - 53) (-1074)
    let (n, d) := scaled num den q
    if n / d < twoTo 53 then bitsOfScaled negative (roundQuotient n d) q
    else
      let (n, d) := scaled num den (q + 1)
      bitsOfScaled negative (roundQuotient n d) (q + 1)

def ofNatBits (bits : Nat) : Float := Float.ofBits (UInt64.ofNat bits)

def nearest (negative : Bool) (num den : Nat) : Float := ofNatBits (nearestBits negative num den)

def infinity (negative : Bool) : Float := ofNatBits (signBit negative + 2047 * twoTo 52)

def nan : Float := ofNatBits (4095 * twoTo 51)

/-- The number nearest to `c · 10 ^ e`. -/
def ofScaled (negative : Bool) (c : Nat) (e : Int) : Float :=
  if c = 0 then nearest negative 0 1
  else if 400 < e + Decimal.digitCount c then infinity negative
  else if e + Decimal.digitCount c < -400 then nearest negative 0 1
  else if 0 ≤ e then nearest negative (c * tenTo e.toNat) 1
  else nearest negative c (tenTo (-e).toNat)

/-- The number nearest to a whole number, `none` beyond the greatest finite number. -/
def ofInt? (i : Int) : Option Float :=
  let x := nearest (i < 0) i.natAbs 1
  if x.isFinite then some x else none

end Backtesting.Binary64

namespace Backtesting.Decimal

def toFloat : Decimal → Except Fault Float
  | finite n c e => .ok (Binary64.ofScaled n c e)
  | infinity n => .ok (Binary64.infinity n)
  | nan _ true _ => .error .floatOfSignalingNaN
  | nan .. => .ok Binary64.nan

end Backtesting.Decimal
