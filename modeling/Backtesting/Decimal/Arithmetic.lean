import Backtesting.Decimal.Basic

/-!
Arithmetic to 28 significant digits, half to even. Every result goes through `round`; a result
that needs no rounding keeps its natural exponent: the smaller one of a sum, the sum of both of a
product, and for a quotient the difference, reached by dropping trailing zeros.
-/
namespace Backtesting
namespace Decimal

def precision : Nat := 28

/-- The greatest place of a leading digit. -/
def maxAdjusted : Int := 999999

/-- The exponent below which no digit is kept. -/
def minExponent : Int := -1000026

/-- `c` without its last `k` digits, to the nearest, half to even. With `inexact` the number meant
lies a little above `c`. -/
def dropDigits (c k : Nat) (inexact : Bool) : Nat :=
  if digitCount c < k then 0
  else
    let unit := tenTo k
    let q := c / unit
    let r := c % unit
    if unit < 2 * r || (2 * r == unit && (inexact || q % 2 == 1)) then q + 1 else q

def inRange (negative : Bool) (c : Nat) (e : Int) : Except Fault Decimal :=
  if maxAdjusted < e + digitCount c - 1 then .error .overflow else .ok (finite negative c e)

/-- The number `c · 10 ^ e` as a result: at most 28 digits, none below `minExponent`. -/
def round (negative : Bool) (c : Nat) (e : Int) (inexact : Bool) : Except Fault Decimal :=
  if c = 0 then .ok (finite negative 0 (min (max e minExponent) maxAdjusted))
  else
    let lowest := max (e + digitCount c - precision) minExponent
    if lowest ≤ e then inRange negative c e
    else
      let q := dropDigits c (lowest - e).toNat inexact
      if q = tenTo precision then inRange negative (q / 10) (lowest + 1)
      else if q = 0 then .ok (finite negative 0 lowest)
      else inRange negative q lowest

/-- What an operation with a NaN gives; `none` when neither operand is one. -/
def ofNaN? : Decimal → Decimal → Option (Except Fault Decimal)
  | nan _ true _, _ => some (.error .invalidOperation)
  | _, nan _ true _ => some (.error .invalidOperation)
  | nan n false p, _ => some (.ok (nan n false (p % tenTo precision)))
  | _, nan n false p => some (.ok (nan n false (p % tenTo precision)))
  | _, _ => none

def signed (negative : Bool) (c : Nat) : Int := if negative then -c else c

/-- A coefficient brought down from exponent `e` to `e'`; a zero stays a zero at any distance. -/
def lowered (c : Nat) (e e' : Int) : Nat :=
  if c = 0 then 0 else c * tenTo (e - e').toNat

/-- The operand of the smaller exponent as it matters beside the one of the greater: too small to
reach a digit that is kept, it counts as one unit below all of them. -/
def visible (c : Nat) (e : Int) (c' : Nat) (e' : Int) : Nat × Int :=
  if c = 0 then (c', e')
  else if c' = 0 then (0, max e' (e - precision - 1))
  else
    let floor := e + min (-1) ((digitCount c : Int) - precision - 2)
    if e' + digitCount c' - 1 < floor then (1, floor) else (c', e')

def addOrdered (n : Bool) (c : Nat) (e : Int) (n' : Bool) (c' : Nat) (e' : Int) :
    Except Fault Decimal :=
  let (low, place) := visible c e c' e'
  let sum := signed n (lowered c e place) + signed n' low
  round (if sum = 0 then n && n' else sum < 0) sum.natAbs place false

/-- A signed infinity wins over finite operands; opposite infinities have no sum. -/
def add (a b : Decimal) : Except Fault Decimal :=
  match ofNaN? a b with
  | some r => r
  | none =>
    match a, b with
    | infinity n, infinity n' => if n = n' then .ok (infinity n) else .error .invalidOperation
    | infinity n, _ => .ok (infinity n)
    | _, infinity n => .ok (infinity n)
    | finite n c e, finite n' c' e' =>
        if e' ≤ e then addOrdered n c e n' c' e' else addOrdered n' c' e' n c e
    | a, _ => .ok a

def flipped : Decimal → Decimal
  | finite n c e => finite (!n) c e
  | infinity n => infinity (!n)
  | x => x

def sub (a b : Decimal) : Except Fault Decimal := add a (flipped b)

/-- The opposite number. The opposite of a zero carries no sign. -/
def neg : Decimal → Except Fault Decimal
  | finite n c e => round (!n && c != 0) c e false
  | infinity n => .ok (infinity (!n))
  | nan _ true _ => .error .invalidOperation
  | nan n false p => .ok (nan n false (p % tenTo precision))

def mul (a b : Decimal) : Except Fault Decimal :=
  match ofNaN? a b with
  | some r => r
  | none =>
    match a, b with
    | infinity n, infinity n' => .ok (infinity (n != n'))
    | infinity n, finite n' c _ =>
        if c = 0 then .error .invalidOperation else .ok (infinity (n != n'))
    | finite n c _, infinity n' =>
        if c = 0 then .error .invalidOperation else .ok (infinity (n != n'))
    | finite n c e, finite n' c' e' => round (n != n') (c * c') (e + e') false
    | a, _ => .ok a

def stripZeros : Nat → Nat → Int → Int → Nat × Int
  | 0, c, e, _ => (c, e)
  | fuel + 1, c, e, ideal =>
      if e < ideal ∧ c % 10 = 0 then stripZeros fuel (c / 10) (e + 1) ideal else (c, e)

/-- At least 29 digits of a quotient and whether more follow. An exact quotient is brought towards
the exponent `ideal` as far as its trailing zeros allow. -/
def divFinite (negative : Bool) (c : Nat) (e : Int) (c' : Nat) (e' : Int) :
    Except Fault Decimal :=
  let ideal := e - e'
  let shift : Int := (digitCount c' : Int) - digitCount c + precision + 1
  let num := c * tenTo shift.toNat
  let den := c' * tenTo (-shift).toNat
  let q := num / den
  if num % den = 0 then
    let (q, place) := stripZeros (digitCount q) q (ideal - shift) ideal
    round negative q place false
  else round negative q (ideal - shift) true

def div (a b : Decimal) : Except Fault Decimal :=
  match ofNaN? a b with
  | some r => r
  | none =>
    match a, b with
    | infinity _, infinity _ => .error .invalidOperation
    | infinity n, finite n' _ _ => .ok (infinity (n != n'))
    | finite n _ _, infinity n' => .ok (finite (n != n') 0 minExponent)
    | finite n c e, finite n' c' e' =>
        if c' = 0 then
          if c = 0 then .error .invalidOperation else .error .divisionByZero
        else if c = 0 then round (n != n') 0 (e - e') false
        else divFinite (n != n') c e c' e'
    | a, _ => .ok a

/-- The sum from left to right, starting at zero. -/
def sum (xs : List Decimal) : Except Fault Decimal := xs.foldlM add zero

/-- The number without its fraction. -/
def truncate : Decimal → Except Fault Int
  | nan .. => .error .integerOfNaN
  | infinity _ => .error .integerOfInfinity
  | finite n c e =>
      .ok <| signed n <|
        if 0 ≤ e then lowered c e 0
        else if digitCount c < (-e).toNat then 0
        else c / tenTo (-e).toNat

/-- The nearest whole number; a half goes away from zero. -/
def nearestInt : Decimal → Except Fault Int
  | nan _ true _ => .error .invalidOperation
  | nan .. => .error .integerOfNaN
  | infinity _ => .error .integerOfInfinity
  | finite n c e =>
      .ok <| signed n <|
        if 0 ≤ e then lowered c e 0
        else if digitCount c < (-e).toNat then 0
        else (2 * c + tenTo (-e).toNat) / (2 * tenTo (-e).toNat)

/-- The greatest whole number that is not above. -/
def floorInt : Decimal → Except Fault Int
  | nan _ true _ => .error .invalidOperation
  | nan .. => .error .integerOfNaN
  | infinity _ => .error .integerOfInfinity
  | finite n c e =>
      .ok <|
        if 0 ≤ e then signed n (lowered c e 0)
        else if digitCount c < (-e).toNat then (if n && c != 0 then -1 else 0)
        else Int.fdiv (signed n c) (Int.ofNat (tenTo (-e).toNat))

end Decimal
end Backtesting
