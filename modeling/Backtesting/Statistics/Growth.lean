import Backtesting.Binary64.Basic
import Backtesting.Error

/-!
Powers of binary numbers with any exponent. A negative number to a fractional power is complex. A
zero has no negative power, and a power that leaves the range of the finite numbers is refused.
-/
namespace Backtesting

inductive Growth
  | real (value : Float)
  | complex (re im : Float)

namespace Growth

def isWhole (x : Float) : Bool := x.floor == x

def isOdd (x : Float) : Bool := x / 2 - (x / 2).floor == 0.5

/-- An infinite number to a power that is not zero. -/
def infinitePower (base exponent : Float) : Float :=
  if 0 < exponent then (if isOdd exponent then base else base.abs)
  else if isOdd exponent && base < 0 then -0.0 else 0

/-- A number to an infinite power. -/
def powerAtInfinity (base exponent : Float) : Float :=
  let size := base.abs
  if size == 1 then 1
  else if (0 < exponent) == (1 < size) then exponent.abs
  else 0

def zeroPower (base exponent : Float) : Except Error Growth :=
  if exponent < 0 then .error .floatDivisionByZero
  else .ok (real (if isOdd exponent then base else 0))

def finitePower (base exponent : Float) : Except Error Growth :=
  let value := base.pow exponent
  if value.isInf then .error .numberTooLarge else .ok (real value)

/-- A negative number to a fractional power, by its absolute value and its angle. -/
def complexPower (base exponent : Float) : Except Error Growth :=
  let size := base.abs.pow exponent
  let angle := Float.atan2 0 base * exponent
  let re := size * angle.cos
  let im := size * angle.sin
  if re.isInf || im.isInf then .error .numberTooLarge else .ok (complex re im)

def power (base exponent : Float) : Except Error Growth :=
  if exponent == 0 then .ok (real 1)
  else if base.isNaN then .ok (real base)
  else if exponent.isNaN then .ok (real (if base == 1 then 1 else exponent))
  else if exponent.isInf then .ok (real (powerAtInfinity base exponent))
  else if base.isInf then .ok (real (infinitePower base exponent))
  else if base == 0 then zeroPower base exponent
  else if base < 0 && !isWhole exponent then complexPower base exponent
  else finitePower base exponent

/-- The growth over one: what was gained. -/
def gain : Growth → Growth
  | real x => real (x - 1)
  | complex re im => complex (re - 1) (im - 0)

def percent : Growth → Growth
  | real x => real (x * 100)
  | complex re im => complex (re * 100 - im * 0) (re * 0 + im * 100)

end Growth
end Backtesting
