import Backtesting.Decimal.Arithmetic
import Backtesting.Error

/-!
Documents read as numbers. A decimal is read from the plain text of the value, so a binary number
counts as its shortest digits; a whole number drops the fraction of a number, but a text must be a
whole number already.
-/
namespace Backtesting

def Decimal.lift (r : Except Decimal.Fault α) : Except Error α := r.mapError .decimal

namespace Document

def toDecimal : Document → Except Error Decimal
  | integer i => .ok (Decimal.ofInt i)
  | x => Decimal.lift (Decimal.ofText x.plainText)

def intOfText (s : String) : Except Error Int :=
  let cs := (Text.trimList s.toList).map Binary64.asciiDigit
  match (Binary64.withoutSeparators? cs).bind Binary64.signedInt? with
  | some i => .ok i
  | none => .error .unreadableNumber

def truncated (x : Float) : Except Error Int :=
  match Binary64.parts x with
  | .nan => .error .notANumber
  | .infinity _ => .error .infiniteNumber
  | .finite n m q =>
      let i := Int.ofNat (if 0 ≤ q then m * twoTo q.toNat else m / twoTo (-q).toNat)
      .ok (if n then -i else i)

def toInt : Document → Except Error Int
  | integer i => .ok i
  | bool b => .ok (if b then 1 else 0)
  | number x => truncated x
  | text s => intOfText s
  | _ => .error .wrongType

def toFloat : Document → Except Error Float
  | number x => .ok x
  | integer i => match Binary64.ofInt? i with
    | some x => .ok x
    | none => .error .numberTooLarge
  | bool b => .ok (if b then 1 else 0)
  | text s => match Binary64.ofText? s with
    | some x => .ok x
    | none => .error .unreadableNumber
  | _ => .error .wrongType

/-- The whole number that a value counts as in sums. -/
def whole? : Document → Option Int
  | integer i => some i
  | bool b => some (if b then 1 else 0)
  | _ => none

/-- The sum of two numbers, or two texts or two lists put together. -/
def plus (x y : Document) : Except Error Document :=
  match x.whole?, y.whole? with
  | some i, some j => .ok (integer (i + j))
  | _, _ =>
    match x, y with
    | text s, text t => .ok (text (s ++ t))
    | list xs, list ys => .ok (list (xs ++ ys))
    | number _, integer _ | number _, bool _ | number _, number _ | integer _, number _
    | bool _, number _ => do pure (number ((← x.toFloat) + (← y.toFloat)))
    | _, _ => .error .wrongType

end Document

/-- A sum of money, a price or a ratio as it is handed in: known, or still to be read. -/
inductive Amount
  | known (value : Decimal)
  | written (value : Document)
deriving Inhabited

namespace Amount

def read : Amount → Except Error Decimal
  | known x => .ok x
  | written x => x.toDecimal

def text : Amount → String
  | known x => x.toText
  | written x => x.plainText

instance : Coe Decimal Amount := ⟨known⟩

end Amount
end Backtesting
