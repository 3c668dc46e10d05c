import Backtesting.Document.Basic
import Backtesting.Error

/-!
The values of words that stand in a text without quotes: nothing, truth values, whole numbers to the
bases 2, 8, 10, 16 and 60, binary numbers, which need a point, and dates. All else is a text.
-/
namespace Backtesting.Document.Scalar

def nullWords : List String := ["", "~", "null", "Null", "NULL"]

def trueWords : List String := ["true", "True", "TRUE", "yes", "Yes", "YES", "on", "On", "ON"]

def falseWords : List String := ["false", "False", "FALSE", "no", "No", "NO", "off", "Off", "OFF"]

/-- The sign of a number and what follows it. -/
def signed : List Char → Bool × List Char
  | '-' :: cs => (true, cs)
  | '+' :: cs => (false, cs)
  | cs => (false, cs)

def digitOf? (base : Nat) (c : Char) : Option Nat :=
  let n :=
    if '0' ≤ c ∧ c ≤ '9' then c.toNat - '0'.toNat
    else if 'a' ≤ c ∧ c ≤ 'f' then c.toNat - 'a'.toNat + 10
    else if 'A' ≤ c ∧ c ≤ 'F' then c.toNat - 'A'.toNat + 10
    else base
  if n < base then some n else none

/-- The number of digits to a base; underscores between them do not count. -/
def natOf? (base : Nat) (cs : List Char) : Option Nat := do
  let digits := cs.filter (· ≠ '_')
  if digits.isEmpty then none
  else do
    let ds ← digits.mapM (digitOf? base)
    some (ds.foldl (fun n d => base * n + d) 0)

def isSixtieth (cs : List Char) : Bool :=
  match cs with
  | [a] => a.isDigit
  | [a, b] => '0' ≤ a && a ≤ '5' && b.isDigit
  | _ => false

def isDigits (cs : List Char) : Bool := cs.all fun c => c.isDigit || c == '_'

def startsWithDigit : List Char → Bool
  | c :: _ => c.isDigit
  | [] => false

/-- Parts to the base 60, the first of any size. -/
def sixtieths? (parts : List (List Char)) : Option Nat := do
  match parts with
  | first :: rest =>
      if startsWithDigit first && isDigits first && !rest.isEmpty && rest.all isSixtieth then do
        let ns ← (first :: rest).mapM (natOf? 10)
        some (ns.foldl (fun n d => 60 * n + d) 0)
      else none
  | [] => none

def partsOf (separator : Char) (cs : List Char) : List (List Char) :=
  ((String.ofList cs).splitOn (String.singleton separator)).map String.toList

def whole? (cs : List Char) : Option Nat :=
  match cs with
  | ['0'] => some 0
  | '0' :: 'b' :: ds => natOf? 2 ds
  | '0' :: 'x' :: ds => natOf? 16 ds
  | '0' :: ds => natOf? 8 ds
  | _ =>
      if startsWithDigit cs && isDigits cs then natOf? 10 cs
      else sixtieths? (partsOf ':' cs)

/-- An exponent with its sign, or none at all. -/
def isExponent (cs : List Char) : Bool :=
  match cs with
  | [] => true
  | e :: s :: ds =>
      (e == 'e' || e == 'E') && (s == '-' || s == '+') && !ds.isEmpty && ds.all Char.isDigit
  | _ => false

/-- Digits around a point. A number without a sign may begin with the point. -/
def isReal (isBare : Bool) (cs : List Char) : Bool :=
  let before := cs.takeWhile (· != '.')
  let after := (cs.dropWhile (· != '.')).drop 1
  let fraction := after.takeWhile fun c => c.isDigit || c == '_'
  let exponent := after.drop fraction.length
  cs.contains '.' && isDigits before && isExponent exponent &&
    (if before.isEmpty then isBare && startsWithDigit fraction else startsWithDigit before)

def real? (negative isBare : Bool) (cs : List Char) : Option Float :=
  if ["inf", "Inf", "INF"].contains (String.ofList (cs.drop 1)) && cs.head? == some '.' then
    some (Binary64.infinity negative)
  else if isReal isBare cs then
    let digits := cs.filter (· ≠ '_')
    Binary64.ofText? (String.ofList (if negative then '-' :: digits else digits))
  else none

def isDateShape (cs : List Char) : Bool :=
  match cs with
  | [a, b, c, d, '-', e, f, '-', g, h] => [a, b, c, d, e, f, g, h].all Char.isDigit
  | _ => false

def date? (cs : List Char) : Option Date := do
  let y ← natOf? 10 (cs.take 4)
  let m ← natOf? 10 ((cs.drop 5).take 2)
  let d ← natOf? 10 (cs.drop 8)
  Date.ofParts? y m d

/-- The value of a word. Only a date that the calendar does not have is refused. -/
def read (s : String) : Except Error Document :=
  let cs := s.toList
  let (negative, digits) := signed cs
  if nullWords.contains s then .ok null
  else if trueWords.contains s then .ok (bool true)
  else if falseWords.contains s then .ok (bool false)
  else if isDateShape cs then
    match date? cs with
    | some d => .ok (date d)
    | none => .error .dateOutOfRange
  else if [".nan", ".NaN", ".NAN"].contains s then .ok (number Binary64.nan)
  else match whole? digits with
    | some n => .ok (integer (if negative then -n else n))
    | none => match real? negative (digits.length == cs.length) digits with
      | some x => .ok (number x)
      | none => .ok (text s)

end Backtesting.Document.Scalar
