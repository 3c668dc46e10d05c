import Backtesting.Decimal.Basic
import Backtesting.Text.Blank
import Backtesting.Text.Digit

/-!
Decimals as text. A number is written in plain notation when its exponent is at most zero and its
leading digit is not below the sixth place after the point, else in scientific notation with one
digit before the point; no digit is dropped. Reading admits any script's digits, blanks around the
number and underscores anywhere in it.
-/
namespace Backtesting
namespace Decimal

def digitChars (c : Nat) : List Char := Nat.toDigits 10 c

def exponentText (e : Int) : List Char :=
  'E' :: (if e < 0 then '-' else '+') :: Nat.toDigits 10 e.natAbs

def finiteText (c : Nat) (e : Int) : List Char :=
  let ds := digitChars c
  let adjusted : Int := e + ds.length - 1
  if e ≤ 0 ∧ -6 ≤ adjusted then
    if e = 0 then ds
    else
      let places := e.natAbs
      let ds := List.replicate (places + 1 - ds.length) '0' ++ ds
      ds.take (ds.length - places) ++ '.' :: ds.drop (ds.length - places)
  else
    match ds with
    | d :: [] => d :: exponentText adjusted
    | d :: ds => d :: '.' :: ds ++ exponentText adjusted
    | [] => []

def toText (x : Decimal) : String :=
  String.ofList <| match x with
    | finite n c e => (if n then ['-'] else []) ++ finiteText c e
    | infinity n => (if n then ['-'] else []) ++ "Infinity".toList
    | nan n s p =>
        (if n then ['-'] else []) ++ (if s then ['s'] else []) ++ "NaN".toList ++
          (if p = 0 then [] else Nat.toDigits 10 p)

instance : ToString Decimal := ⟨toText⟩

/-- The greatest exponent in absolute value that a written number may have. -/
def writtenLimit : Int := 999999999999999999

def int? : List Char → Option Int
  | '-' :: cs => (Text.nat? cs).map fun n => -n
  | '+' :: cs => (Text.nat? cs).map fun n => n
  | cs => (Text.nat? cs).map fun n => n

/-- Digits with at most one point among them: the coefficient and the number of places after the
point. -/
def coefficient? (cs : List Char) : Option (Nat × Nat) :=
  let whole := cs.takeWhile (· != '.')
  let fraction := (cs.dropWhile (· != '.')).drop 1
  (Text.nat? (whole ++ fraction)).map fun c => (c, fraction.length)

def unsigned? (negative : Bool) (cs : List Char) : Option Decimal :=
  let lower := cs.map Char.toLower
  if lower = "inf".toList ∨ lower = "infinity".toList then some (infinity negative)
  else if lower.take 3 = "nan".toList then
    if lower.length = 3 then some (nan negative false 0)
    else (Text.nat? (lower.drop 3)).map (nan negative false)
  else if lower.take 4 = "snan".toList then
    if lower.length = 4 then some (nan negative true 0)
    else (Text.nat? (lower.drop 4)).map (nan negative true)
  else do
    let (c, places) ← coefficient? (lower.takeWhile (· != 'e'))
    let e ← match lower.dropWhile (· != 'e') with
      | [] => some 0
      | _ :: rest => int? rest
    let e := e - places
    let top := if c = 0 then e else e + digitCount c - 1
    if writtenLimit < top ∨ e < -(2 * writtenLimit - 1) then none
    else some (finite negative c e)

/-- A character as it counts in a number, `none` where it cannot stand in one. -/
def plainChar? (c : Char) : Option Char :=
  if c.toNat < 128 then some c
  else (Text.digitValue? c).map fun d => Char.ofNat ('0'.toNat + d)

def parse? (s : String) : Option Decimal := do
  let cs ← ((Text.trimList s.toList).filter (· != '_')).mapM plainChar?
  match cs with
  | '-' :: cs => unsigned? true cs
  | '+' :: cs => unsigned? false cs
  | cs => unsigned? false cs

/-- The number written in `s`, exactly: reading never rounds. -/
def ofText (s : String) : Except Fault Decimal :=
  match parse? s with
  | some x => .ok x
  | none => .error .badText

end Decimal
end Backtesting
