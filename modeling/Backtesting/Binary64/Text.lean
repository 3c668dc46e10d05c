import Backtesting.Binary64.Digits
import Backtesting.Text.Blank
import Backtesting.Text.Digit

/-!
Binary numbers as text. `toText` writes the shortest digits, positional from 10 ^ -4 up to below
10 ^ 16; `toScientific` and `toFixed` write a fixed number of digits. Reading takes any script's
digits, with single underscores between digits.
-/
namespace Backtesting.Binary64

def signText (negative : Bool) : String := if negative then "-" else ""

def exponentText (e : Int) : String :=
  (if e < 0 then "e-" else "e+") ++ Text.padded 2 e.natAbs

def mantissaText : List Char → String
  | [] => ""
  | [d] => String.singleton d
  | d :: ds => String.ofList (d :: '.' :: ds)

def positionalText (c : Nat) (e : Int) : String :=
  let ds := Nat.toDigits 10 c
  if 0 ≤ e then String.ofList (ds ++ List.replicate e.toNat '0') ++ ".0"
  else
    let ds := List.replicate (e.natAbs + 1 - ds.length) '0' ++ ds
    let cut := ds.length - e.natAbs
    String.ofList (ds.take cut ++ '.' :: ds.drop cut)

def toText (x : Float) : String :=
  match parts x with
  | .nan => "nan"
  | .infinity n => signText n ++ "inf"
  | .finite n 0 _ => signText n ++ "0.0"
  | .finite n m q =>
      let (c, e) := shortest m q
      let top := e + Decimal.digitCount c - 1
      signText n ++
        if -4 ≤ top ∧ top < 16 then positionalText c e
        else mantissaText (Nat.toDigits 10 c) ++ exponentText top

/-- One digit before the point and `decimals` after it. -/
def toScientific (decimals : Nat) (x : Float) : String :=
  match parts x with
  | .nan => "nan"
  | .infinity n => signText n ++ "inf"
  | .finite n 0 _ => signText n ++ mantissaText (List.replicate (decimals + 1) '0') ++ exponentText 0
  | .finite n m q =>
      let (c, e) := significant (decimals + 1) m q
      signText n ++ mantissaText (Nat.toDigits 10 c) ++ exponentText (e + decimals)

/-- `decimals` digits after the point. -/
def toFixed (decimals : Nat) (x : Float) : String :=
  match parts x with
  | .nan => "nan"
  | .infinity n => signText n ++ "inf"
  | .finite n m q =>
      let ds := (Text.padded (decimals + 1) (places decimals m q)).toList
      let cut := ds.length - decimals
      signText n ++ String.ofList (ds.take cut ++ (if decimals = 0 then [] else '.' :: ds.drop cut))

/-- Underscores may stand between two digits only; they are dropped. -/
def withoutSeparators? : List Char → Option (List Char)
  | [] => some []
  | [c] => if c = '_' then none else some [c]
  | c :: d :: rest =>
      if d = '_' then
        match rest with
        | f :: _ => if c.isDigit && f.isDigit then (withoutSeparators? rest).map (c :: ·) else none
        | [] => none
      else if c = '_' then none
      else (withoutSeparators? (d :: rest)).map (c :: ·)

def asciiDigit (c : Char) : Char :=
  match Text.digitValue? c with
  | some d => Char.ofNat ('0'.toNat + d)
  | none => c

def signedInt? : List Char → Option Int
  | '-' :: cs => (Text.nat? cs).map fun n => -n
  | '+' :: cs => (Text.nat? cs).map fun n => n
  | cs => (Text.nat? cs).map fun n => n

def unsigned? (negative : Bool) (cs : List Char) : Option Float :=
  let lower := cs.map Char.toLower
  if lower = "inf".toList ∨ lower = "infinity".toList then some (infinity negative)
  else if lower = "nan".toList then some nan
  else do
    let mantissa := lower.takeWhile (· != 'e')
    let whole := mantissa.takeWhile (· != '.')
    let fraction := (mantissa.dropWhile (· != '.')).drop 1
    let c ← Text.nat? (whole ++ fraction)
    let e ← match lower.dropWhile (· != 'e') with
      | [] => some 0
      | _ :: rest => signedInt? rest
    some (ofScaled negative c (e - fraction.length))

def ofText? (s : String) : Option Float := do
  let cs ← withoutSeparators? ((Text.trimList s.toList).map asciiDigit)
  match cs with
  | '-' :: cs => unsigned? true cs
  | '+' :: cs => unsigned? false cs
  | cs => unsigned? false cs

end Backtesting.Binary64
