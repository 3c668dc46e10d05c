import Backtesting.Error
import Backtesting.Text.Blank

/-!
Dates as text: year, month and day with hyphens, with slashes or without anything between them. The
year has four digits, month and day one or two. Where no separator stands between them the longer
month is tried first, and every choice that lets the rest begin a date is final.
-/
namespace Backtesting.Date

/-- The readings of the month at the start of a text, in order of preference. -/
def monthReadings : List Char → List (Nat × List Char)
  | a :: b :: cs =>
      (if a = '1' ∧ '0' ≤ b ∧ b ≤ '2' then [(10 + (b.toNat - '0'.toNat), cs)] else []) ++
      (if a = '0' ∧ '1' ≤ b ∧ b ≤ '9' then [(b.toNat - '0'.toNat, cs)] else []) ++
      (if '1' ≤ a ∧ a ≤ '9' then [(a.toNat - '0'.toNat, b :: cs)] else [])
  | [a] => if '1' ≤ a ∧ a ≤ '9' then [(a.toNat - '0'.toNat, [])] else []
  | [] => []

/-- The first reading of the day at the start of a text. A blank may stand for its first digit. -/
def dayReading? : List Char → Option (Nat × List Char)
  | a :: b :: cs =>
      if a = '3' ∧ (b = '0' ∨ b = '1') then some (30 + (b.toNat - '0'.toNat), cs)
      else match (if a = '1' ∨ a = '2' then Text.digitValue? b else none) with
        | some n => some ((a.toNat - '0'.toNat) * 10 + n, cs)
        | none =>
          if a = '0' ∧ '1' ≤ b ∧ b ≤ '9' then some (b.toNat - '0'.toNat, cs)
          else if '1' ≤ a ∧ a ≤ '9' then some (a.toNat - '0'.toNat, b :: cs)
          else if a = ' ' ∧ '1' ≤ b ∧ b ≤ '9' then some (b.toNat - '0'.toNat, cs)
          else none
  | [a] => if '1' ≤ a ∧ a ≤ '9' then some (a.toNat - '0'.toNat, []) else none
  | [] => none

def yearReading? : List Char → Option (Nat × List Char)
  | a :: b :: c :: d :: cs => do
      let a ← Text.digitValue? a
      let b ← Text.digitValue? b
      let c ← Text.digitValue? c
      let d ← Text.digitValue? d
      some (((a * 10 + b) * 10 + c) * 10 + d, cs)
  | _ => none

def separated? (separator : Option Char) (cs : List Char) : Option (List Char) :=
  match separator, cs with
  | none, cs => some cs
  | some s, c :: cs => if c = s then some cs else none
  | some _, [] => none

/-- Year, month and day at the start of a text and what follows them. -/
def readings? (separator : Option Char) (cs : List Char) :
    Option ((Nat × Nat × Nat) × List Char) := do
  let (y, cs) ← yearReading? cs
  let cs ← separated? separator cs
  (monthReadings cs).findSome? fun (m, cs) => do
    let cs ← separated? separator cs
    let (d, cs) ← dayReading? cs
    some ((y, m, d), cs)

def ofFormat? (separator : Option Char) (cs : List Char) : Option Date :=
  match readings? separator cs with
  | some ((y, m, d), []) => ofParts? y m d
  | _ => none

/-- Of a text with separators only the first ten characters count, which leaves out a time of
day. -/
def ofText? (s : String) : Option Date :=
  let cs := Text.trimList s.toList
  let dated := if cs.contains '-' || cs.contains '/' then cs.take 10 else cs
  (ofFormat? (some '-') dated).orElse fun _ =>
    (ofFormat? (some '/') dated).orElse fun _ => ofFormat? none dated

def read (x : Document) : Except Error Date :=
  match x with
  | .date d => .ok d
  | x => match ofText? x.plainText with
    | some d => .ok d
    | none => .error (.unreadableDate x)

/-- A date that may be left out. -/
def readOptional : Document → Except Error (Option Date)
  | .null => .ok none
  | x => (read x).map some

end Backtesting.Date
