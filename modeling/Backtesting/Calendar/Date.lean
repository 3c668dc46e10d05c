import Backtesting.Text.Digit

/-!
Days of the Gregorian calendar from year 1 to 9999. Days are ordered by `place`, which leaves room
for 31 days in every month; `ordinal` counts days without gaps, the first day being number 1.
-/
namespace Backtesting

def isLeapYear (year : Nat) : Bool := year % 4 == 0 && (year % 100 != 0 || year % 400 == 0)

def daysInMonth (year month : Nat) : Nat :=
  if month = 2 then (if isLeapYear year then 29 else 28)
  else if month = 4 ∨ month = 6 ∨ month = 9 ∨ month = 11 then 30
  else 31

structure Date where
  year : Nat
  month : Nat
  day : Nat
  year_bounds : 1 ≤ year ∧ year ≤ 9999
  month_bounds : 1 ≤ month ∧ month ≤ 12
  day_bounds : 1 ≤ day ∧ day ≤ daysInMonth year month
deriving DecidableEq

namespace Date

instance : Inhabited Date := ⟨⟨1, 1, 1, by decide, by decide, by decide⟩⟩

def ofParts? (year month day : Nat) : Option Date :=
  if h : (1 ≤ year ∧ year ≤ 9999) ∧ (1 ≤ month ∧ month ≤ 12) ∧
      1 ≤ day ∧ day ≤ daysInMonth year month then
    some ⟨year, month, day, h.1, h.2.1, h.2.2⟩
  else none

def place (d : Date) : Nat := (d.year * 12 + d.month) * 32 + d.day

instance : LT Date := ⟨fun a b => a.place < b.place⟩

instance : LE Date := ⟨fun a b => a.place ≤ b.place⟩

instance (a b : Date) : Decidable (a < b) := inferInstanceAs (Decidable (a.place < b.place))

instance (a b : Date) : Decidable (a ≤ b) := inferInstanceAs (Decidable (a.place ≤ b.place))

theorem lt_iff (a b : Date) : a < b ↔ a.place < b.place := Iff.rfl

theorem le_iff (a b : Date) : a ≤ b ↔ a.place ≤ b.place := Iff.rfl

theorem daysInMonth_le (year month : Nat) : daysInMonth year month ≤ 31 := by
  unfold daysInMonth
  split
  · split <;> omega
  · split <;> omega

theorem eq_of_place_eq {a b : Date} (h : a.place = b.place) : a = b := by
  obtain ⟨y, m, d, hy, hm, hd⟩ := a
  obtain ⟨y', m', d', hy', hm', hd'⟩ := b
  have h₁ := daysInMonth_le y m
  have h₂ := daysInMonth_le y' m'
  simp only [place] at h
  obtain rfl : y = y' := by omega
  obtain rfl : m = m' := by omega
  obtain rfl : d = d' := by omega
  rfl

theorem lt_irrefl (a : Date) : ¬ a < a := Nat.lt_irrefl _

theorem lt_trans {a b c : Date} (h : a < b) (h' : b < c) : a < c := Nat.lt_trans h h'

theorem lt_or_eq_of_not_lt {a b : Date} (h : ¬ a < b) : b < a ∨ a = b := by
  by_cases h' : b < a
  · exact Or.inl h'
  · exact Or.inr (eq_of_place_eq (Nat.le_antisymm (Nat.le_of_not_lt h') (Nat.le_of_not_lt h)))

/-- Days before the first of the year. -/
def daysBeforeYear (year : Nat) : Nat :=
  let y := year - 1
  y * 365 + y / 4 - y / 100 + y / 400

/-- Days of the year before the first of the month. -/
def daysBeforeMonth (year month : Nat) : Nat :=
  (List.range (month - 1)).foldl (fun days m => days + daysInMonth year (m + 1)) 0

def ordinal (d : Date) : Nat := daysBeforeYear d.year + daysBeforeMonth d.year d.month + d.day

def yearOfOrdinal (n : Nat) : Nat :=
  let guess := n / 366 + 1
  let later := ((List.range 32).map (guess + ·)).filter fun y => daysBeforeYear y < n
  (later.getLast?).getD 1

def monthOfDay (year day : Nat) : Nat :=
  (((List.range 12).map (· + 1)).filter fun m => daysBeforeMonth year m < day).getLast?.getD 1

/-- The day of number `n`, `none` beyond the calendar. -/
def ofOrdinal? (n : Int) : Option Date :=
  if n < 1 then none
  else
    let n := n.toNat
    let year := yearOfOrdinal n
    let day := n - daysBeforeYear year
    let month := monthOfDay year day
    ofParts? year month (day - daysBeforeMonth year month)

/-- Days from `a` to `b`, negative when `b` is the earlier. -/
def daysBetween (a b : Date) : Int := (b.ordinal : Int) - a.ordinal

/-- Monday is 0. -/
def weekday (d : Date) : Nat := (d.ordinal + 6) % 7

def toText (d : Date) : String :=
  Text.padded 4 d.year ++ "-" ++ Text.padded 2 d.month ++ "-" ++ Text.padded 2 d.day

instance : ToString Date := ⟨toText⟩

end Date
end Backtesting
