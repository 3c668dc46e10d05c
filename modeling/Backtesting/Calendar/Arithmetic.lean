import Backtesting.Calendar.Date
import Backtesting.Error

/-!
Moving through the calendar by days, months and years. A month that is too short for the day takes
its last day instead.
-/
namespace Backtesting.Date

def addDays (d : Date) (n : Int) : Except Error Date :=
  match ofOrdinal? ((d.ordinal : Int) + n) with
  | some d => .ok d
  | none => .error .daysOutOfRange

/-- The years that can be asked for at all; of these, those of the calendar have dates. -/
def yearLimit : Int := 2147483648

def addMonths (d : Date) (n : Int) : Except Error Date :=
  let index : Int := d.month - 1 + n
  let year := (d.year : Int) + Int.fdiv index 12
  let month := (Int.fmod index 12).toNat + 1
  if year < -yearLimit ∨ yearLimit ≤ year then .error .numberTooLarge
  else match ofParts? year.toNat month (min d.day (daysInMonth year.toNat month)) with
    | some d => .ok d
    | none => .error .dateOutOfRange

def addYears (d : Date) (n : Int) : Except Error Date := addMonths d (12 * n)

def isWithin (d : Date) (start finish : Option Date) : Bool :=
  !start.any (d < ·) && !finish.any (· < d)

/-- The days from `first` on, `count` of them or up to the end of the calendar. -/
def daysFrom (first : Date) (count : Nat) : List Date :=
  (List.range count).filterMap fun (k : Nat) => ofOrdinal? ((first.ordinal + k : Nat) : Int)

/-- Monday to Friday, both ends included. -/
def businessDays (first last : Date) : List Date :=
  (daysFrom first (last.ordinal + 1 - first.ordinal)).filter (·.weekday < 5)

def insertSorted (d : Date) : List Date → List Date
  | [] => [d]
  | e :: l => if d < e then d :: e :: l else if d = e then e :: l else e :: insertSorted d l

/-- The days in ascending order, each once. -/
def sortedSet (ds : List Date) : List Date := ds.foldl (fun acc d => insertSorted d acc) []

end Backtesting.Date
