import Backtesting.Calendar.Arithmetic
import Backtesting.Text.Blank
import Backtesting.Text.Upper

/-!
How often a portfolio is brought back to its weights.
-/
namespace Backtesting

inductive Frequency
  | never | daily | weekly | monthly | quarterly | annually
deriving DecidableEq, Repr, Inhabited

namespace Frequency

def label : Frequency → String
  | never => "Never"
  | daily => "Daily"
  | weekly => "Weekly"
  | monthly => "Monthly"
  | quarterly => "Quarterly"
  | annually => "Annually"

def all : List Frequency := [never, daily, weekly, monthly, quarterly, annually]

/-- A frequency by its name in any case, with blanks around it. -/
def read (x : Document) : Except Error Frequency :=
  let name := Text.upper (Text.trim x.plainText)
  match all.find? fun f => f.label.map Char.toUpper == name with
  | some f => .ok f
  | none => .error (.unsupportedFrequency x)

/-- The day on which the next period after `d` begins. -/
def next (f : Frequency) (d : Date) : Except Error (Option Date) :=
  match f with
  | never => .ok none
  | daily => (d.addDays 1).map some
  | weekly => (d.addDays 7).map some
  | monthly => (d.addMonths 1).map some
  | quarterly => (d.addMonths 3).map some
  | annually => (d.addYears 1).map some

end Frequency
end Backtesting
