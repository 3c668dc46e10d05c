/-!
What is reported along the way: texts, each with a level that says how much it matters.
-/
namespace Backtesting

inductive Level
  | debug | info | warning | error
deriving DecidableEq, Repr

namespace Level

def label : Level → String
  | debug => "DEBUG"
  | info => "INFO"
  | warning => "WARNING"
  | error => "ERROR"

end Level

structure LogEntry where
  level : Level
  text : String
deriving DecidableEq, Repr

namespace LogEntry

def info (text : String) : LogEntry := ⟨.info, text⟩

end LogEntry
end Backtesting
