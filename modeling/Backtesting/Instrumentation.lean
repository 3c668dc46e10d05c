import Backtesting.Action
import Backtesting.Document.Json
import Backtesting.Document.Number
import Backtesting.Journal
import Backtesting.OrderedMap

/-!
What a run tells about itself: how long its parts took, in the order in which they came to an end,
and counters. The clock is read by the caller. Instruments that are off keep nothing; silent ones do
not even report.
-/
namespace Backtesting

/-- Seconds on the clock at which something was started, by name. -/
structure Stopwatch where
  isEnabled : Bool
  started : OrderedMap String Float

namespace Stopwatch

def new (isEnabled : Bool) : Stopwatch := ⟨isEnabled, OrderedMap.empty⟩

def start (w : Stopwatch) (name : String) (now : Float) : Stopwatch :=
  if w.isEnabled then { w with started := w.started.put name now } else w

/-- The seconds since the start; none have passed where nothing was started. -/
def stop (w : Stopwatch) (name : String) (now : Float) : Stopwatch × Float :=
  match w.started.get? name with
  | some begun => ({ w with started := w.started.erase name }, now - begun)
  | none => (w, 0)

end Stopwatch

/-- The seconds of each part of a run. -/
abbrev Timeline := OrderedMap String Float

namespace Timeline

def leftAligned (width : Nat) (s : String) : String :=
  s ++ String.ofList (List.replicate (width - s.length) ' ')

def rightAligned (width : Nat) (s : String) : String :=
  String.ofList (List.replicate (width - s.length) ' ') ++ s

def seconds (x : Float) : String := rightAligned 8 (Binary64.toFixed 3 x)

def line (name : String) (x : Float) : String :=
  s!"[Timeline] {leftAligned 30 name} {seconds x}s"

/-- The parts of a run and their total. -/
def report (t : Timeline) (runId : String) : List String :=
  let total := t.values.foldl (· + ·) 0
  let blanks := leftAligned 27 ""
  [s!"[Timeline] ===== Backtest timeline for run {runId} ====="] ++
    t.toList.map (fun (name, x) => line name x) ++
    [s!"[Timeline] Total{blanks} {seconds total}s",
      "[Timeline] ==========================================="]

end Timeline

inductive Watching
  | on | off | silent
deriving DecidableEq, Repr

structure Instrumentation where
  watching : Watching
  stopwatch : Stopwatch
  timeline : Timeline
  counters : OrderedMap String Document
  journal : List LogEntry

namespace Instrumentation

def new (watching : Watching) : Instrumentation :=
  ⟨watching, Stopwatch.new (watching = .on), OrderedMap.empty, OrderedMap.empty, []⟩

def isOn (i : Instrumentation) : Bool := i.watching = .on

def log (i : Instrumentation) (texts : List String) : Instrumentation :=
  { i with journal := i.journal ++ texts.map LogEntry.info }

def start (i : Instrumentation) (name : String) (now : Float) : Instrumentation :=
  { i with stopwatch := i.stopwatch.start name now }

/-- Ends a part of the run, which has a place on the timeline if it is a recorded one. -/
def stop (i : Instrumentation) (name : String) (recorded : Bool) (now : Float) : Instrumentation :=
  let (w, elapsed) := i.stopwatch.stop name now
  let timeline := if i.isOn && recorded then i.timeline.put name elapsed else i.timeline
  { i with stopwatch := w, timeline }

def record (i : Instrumentation) (name : String) (value : Document) : Instrumentation :=
  if i.isOn then
    { i with counters := i.counters.put name value }.log [s!"[Metric] {name} = {value.plainText}"]
  else i

/-- Adds to a counter, which starts at zero. -/
def increment (i : Instrumentation) (name : String) (by_ : Document) :
    Except Error Instrumentation :=
  if i.isOn then do
    let sum ← (i.counters.getD name (.integer 0)).plus by_
    pure { i with counters := i.counters.put name sum }
  else .ok i

def report (i : Instrumentation) (runId : String) : Instrumentation :=
  match i.watching with
  | .silent => i
  | _ => i.log (i.timeline.report runId)

end Instrumentation

/-- What is reported about a call: its named inputs, its result and its failure. -/
structure CallLog where
  message : String
  inputs : Bool
  outputs : Bool

namespace CallLog

def standard : CallLog := ⟨"Exception occurred", false, false⟩

/-- The entries of a call of the function `name`, in order. -/
def entries (l : CallLog) (name : String) (inputs : Document) (result : Except Error Document) :
    List LogEntry :=
  let shown := Document.Json.render ⟨none, false⟩ inputs
  let called := if l.inputs then [LogEntry.info s!"[CALL] {name} args=(), kwargs={shown}"] else []
  called ++ match result with
    | .error _ => [⟨.error, s!"[ERROR] {name}: {l.message}"⟩]
    | .ok x => if l.outputs then [.info s!"[RETURN] {name} result={x.plainText}"] else []

end CallLog
end Backtesting
