import Backtesting.Config.Components
import Backtesting.Instrumentation
import Backtesting.Market.Source
import Backtesting.Metrics
import Backtesting.Replay
import Backtesting.Report
import Backtesting.Snapshot

/-!
A run of a configured backtest from its data to its reports. A run goes through stages, and each
stage through parts, some of which are timed; a part that fails ends the run. What a stage finds is
kept for the stages after it, which fail where it is missing.
-/
namespace Backtesting

structure Run where
  config : BacktestConfig
  id : String
  directory : Path
  files : FileTree
  instruments : Instrumentation
  data : Option MarketTables
  portfolio : Option Portfolio
  benchmark : Option Portfolio
  days : Nat
  tearsheet : Option Tearsheet
  result : Option Result
  metrics : Option Metrics

/-- A piece of work, with the name under which its time is taken. -/
structure Part where
  timer : Option String
  work : Action Run Unit

namespace Part

def timed (name : String) (work : Action Run Unit) : Part := ⟨some name, work⟩

def untimed (work : Action Run Unit) : Part := ⟨none, work⟩

end Part

namespace Run

def new (config : BacktestConfig) (files : FileTree) (watching : Watching) (id : String) : Run where
  config := config
  id := id
  directory := (Path.ofText config.outputDir).join (Path.ofText id)
  files := files
  instruments := Instrumentation.new watching
  data := none
  portfolio := none
  benchmark := none
  days := 0
  tearsheet := none
  result := none
  metrics := none

def onFiles (x : Action FileTree Unit) : Action Run Unit := fun r =>
  let (files, a) := x r.files
  ({ r with files }, a)

def watch (f : Instrumentation → Instrumentation) : Action Run Unit :=
  Action.modify fun r => { r with instruments := f r.instruments }

/-- What an earlier stage has found. -/
def needed (e : Error) (a : Option α) : Except Error α :=
  match a with
  | some a => .ok a
  | none => .error e

def write (name : String) (text : String) : Action Run Unit := do
  let r ← Action.get
  onFiles (FileTree.writeText (r.directory.child name) text)

def load : Action Run Unit := Action.update fun r => do
  let data ← MarketTables.load r.files r.config.marketDataPath r.config.fxRatesPath
  pure { r with data := some data }

def build : Action Run Unit := Action.update fun r => do
  let (portfolio, benchmark) ← Portfolio.ofConfig r.config
  pure { r with portfolio := some portfolio, benchmark }

def requireReplay : Action Run Unit := Action.read fun r =>
  if r.data.isSome && r.portfolio.isSome then .ok () else .error .replayNotReady

def rangeEnd : Option Date → Document
  | some d => .date d
  | none => .null

/-- A calendar without days is none. -/
def calendar (c : BacktestConfig) : Option (List Date) := c.calendar.filter (!·.isEmpty)

def replay : Action Run Unit := fun r =>
  match r.data, r.portfolio with
  | some data, some portfolio =>
      let c := r.config
      let (p, outcome) := Replay.run data (rangeEnd c.start) (rangeEnd c.finish) (calendar c)
        (Replay.start portfolio r.benchmark)
      let r := { r with portfolio := some p.portfolio, benchmark := p.benchmark, days := p.days }
      match outcome with
      | .ok tearsheet => ({ r with tearsheet := some tearsheet }, .ok ())
      | .error e => (r, .error e)
  | _, _ => (r, .error .replayNotReady)

def count (p : Portfolio) (days : Nat) (i : Instrumentation) : Instrumentation :=
  ((i.record "days" (.integer days)).record "fills" (.integer p.fills.length)).record
    "rejected_orders" (.integer p.brokerage.rejected)

def keepResult : Action Run Unit := Action.update fun r => do
  let p ← needed .replayNotReady r.portfolio
  let result := Result.ofPortfolio p r.benchmark r.tearsheet
  pure { r with result := some result, instruments := count p r.days r.instruments }

def measure : Action Run Unit := Action.update fun r => do
  let result ← needed .missingAttribute r.result
  pure { r with metrics := some (← Metrics.collect [.tearsheet, .trades] result) }

/-- Spread over lines, with all characters beyond ASCII escaped. -/
def metricsText (m : Metrics) : String := Document.Json.render Report.layout m.toDocument

def writeMetrics : Action Run Unit := do
  let r ← Action.get
  write "metrics.json" (metricsText (r.metrics.getD OrderedMap.empty))

def figures (m : Option Metrics) (text : Metric → String) : List (String × String) :=
  (m.getD OrderedMap.empty).toList.map fun (name, value) => (name, text value)

def writeReports : Action Run Unit := do
  let r ← Action.get
  let result ← Action.ofExcept (needed .missingAttribute r.result)
  write "fills.csv" (Report.fillsText result)
  write "equity.parquet" (Report.equityTable result).stored
  write "report.md" (Report.summaryText result (figures r.metrics Metric.text))

def writeSnapshot : Action Run Unit := do
  let r ← Action.get
  let portfolio ← Action.ofExcept (needed .missingAttribute r.portfolio)
  let snapshot ← Action.ofExcept (Snapshot.capture portfolio)
  write "snapshot.json" snapshot.toJson

end Run

inductive Stage
  | load | build | replay | metrics | report | base
deriving DecidableEq, Repr

namespace Stage

def ofName? : String → Option Stage
  | "load" => some load
  | "build" => some build
  | "replay" => some replay
  | "metrics" => some metrics
  | "report" => some report
  | "base" => some base
  | _ => none

/-- The stages of a whole run. -/
def all : List Stage := [load, build, replay, metrics, report]

def parts : Stage → List Part
  | load => [.timed "load_data" Run.load]
  | build => [.timed "build_portfolio" Run.build]
  | replay => [.untimed Run.requireReplay, .timed "replay" Run.replay, .untimed Run.keepResult]
  | metrics => [.timed "metrics" Run.measure, .untimed Run.writeMetrics]
  | report => [.timed "report" Run.writeReports, .timed "snapshot" Run.writeSnapshot]
  | base => [.untimed (Action.fail .abstractStep)]

end Stage

namespace Run

def openDirectory : Action Run Unit := do
  let r ← Action.get
  onFiles (FileTree.ensure r.directory)

def close : Action Run Unit := do
  let r ← Action.get
  watch fun i => i.report r.id

def parts (stages : List Stage) : List Part :=
  .untimed openDirectory :: stages.flatMap Stage.parts ++ [.untimed close]

variable {m : Type → Type} [Monad m]

/-- Does one part of a run; its time counts even if it fails. -/
def perform (now : m Float) (p : Part) (r : Run) : m (Run × Except Error Unit) :=
  match p.timer with
  | none => pure (p.work r)
  | some name => do
      let begun ← now
      let (r, outcome) := p.work { r with instruments := r.instruments.start name begun }
      let ended ← now
      pure ({ r with instruments := r.instruments.stop name true ended }, outcome)

def performAll (now : m Float) : List Part → Run → m (Run × Except Error Unit)
  | [], r => pure (r, .ok ())
  | p :: ps, r => do
      match ← perform now p r with
      | (r, .ok ()) => performAll now ps r
      | (r, .error e) => pure (r, .error e)

def go (now : m Float) (stages : List Stage) (r : Run) : m (Run × Except Error Unit) :=
  performAll now (parts stages) r

end Run

/-- What is asked of a run in place of its configuration. -/
structure RunRequest where
  start : Document
  finish : Document
  id : Option String

namespace RunRequest

def readDay (d : Option Date) (x : Document) : Except Error (Option Date) :=
  if x.isNull then .ok d else (Date.read x).map some

def range (q : RunRequest) (c : BacktestConfig) : Except Error BacktestConfig := do
  let start ← readDay c.start q.start
  let finish ← readDay c.finish q.finish
  pure { c with start, finish }

/-- A run without a name is called after its configuration and the time. -/
def runId (q : RunRequest) (c : BacktestConfig) (stamp : String) : String :=
  match q.id.filter (· ≠ "") with
  | some id => id
  | none => c.name ++ "_" ++ stamp

def prepare (q : RunRequest) (c : BacktestConfig) (files : FileTree) (stamp : String) :
    Except Error Run := do
  pure (Run.new (← q.range c) files .on (q.runId c stamp))

end RunRequest
end Backtesting
