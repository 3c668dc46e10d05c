import Backtesting.Config.App
import Backtesting.Console
import Backtesting.Pipeline
import Backtesting.Sample

/-!
The commands of the program: what they are asked for, what they print and how they end. A fault of
the configuration or of the data is told in one line; any other failure is left to the caller.
-/
namespace Backtesting

inductive Command
  | help
  | version
  | run (config : Option String) (request : RunRequest)
  | validate (config : Option String)

namespace Command

/-- The spellings of an option with the name of what it sets. -/
abbrev Options := List (String × String)

def configOptions : Options := [("--config", "config"), ("-c", "config")]

def runOptions : Options :=
  configOptions ++ [("--start", "start"), ("--end", "end"), ("--run-id", "run-id")]

/-- What was set, later settings last, and whether help was asked for or a word is left over. -/
structure Settings where
  values : List (String × String)
  asksHelp : Bool
  hasRest : Bool

namespace Settings

def empty : Settings := ⟨[], false, false⟩

def set (s : Settings) (name value : String) : Settings :=
  { s with values := s.values ++ [(name, value)] }

def value? (s : Settings) (name : String) : Option String := s.values.reverse.lookup name

end Settings

/-- An option and the value that is attached to it: behind an equals sign or, for a letter, right
after it. -/
def attached? (options : Options) (word : String) : Option (String × Option String) :=
  let cs := word.toList
  let name := String.ofList (cs.takeWhile (· ≠ '='))
  let value := if cs.contains '=' then some (String.ofList ((cs.dropWhile (· ≠ '=')).drop 1)) else none
  if word.startsWith "--" then (options.lookup name).map (·, value)
  else
    let rest := cs.drop 2
    (options.lookup (String.ofList (cs.take 2))).map
      (·, if rest.isEmpty then none else some (String.ofList rest))

/-- Reads options and their values; `none` when an option is unknown or lacks its value. -/
def settings? (options : Options) (s : Settings) : List String → Option Settings
  | [] => some s
  | "--" :: rest => some { s with hasRest := s.hasRest || !rest.isEmpty }
  | "--help" :: rest => settings? options { s with asksHelp := true } rest
  | word :: rest =>
      if word.startsWith "-" && word != "-" then
        match attached? options word with
        | none => none
        | some (name, some value) => settings? options (s.set name value) rest
        | some (name, none) =>
            match rest with
            | [] => none
            | value :: rest => settings? options (s.set name value) rest
      else settings? options { s with hasRest := true } rest

def optionalText : Option String → Document
  | some s => .text s
  | none => .null

def withSettings (options : Options) (make : Settings → Command) (args : List String) :
    Option Command := do
  let s ← settings? options Settings.empty args
  if s.asksHelp then some help
  else if s.hasRest then none
  else some (make s)

/-- The command that the arguments stand for, `none` when they are misused. -/
def ofArguments? : List String → Option Command
  | "--help" :: _ => some help
  | "version" :: args => withSettings [] (fun _ => version) args
  | "run" :: args => withSettings runOptions (fun s => run (s.value? "config")
      ⟨optionalText (s.value? "start"), optionalText (s.value? "end"), s.value? "run-id"⟩) args
  | "validate" :: args => withSettings configOptions (fun s => validate (s.value? "config")) args
  | _ => none

def usage : List String :=
  ["Usage: backtesting COMMAND [OPTIONS]",
    "",
    "  version                        show the version",
    "  run [-c CONFIG] [--start DATE] [--end DATE] [--run-id NAME]",
    "                                 run a backtest and write its reports",
    "  validate [-c CONFIG]           check a configuration"]

def versionText : String := "v0.1.0"

end Command

inductive Printed
  | line (text : String)
  | figure (name : String) (value : Metric)

namespace Printed

/-- The line, given how the values of figures are written. -/
def text (f : Metric → String) : Printed → String
  | line s => s
  | figure name value => s!"  {Timeline.leftAligned 24 name} {f value}"

def console (s : String) : List Printed := (Console.lines s).map line

def complaint (label message : String) : List Printed :=
  ((s!"[CLI] {label}: {message}").splitOn "\n").map line

end Printed

inductive Ending
  | done
  | misused
  | refused
  | failed (e : Error)

def Ending.code : Ending → Nat
  | done => 0
  | misused => 2
  | refused | failed _ => 1

structure Session where
  printed : List Printed
  ending : Ending
  files : FileTree

namespace Session

/-- Ends with an error: those of the domain are printed. -/
def fail (files : FileTree) (printed : List Printed) (e : Error) : Session :=
  match e.label? with
  | some label => ⟨printed ++ Printed.complaint label e.message, .refused, files⟩
  | none => ⟨printed, .failed e, files⟩

def say (files : FileTree) (lines : List String) : Session := ⟨lines.map .line, .done, files⟩

def configuration (files : FileTree) (overrides : Overrides) (path : Option String) :
    Except Error AppConfig :=
  AppConfig.load files overrides (path.getD Sample.configurationPath)

def checked (c : AppConfig) : Except Error (List Printed) := do
  let (portfolio, benchmark) ← Portfolio.ofConfig c.backtest
  let names := Text.quotedList portfolio.strategies.keys
  let other := (benchmark.map (·.name)).getD "None"
  pure (Printed.console s!"[green]OK[/green] strategies={names} benchmark={other}")

def validate (files : FileTree) (overrides : Overrides) (path : Option String) : Session :=
  match configuration files overrides path >>= checked with
  | .ok printed => ⟨printed, .done, files⟩
  | .error e => fail files [] e

def figures (r : Run) : List Printed :=
  (r.metrics.getD OrderedMap.empty).toList.map fun (name, value) => .figure name value

def configured (files : FileTree) (overrides : Overrides) (path : Option String) :
    Except Error AppConfig := do
  let c ← configuration files overrides path
  c.log.check
  pure c

variable {m : Type → Type} [Monad m]

def run (now : m Float) (stamp : String) (files : FileTree) (overrides : Overrides)
    (path : Option String) (request : RunRequest) : m Session := do
  match configured files overrides path with
  | .error e => pure (fail files [] e)
  | .ok c =>
      let begun := Printed.console s!"[green]Running backtest {c.backtest.name}[/green]"
      match request.prepare c.backtest files stamp with
      | .error e => pure (fail files begun e)
      | .ok r =>
          match ← r.go now Stage.all with
          | (r, .error e) => pure (fail r.files begun e)
          | (r, .ok ()) =>
              let directory := Printed.console s!"[blue]Output:[/blue] {r.directory.toText}"
              pure ⟨begun ++ directory ++ figures r, .done, r.files⟩

/-- Carries out a command on the files that there are. -/
def perform (now : m Float) (stamp : String) (files : FileTree) (overrides : Overrides) :
    Command → m Session
  | .help => pure (say files Command.usage)
  | .version => pure (say files [Command.versionText])
  | .validate path => pure (validate files overrides path)
  | .run path request => run now stamp files overrides path request

/-- Carries out what the arguments ask for. -/
def ofArguments (now : m Float) (stamp : String) (files : FileTree) (overrides : Overrides)
    (args : List String) : m Session :=
  match Command.ofArguments? args with
  | some c => perform now stamp files overrides c
  | none => pure ⟨Command.usage.map .line, .misused, files⟩

end Session
end Backtesting
