import Backtesting.Config.Backtest
import Backtesting.Document.Yaml
import Backtesting.Files.Tree

/-!
The configuration of the whole program: a file with the backtest and the log, some of which the
environment may override. The paths of data files count from the directory of the configuration.
-/
namespace Backtesting

structure LogConfig where
  directory : String
  rotation : String
  retention : String
  level : String

namespace LogConfig

def standard : LogConfig := ⟨"logs", "1 day", "30 days", "INFO"⟩

def ofFields (at_ : List String) (x : Document) : Checked LogConfig :=
  LogConfig.mk <$> Schema.withDefault Schema.text standard.directory at_ x "dir"
    <*> Schema.withDefault Schema.text standard.rotation at_ x "rotation"
    <*> Schema.withDefault Schema.text standard.retention at_ x "retention"
    <*> Schema.withDefault Schema.text standard.level at_ x "level"

def schema : Schema LogConfig := fun at_ x =>
  match x with
  | .object _ => ofFields at_ x
  | _ => .faulty [⟨at_, none⟩]

def toDocument (c : LogConfig) : Document :=
  .object [("dir", .text c.directory), ("rotation", .text c.rotation),
    ("retention", .text c.retention), ("level", .text c.level)]

def levels : List String :=
  ["TRACE", "DEBUG", "INFO", "SUCCESS", "WARNING", "ERROR", "CRITICAL"]

/-- A log needs a directory and a level that there is. -/
def check (c : LogConfig) : Except Error Unit :=
  if c.directory = "" then .error .fileNotFound
  else if levels.contains c.level then .ok ()
  else .error .unknownCode

end LogConfig

/-- What the environment says in place of the configuration; an empty text says nothing. -/
structure Overrides where
  outputDir : Option String
  logLevel : Option String

namespace Overrides

def none : Overrides := ⟨Option.none, Option.none⟩

def outputVariable : String := "PORTSIM_OUTPUT_DIR"

def levelVariable : String := "PORTSIM_LOG_LEVEL"

def ofVariables (value : String → Option String) : Overrides :=
  ⟨(value outputVariable).filter (· ≠ ""), (value levelVariable).filter (· ≠ "")⟩

abbrev Fields := List (String × Document)

def applyOutput (o : Overrides) (fs : Fields) : Fields :=
  match o.outputDir, fs.lookup "backtest" with
  | some dir, some (.object bs) =>
      Document.putField "backtest" (.object (Document.putField "output_dir" (.text dir) bs)) fs
  | _, _ => fs

def applyLevel (o : Overrides) (fs : Fields) : Except Error Fields :=
  match o.logLevel with
  | Option.none => .ok fs
  | some level =>
      match (fs.lookup "log").getD (.object []) with
      | .object ls =>
          .ok (Document.putField "log" (.object (Document.putField "level" (.text level) ls)) fs)
      | _ => .error .wrongType

end Overrides

structure AppConfig where
  log : LogConfig
  backtest : BacktestConfig

namespace AppConfig

def dataPaths : List String := ["market_data_path", "fx_rates_path"]

/-- The path of a data file, given the directory of the configuration. -/
def located (directory : Path) (path : String) : String :=
  let p := Path.ofText path
  if p.isAbsolute then path else (directory.join p).collapsed.toText

def locateField (directory : Path) (fs : Overrides.Fields) (key : String) :
    Except Error Overrides.Fields :=
  match fs.lookup key with
  | none => .ok fs
  | some x =>
      if !x.isGiven then .ok fs
      else match x with
        | .text path => .ok (Document.putField key (.text (located directory path)) fs)
        | _ => .error .wrongType

def locateData (directory : Path) (fs : Overrides.Fields) : Except Error Overrides.Fields :=
  match fs.lookup "backtest" with
  | some (.object bs) => do
      let bs ← dataPaths.foldlM (locateField directory) bs
      pure (Document.putField "backtest" (.object bs) fs)
  | _ => .ok fs

def schema : Schema AppConfig := fun at_ x =>
  AppConfig.mk <$> Schema.withDefault LogConfig.schema LogConfig.standard at_ x "log"
    <*> Schema.required BacktestConfig.schema at_ x "backtest"

def check (path : String) (x : Document) : Except Error AppConfig :=
  match schema [] x with
  | .valid c => .ok c
  | .faulty faults => .error (.invalidConfig path (ConfigFault.sorted faults))

def fieldsOf (x : Document) : Except Error Overrides.Fields :=
  match x with
  | .object fs => .ok fs
  | x => if x.isGiven then .error .missingAttribute else .ok []

/-- The configuration that a text stands for, read at a path. -/
def ofText (overrides : Overrides) (path text : String) : Except Error AppConfig := do
  let fs ← fieldsOf (← Document.Yaml.read text)
  let fs ← overrides.applyLevel (overrides.applyOutput fs)
  let fs ← locateData (Path.ofText path).collapsed.parent fs
  check path (.object fs)

def load (files : FileTree) (overrides : Overrides) (path : String) : Except Error AppConfig := do
  let p := Path.ofText path
  if path = "" || !files.contains p then throw (.configNotFound path)
  match FileTree.textOfBytes? (← files.read p) with
  | some text => ofText overrides path text
  | none => throw .unreadableConfig

def toDocument (c : AppConfig) : Document :=
  .object [("log", c.log.toDocument), ("backtest", c.backtest.toDocument)]

end AppConfig
end Backtesting
