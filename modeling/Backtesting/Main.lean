import Backtesting.CommandLine
import Std.Time.Zoned

/-!
The program. It takes the files that a command needs from the disk, carries the command out and puts
what has been written back on the disk.
-/
namespace Backtesting.Program

def seconds : IO Float := do
  pure ((← IO.monoNanosNow).toFloat / 1000000000)

/-- The day and the time of day in digits. -/
def stamp : IO String := do
  let t ← Std.Time.PlainDateTime.now
  let day := Text.padded 4 t.year.toInt.toNat ++ Text.padded 2 t.month.val.toNat ++
    Text.padded 2 t.day.val.toNat
  let time := Text.padded 2 t.hour.val.toNat ++ Text.padded 2 t.minute.val.toNat ++
    Text.padded 2 t.second.val.toNat
  pure (day ++ "_" ++ time)

/-- Takes a file of the disk in under its path, if there is one. -/
def take (files : FileTree) (path : String) : IO FileTree := do
  try
    let bytes ← IO.FS.readBinFile path
    let p := Path.ofText path
    let (files, _) := FileTree.ensure p.parent files
    pure (FileTree.overwrite p bytes.toList files).1
  catch _ => pure files

def configPath? : Command → Option String
  | .run path _ | .validate path => path
  | _ => none

/-- The files that a command reads: a configuration and the data it names. -/
def gather (overrides : Overrides) (c : Command) : IO FileTree := do
  let files := Sample.install FileTree.empty
  match configPath? c with
  | none => pure files
  | some path => do
      let files ← take files path
      match AppConfig.load files overrides path with
      | .error _ => pure files
      | .ok c => (c.backtest.marketDataPath :: c.backtest.fxRatesPath.toList).foldlM take files

def placeText (place : Place) : String :=
  match place with
  | "/" :: names => "/" ++ "/".intercalate names
  | names => "/".intercalate names

/-- Writes the entries that were not there before. -/
def store (before after : FileTree) : IO Unit :=
  after.entries.toList.forM fun (place, e) => do
    if before.entries.get? place ≠ some e then
      match e with
      | .directory => IO.FS.createDirAll (placeText place)
      | .file bytes => IO.FS.writeBinFile (placeText place) ⟨bytes.toArray⟩

def carryOut (overrides : Overrides) (args : List String) : IO UInt32 := do
  let files ← match Command.ofArguments? args with
    | some c => gather overrides c
    | none => pure FileTree.empty
  let session ← Session.ofArguments seconds (← stamp) files overrides args
  store files session.files
  session.printed.forM fun p => IO.println (p.text Metric.text)
  match session.ending with
  | .failed e => IO.eprintln e.message
  | _ => pure ()
  pure (UInt32.ofNat session.ending.code)

def start (args : List String) : IO UInt32 := do
  let output ← IO.getEnv Overrides.outputVariable
  let level ← IO.getEnv Overrides.levelVariable
  let value (name : String) : Option String :=
    if name = Overrides.outputVariable then output else level
  carryOut (Overrides.ofVariables value) args

end Backtesting.Program

def main (args : List String) : IO UInt32 := Backtesting.Program.start args
