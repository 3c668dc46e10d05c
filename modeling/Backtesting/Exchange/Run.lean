import Backtesting.CommandLine
import Backtesting.Exchange.Portfolio

/-!
Instruments, files and runs as documents, and what is done with them as it is written down.
-/
namespace Backtesting

namespace Instrumentation

def toDocument (i : Instrumentation) : Document :=
  .object [("timeline", .list (i.timeline.keys.map .text)),
    ("metrics", Document.pairs i.counters.toList)]

mutual

/-- A step of the instruments. A timer may hold other steps, and may fail at its end. -/
def step : Nat → Document → Action Instrumentation Unit
  | 0, _ => pure ()
  | fuel + 1, x =>
      let name := x.string "name" ""
      match x.string "do" "" with
      | "timer" => fun i =>
          let (i, r) := steps fuel (x.field "inner").items (i.start name 0)
          let r := if (x.field "fail").isGiven then r.bind fun _ => .error (.failed "") else r
          (i.stop name ((x.field "record").bool?.getD true) 1, r)
      | "record" => Action.modify (·.record name (x.field "value"))
      | "increment" => Action.update (·.increment name ((x.get? "by").getD (.integer 1)))
      | "report" => Action.modify (·.report name)
      | _ => pure ()

def steps : Nat → List Document → Action Instrumentation Unit
  | 0, _ => pure ()
  | _, [] => pure ()
  | fuel + 1, x :: xs => do
      step fuel x
      steps fuel xs

end

end Instrumentation

namespace FileTree

def bytesOf (x : Document) : List UInt8 :=
  x.items.map fun b => UInt8.ofNat ((b.integer?).getD 0).toNat

/-- What a path is used for, by name. -/
def use (what : String) (p : Path) (x : Document) : Action FileTree Document :=
  match what with
  | "ensure" => do
      ensure p
      return .text p.toText
  | "exists" => Action.read fun t => .ok (.bool (t.contains p))
  | "write" => do
      writeText p (x.string "text" "")
      return .null
  | "write_bytes" => do
      write p (bytesOf ((x.get? "bytes").getD (x.field "data")))
      return .null
  | _ => Action.read fun t => (t.read p).map fun bytes => .list (bytes.map fun b => .ofNat b.toNat)

end FileTree

namespace Run

/-- What was written about the result, with the figures as they are written by `text`. -/
def reports (r : Run) (text : Metric → String) : List (String × Document) :=
  let read (name : String) := (r.files.text? (r.directory.child name)).getD ""
  match r.result, r.files.contains (r.directory.child "report.md") with
  | some result, true =>
      result.reports (Run.figures r.metrics text) ++ [("snapshot", .text (read "snapshot.json"))]
  | _, _ => []

def fields (r : Run) (text : Metric → String) : List (String × Document) :=
  let written := if r.files.contains (r.directory.child "metrics.json") then
      [("metrics_json", (r.metrics.getD OrderedMap.empty).toDocument)]
    else []
  [("run_id", .text r.id), ("output_dir", .text r.directory.toText),
    ("timeline", .list (r.instruments.timeline.keys.map .text)),
    ("counters", .object r.instruments.counters.toList),
    ("files", .list ((r.files.names r.directory).map .text))] ++ written ++ r.reports text

end Run
end Backtesting
