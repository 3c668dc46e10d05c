import Backtesting.Result
import Backtesting.Table.Csv

/-!
What is written about a result: its fills as a table of text, its equity beside the benchmark, and a
summary with the figures.
-/
namespace Backtesting.Report

def fillColumns : List String :=
  ["date", "strategy", "asset", "trade_action", "quantity", "fill_price", "commission"]

/-- One line for each fill; what a fill does not say is empty. -/
def fillsText (r : Result) : String :=
  Table.Csv.render fillColumns
    (r.fills.map fun f => fillColumns.map fun c => (f.lookup c).getD "")

def equityColumns : List String := ["date", "equity", "benchmark"]

def amount : Option Decimal → Document
  | some x => .text x.toText
  | none => .null

/-- The benchmark on each day, nothing where there is none at all. -/
def benchmarkValues (r : Result) : List (Option Decimal) :=
  match r.benchmark with
  | none | some [] => r.dates.map fun _ => none
  | some values => values

def equityTable (r : Result) : Table where
  columns := equityColumns
  rows := (r.dates.zip (r.equity.zip (benchmarkValues r))).map fun (d, v, b) =>
    [.text d.toText, .text v.toText, amount b]

/-- Over lines, two blanks for each level, characters beyond ASCII by their code units. -/
def layout : Document.Json.Layout := ⟨some 2, true⟩

def positionsDocument (r : Result) : Document :=
  .object (r.positions.map fun (name, held) =>
    (name, .object (held.map fun (a, q) => (a, .integer q))))

def cashDocument (r : Result) : Document :=
  .object (r.cash.map fun (name, held) =>
    (name, .object (held.map fun (c, v) => (c, .text v))))

def dayText : Option Date → String
  | some d => d.toText
  | none => "-"

def figureLine (e : String × String) : String := s!"| {e.1} | {e.2} |"

/-- The summary of a result with figures by name. -/
def summaryText (r : Result) (figures : List (String × String)) : String :=
  let first := dayText r.dates.head?
  let last := dayText r.dates.getLast?
  let count := r.dates.length
  let lines := [
    "# Backtest Report",
    "",
    s!"- Name: {r.name}",
    s!"- Base currency: {r.base}",
    s!"- Period: {first} -> {last} ({count} days)",
    "- Strategies: " ++ ", ".intercalate r.strategies,
    "",
    "## Metrics",
    "",
    "| metric | value |",
    "|---|---|",
    "\n".intercalate (figures.map figureLine),
    "",
    "## Final positions",
    "",
    "```",
    Document.Json.render layout (positionsDocument r),
    "```",
    "",
    "## Final cash",
    "",
    "```",
    Document.Json.render layout (cashDocument r),
    "```"]
  "\n".intercalate lines ++ "\n"

end Backtesting.Report
