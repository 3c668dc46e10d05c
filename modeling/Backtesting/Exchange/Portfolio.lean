import Backtesting.Exchange.Trading
import Backtesting.Metrics
import Backtesting.Replay
import Backtesting.Report

/-!
Portfolios, events and results as documents.
-/
namespace Backtesting

/-- Declared by a type; the static one hands out the capital it is given. -/
def Allocator.ofDocument (x : Document) : Except Error Allocator :=
  if x.isNull then .ok selfFunded
  else if x.string "type" "" = "static" then
    .ok (fixed ((x.field "capital").fields.map fun (n, c) => (n, c.amounts)))
  else Factory.createFrom .allocator builder x

/-- A portfolio of declared strategies, without costs unless a rate is given. -/
def Portfolio.ofDocument (x : Document) : Except Error Portfolio := do
  let named ← (x.field "strategies").items.mapM Strategy.ofDocument
  let commission ← ((x.get? "commission").getD (.integer 0)).toDecimal
  let fxBase ← (x.get? "fx_base").mapM fun b => b.named Currency.ofCode?
  let allocator ← Allocator.ofDocument (x.field "allocator")
  let venue := if (x.field "own_history").isGiven then some MarketHistory.empty else none
  build (x.string "name" "test") ((x.get? "base").getD (.text Currency.usd.code)) named allocator
    ⟨commission⟩ fxBase (x.field "asset_currencies").fields venue

/-- The event of a kind, `none` when there is no such kind. -/
def Event.ofDocument (kind : String) (x : Document) : Except Error (Option Event) := do
  let date := Date.ofDocument (x.field "date")
  let asset := x.string "asset" ""
  let name := x.string "strategy" ""
  match kind with
  | "market" =>
      let bars ← Bars.ofDocument (x.field "bars")
      pure (some (market ⟨← date, bars, (x.field "fx").amounts⟩))
  | "signal" => pure (some (signal (← date) name (← Signals.ofDocument (x.field "signals"))))
  | "order" => pure (some (order (← OrderRequest.ofDocument x)))
  | "fill" => pure (some (fill (← Fill.ofDocument x)))
  | "dividend" => pure (some (dividend (← date) asset (.written (x.field "amount"))))
  | "split" => pure (some (split (← date) asset (.written (x.field "ratio"))))
  | "rebalance" => pure (some (rebalance (← date) name (x.field "weights").amounts))
  | "unknown" => pure (some (other "object"))
  | _ => pure none

def MarketDay.toDocument (d : MarketDay) : Document :=
  .list [d.date.toDocument, .list (d.bars.keys.map .text),
    Document.pairs (d.rates.map fun (c, r) => (c, .text r.text))]

def Portfolio.standing (p : Portfolio) : List (String × Document) :=
  [("signals", .ofNat p.signalCount), ("orders", .ofNat p.orderCount),
    ("submitted", .ofNat p.brokerage.submitted), ("rejected", .ofNat p.brokerage.rejected),
    ("equity", .list [Document.optional Date.toDocument p.equity.lastDate?,
      Document.optional Decimal.toDocument p.equity.lastValue?, .ofNat p.equity.size]),
    ("days", .list [.ofNat p.market.size, .ofNat p.fx.size]),
    ("books", Document.pairs (p.strategies.toList.map fun (n, s) => (n, .object s.bookFields)))]

namespace Result

def texts (x : Document) : List String := x.items.map Document.plainText

def optionalDecimal (x : Document) : Except Error (Option Decimal) :=
  if x.isNull then .ok none else x.toDecimal.map some

def ofDocument (x : Document) : Except Error Result := do
  let benchmark := x.field "benchmark"
  let benchmark ← if benchmark.isNull then pure none
    else do pure (some (← benchmark.items.mapM optionalDecimal))
  let dates ← (x.field "dates").items.mapM Date.ofDocument
  let equity ← (x.field "equity").items.mapM Document.toDecimal
  pure {
    name := x.string "name" "r"
    base := x.string "base_currency" "USD"
    strategies := texts (x.field "strategies")
    signalCount := ((x.field "n_signals").integer?).getD 0
    orderCount := ((x.field "n_orders").integer?).getD 0
    dates, equity, benchmark
    fills := (x.field "fills").items.map fun f => f.fields.map fun (k, v) => (k, v.plainText)
    positions := (x.field "positions").fields.map fun (n, p) =>
      (n, p.fields.map fun (a, q) => (a, (q.integer?).getD 0))
    cash := (x.field "cash").fields.map fun (n, c) =>
      (n, c.fields.map fun (k, v) => (k, v.plainText))
    tearsheet := none }

def fillDocument (f : FillRow) : Document := .object (f.map fun (k, v) => (k, .text v))

def toDocument (r : Result) : Document :=
  .object [
    ("name", .text r.name), ("base_currency", .text r.base),
    ("strategies", .list (r.strategies.map .text)),
    ("n_signals", .integer r.signalCount), ("n_orders", .integer r.orderCount),
    ("dates", .list (r.dates.map Date.toDocument)),
    ("equity", .list (r.equity.map Decimal.toDocument)),
    ("benchmark", Document.optional
      (fun b => .list (b.map (Document.optional Decimal.toDocument))) r.benchmark),
    ("fills", .list (r.fills.map fillDocument)),
    ("positions", Document.pairs (r.positions.map fun (n, p) =>
      (n, Document.pairs (p.map fun (a, q) => (a, .integer q))))),
    ("cash", Document.pairs (r.cash.map fun (n, c) =>
      (n, Document.pairs (c.map fun (k, v) => (k, .text v)))))]

/-- The reports on a result with figures by name. -/
def reports (r : Result) (figures : List (String × String)) : List (String × Document) :=
  let table := Report.equityTable r
  [("fills_csv", .text (Report.fillsText r)), ("report_md", .text (Report.summaryText r figures)),
    ("equity_table", .list (table.rows.map .list)),
    ("columns", .list (table.columns.map .text))]

end Result
end Backtesting
