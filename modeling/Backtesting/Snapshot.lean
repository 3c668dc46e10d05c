import Backtesting.Document.Json
import Backtesting.Exchange.Market
import Backtesting.Portfolio.Events

/-!
The image of a portfolio between two days: the books and what the strategies remember, the equity
curve and both histories. A snapshot is restored into a portfolio of the same configuration that
has no history yet. Only finite decimals can be captured.
-/
namespace Backtesting

structure StrategySnapshot where
  name : String
  positions : List (Asset × Int)
  cash : List (String × Decimal)
  target : List (String × Decimal)
  state : List (String × Document)

structure Snapshot where
  name : String
  base : String
  strategies : List StrategySnapshot
  equity : List (Date × Decimal)
  market : List (Date × List (Asset × Quote))
  rates : List (Date × List (String × Decimal))

namespace StrategySnapshot

def balances (b : Balances) : List (String × Decimal) := b.toList.map fun (c, v) => (c.code, v)

def ofStrategy (name : String) (s : Strategy) : StrategySnapshot where
  name := name
  positions := s.book.positions.toList
  cash := balances s.book.cash
  target := balances s.book.target
  state := s.rule.exportState.fields

def decimals (ds : List (String × Decimal)) : Document :=
  .object (ds.map fun (k, v) => (k, .text v.toText))

def toDocument (s : StrategySnapshot) : Document :=
  .object [
    ("name", .text s.name),
    ("positions", .object (s.positions.map fun (a, q) => (a, .integer q))),
    ("cash", decimals s.cash),
    ("target_capital", decimals s.target),
    ("state", .object s.state)]

/-- Entries by key; a key given twice keeps its place and takes the last value. -/
def byKey [DecidableEq κ] (l : List (κ × ν)) : List (κ × ν) := (OrderedMap.ofList l).toList

def ofFields (at_ : List String) (x : Document) : Checked StrategySnapshot :=
  StrategySnapshot.mk
    <$> Schema.required Schema.text at_ x "name"
    <*> Schema.withDefault (Schema.mapping some Schema.integer) [] at_ x "positions"
    <*> Schema.withDefault (Schema.mapping some Schema.decimal) [] at_ x "cash"
    <*> Schema.withDefault (Schema.mapping some Schema.decimal) [] at_ x "target_capital"
    <*> Schema.withDefault Schema.object [] at_ x "state"

def schema : Schema StrategySnapshot := fun at_ x =>
  match x with
  | .object _ => ofFields at_ x
  | _ => .faulty [⟨at_, none⟩]

end StrategySnapshot

namespace Snapshot

def toDocument (s : Snapshot) : Document :=
  .object [
    ("name", .text s.name),
    ("base_currency", .text s.base),
    ("strategies", .list (s.strategies.map StrategySnapshot.toDocument)),
    ("equity_curve", .object (s.equity.map fun (d, v) => (d.toText, .text v.toText))),
    ("market_data", .object (s.market.map fun (d, bars) =>
      (d.toText, .object (bars.map fun (a, q) => (a, q.toDocument))))),
    ("fx_rates", .object (s.rates.map fun (d, rates) =>
      (d.toText, StrategySnapshot.decimals rates)))]

/-- Written over lines, two blanks for each level, all characters as they are. -/
def layout : Document.Json.Layout := ⟨some 2, false⟩

def toJson (s : Snapshot) : String := Document.Json.render layout s.toDocument

def quoteFields (at_ : List String) (x : Document) : Checked Quote :=
  Quote.mk
    <$> Schema.required Schema.decimal at_ x "open"
    <*> Schema.required Schema.decimal at_ x "high"
    <*> Schema.required Schema.decimal at_ x "low"
    <*> Schema.required Schema.decimal at_ x "close"
    <*> Schema.required Schema.decimal at_ x "adjusted_close"
    <*> Schema.required Schema.integer at_ x "volume"
    <*> Schema.withDefault Schema.decimal 0 at_ x "dividend_per_share"
    <*> Schema.withDefault Schema.decimal 1 at_ x "split_coefficient"

def quoteSchema : Schema Quote := fun at_ x =>
  match x with
  | .object _ => quoteFields at_ x
  | _ => .faulty [⟨at_, none⟩]

def ofFields (at_ : List String) (x : Document) : Checked Snapshot :=
  (fun name base strategies equity market rates =>
    ⟨name, base, strategies, StrategySnapshot.byKey equity, StrategySnapshot.byKey market,
      StrategySnapshot.byKey rates⟩)
    <$> Schema.required Schema.text at_ x "name"
    <*> Schema.required Schema.text at_ x "base_currency"
    <*> Schema.required (Schema.list StrategySnapshot.schema) at_ x "strategies"
    <*> Schema.withDefault (Schema.mapping Schema.dateText? Schema.decimal) [] at_ x
      "equity_curve"
    <*> Schema.withDefault (Schema.mapping Schema.dateText? (Schema.mapping some quoteSchema)) []
      at_ x "market_data"
    <*> Schema.withDefault (Schema.mapping Schema.dateText? (Schema.mapping some Schema.decimal))
      [] at_ x "fx_rates"

def schema : Schema Snapshot := fun at_ x =>
  match x with
  | .object _ => ofFields at_ x
  | _ => .faulty [⟨at_, none⟩]

def ofDocument (x : Document) : Except Error Snapshot := (schema [] x).toExcept

def ofJson (s : String) : Except Error Snapshot :=
  match Document.Json.parse? s with
  | some x => ofDocument x
  | none => .error (.invalidModel [⟨[], none⟩])

/-- What a portfolio looks like, whether it can be captured or not. -/
def imageOf (p : Portfolio) : Snapshot where
  name := p.name
  base := p.base.code
  strategies := p.strategies.toList.map fun (name, s) => StrategySnapshot.ofStrategy name s
  equity := p.equity.points
  market := p.market.bars.days.map fun (d, bars) =>
    (d, bars.toList.map fun (a, b) => (a, b.toQuote))
  rates := p.fx.rates.days.map fun (d, rates) => (d, StrategySnapshot.balances rates)

def faultsOf (at_ : List String) (ds : List (String × Decimal)) : List ConfigFault :=
  (ds.filter fun e => !(e.2.IsFinite : Bool)).map fun e => ⟨at_ ++ [e.1], none⟩

def strategyFaults (s : StrategySnapshot) : List ConfigFault :=
  faultsOf ["cash"] s.cash ++ faultsOf ["target_capital"] s.target

def quoteFaults (q : Quote) : List ConfigFault :=
  faultsOf [] [("open", q.opening), ("high", q.high), ("low", q.low), ("close", q.close),
    ("adjusted_close", q.adjustedClose), ("dividend_per_share", q.dividend),
    ("split_coefficient", q.split)]

def seriesFaults (s : Snapshot) : List ConfigFault :=
  faultsOf ["equity_curve"] (s.equity.map fun (d, v) => (d.toText, v)) ++
    s.rates.flatMap fun (d, rates) => faultsOf ["fx_rates", d.toText] rates

/-- The faults of the first part that has any: a strategy, a bar, or the series together. -/
def faults (s : Snapshot) : List ConfigFault :=
  let parts := s.strategies.map strategyFaults ++
    (s.market.flatMap fun e => e.2.map fun b => quoteFaults b.2) ++ [seriesFaults s]
  (parts.find? fun fs => !fs.isEmpty).getD []

/-- The image of a portfolio all of whose decimals are finite. -/
def capture (p : Portfolio) : Except Error Snapshot :=
  let s := imageOf p
  if s.faults.isEmpty then .ok s else .error (.invalidModel (ConfigFault.sorted s.faults))

def restoreStrategy (s : StrategySnapshot) : Action Portfolio Unit :=
  Portfolio.onStrategy s.name do
    Strategy.onBook (Book.restore
      (s.positions.map fun (a, q) => (a, .integer q))
      (.written (s.cash.map fun (c, v) => (c, .known v)))
      (.written (s.target.map fun (c, v) => (c, .known v))))
    Action.update (·.restoreState (.object s.state))

def restoreDay (e : Date × List (Asset × Quote)) : Action Portfolio Unit :=
  Action.update fun p => do
    let bars ← e.2.mapM fun (a, q) => do pure (a, ← Bar.ofQuote q)
    pure { p with market := ← p.market.append e.1 (OrderedMap.ofList bars) }

def restoreRates (e : Date × List (String × Decimal)) : Action Portfolio Unit :=
  Action.update fun p => do
    pure { p with fx := ← p.fx.append e.1 (e.2.map fun (c, r) => (c, .known r)) }

def restoreEquity (e : Date × Decimal) : Action Portfolio Unit :=
  Action.update fun p => do pure { p with equity := ← p.equity.record e.1 e.2 }

def insertDay (e : Date × α) : List (Date × α) → List (Date × α)
  | [] => [e]
  | x :: xs => if e.1 < x.1 then e :: x :: xs else x :: insertDay e xs

def byDate (l : List (Date × α)) : List (Date × α) := l.foldl (fun acc e => insertDay e acc) []

/-- What has to hold before anything is written. -/
def restorable (s : Snapshot) (p : Portfolio) : Except Error Unit := do
  if s.base ≠ p.base.code then throw (.snapshotBase s.base p.base.code)
  if p.market.size ≠ 0 ∨ p.equity.size ≠ 0 then throw (.notFresh p.name)
  match p.strategies.keys.find? fun n => !(s.strategies.map (·.name)).contains n with
  | some n => throw (.unknownStrategy n)
  | none => pure ()

def restore (s : Snapshot) : Action Portfolio Unit := do
  Action.read s.restorable
  Action.forEach s.strategies restoreStrategy
  Action.forEach (byDate s.market) restoreDay
  Action.forEach (byDate s.rates) restoreRates
  Action.forEach (byDate s.equity) restoreEquity
  let p ← Action.get
  let last := match p.equity.lastDate? with
    | some d => d.toText
    | none => "None"
  Portfolio.log .info (s!"[Snapshot] restored {p.name}: {s.market.length} days, " ++
    s!"last equity date={last}")

end Snapshot
end Backtesting
