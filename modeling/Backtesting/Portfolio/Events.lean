import Backtesting.Portfolio.Basic

/-!
What happens to a portfolio. A market event is a whole day: bars and rates are taken in, dividends
and then splits are applied, capital is allocated, every strategy signals, is sized and trades, and
the portfolio is valued. The other events are single steps of such a day. An event that fails
leaves the portfolio as it was when the failing step began.
-/
namespace Backtesting

structure MarketDay where
  date : Date
  bars : Bars
  rates : List (String × Amount)

inductive Event
  | market (day : MarketDay)
  | signal (date : Date) (strategy : String) (signals : Signals)
  | order (request : OrderRequest)
  | fill (fill : Fill)
  | dividend (date : Date) (asset : Asset) (perShare : Amount)
  | split (date : Date) (asset : Asset) (ratio : Amount)
  | rebalance (date : Date) (strategy : String) (weights : List (Asset × Amount))
  | other (kind : String)

namespace Portfolio

def log (level : Level) (text : String) : Action Portfolio Unit :=
  Action.modify fun p => { p with journal := p.journal ++ [⟨level, text⟩] }

/-- Runs a step on the strategy of a name, which must exist. -/
def onStrategy (name : String) (x : Action Strategy α) : Action Portfolio α := fun p =>
  match p.strategies.get? name with
  | none => (p, .error (.unknownStrategy name))
  | some s =>
      let (s, r) := x s
      ({ p with strategies := p.strategies.put name s }, r)

def handleFill (f : Fill) : Action Portfolio Unit := do
  onStrategy f.strategy (Strategy.applyFill f)
  Action.modify fun p => { p with fills := p.fills ++ [f] }
  log .info (s!"[Portfolio] {f.date.toText} fill {f.strategy} {f.action.label} " ++
    s!"{f.asset} qty={f.quantity} price={f.price.toText} commission={f.commission.toText}")

def priceText : Option Decimal → String
  | none => "None"
  | some p => p.toText

def outcomeText (o : Order) : Brokerage.Outcome → String
  | .noBar =>
      s!"[Brokerage] {o.date.toText} no market data for {o.asset} " ++
      s!"-> {o.action.label} {o.quantity} not filled"
  | .unmatched close =>
      let primary := priceText o.terms.primary?
      let secondary := priceText o.terms.secondary?
      s!"[Brokerage] {o.date.toText} {o.terms.type.label} {o.action.label} " ++
      s!"{o.asset} qty={o.quantity} primary={primary} " ++
      s!"secondary={secondary} close={close.toText} -> not filled"
  | .filled f =>
      s!"[Brokerage] {f.date.toText} fill {f.action.label} {f.asset} " ++
      s!"qty={f.quantity} price={f.price.toText} commission={f.commission.toText}"

def submit (o : Order) : Action Portfolio Brokerage.Outcome := fun p =>
  let (brokerage, r) := p.brokerage.submit (p.venue.getD p.market) o
  ({ p with brokerage }, r)

def handleOrder (r : OrderRequest) : Action Portfolio Unit := do
  let _ ← Action.read (·.strategy r.strategy)
  let order ← Action.ofExcept r.validate
  Action.modify fun p => { p with orderCount := p.orderCount + 1 }
  let outcome ← submit order
  match outcome with
  | .filled f => do
      log .debug (outcomeText order outcome)
      handleFill f
  | _ => log .info (outcomeText order outcome)

/-- Orders what is missing to the desired holding of one asset. -/
def submitTarget (name : String) (d : Date) (e : Asset × Int) : Action Portfolio Unit := do
  let s ← Action.read (·.strategy name)
  let missing := e.2 - s.position e.1
  if missing = 0 then return ()
  let action : TradeAction := if 0 < missing then .buy else .sell
  let prices ← Action.read fun p => s.pricing.prices p.market d e.1 action
  handleOrder {
    date := d
    strategy := name
    asset := e.1
    action
    type := prices.type
    quantity := .integer missing.natAbs
    primary := prices.primary.map Amount.known
    secondary := prices.secondary.map Amount.known }

def submitTargets (name : String) (d : Date) (sizes : OrderedMap Asset Int) :
    Action Portfolio Unit := Action.forEach sizes.toList (submitTarget name d)

def handleSignal (d : Date) (name : String) (signals : Signals) : Action Portfolio Unit := do
  let s ← Action.read (·.strategy name)
  Action.modify fun p => { p with signalCount := p.signalCount + signals.size }
  let sizes ← Action.read fun p => s.sizesFor s.sizer d signals p.market p.fx
  submitTargets name d sizes

def handleRebalance (d : Date) (name : String) (weights : List (Asset × Amount)) :
    Action Portfolio Unit := do
  let s ← Action.read (·.strategy name)
  let sizer ← Action.ofExcept (Sizer.fixed weights)
  let signals := Signals.same .rebalance (weights.map Prod.fst)
  let sizes ← Action.read fun p => s.sizesFor sizer d signals p.market p.fx
  submitTargets name d sizes

def creditDividend (d : Date) (a : Asset) (perShare : Amount) (name : String) :
    Action Portfolio Unit := do
  let s ← Action.read (·.strategy name)
  if s.assets.contains a then
    let credit ← onStrategy name (Strategy.applyDividend a perShare)
    if !credit.isZero then
      log .info (s!"[Portfolio] {d.toText} dividend {a} " ++
        s!"{perShare.text}/share -> {name} +{credit.toText}")

def handleDividend (d : Date) (a : Asset) (perShare : Amount) : Action Portfolio Unit := do
  let p ← Action.get
  Action.forEach p.strategies.keys (creditDividend d a perShare)

def splitPosition (a : Asset) (ratio : Amount) (name : String) : Action Portfolio Unit := do
  let s ← Action.read (·.strategy name)
  if s.assets.contains a then onStrategy name (Action.update (·.applySplit a ratio))

def splitBars (a : Asset) (ratio : Decimal) : Action Portfolio Nat := fun p =>
  let (market, n) := p.market.split a ratio
  ({ p with market }, n)

def handleSplit (d : Date) (a : Asset) (ratio : Amount) : Action Portfolio Unit := do
  let p ← Action.get
  Action.forEach p.strategies.keys (splitPosition a ratio)
  let coefficient ← Action.ofExcept ratio.read
  let n ← splitBars a coefficient
  log .info s!"[Portfolio] {d.toText} split {a} x{ratio.text} ({n} bars adjusted)"

def recordEquity (d : Date) : Action Portfolio Decimal := do
  let value ← Action.read (·.totalValue d)
  Action.update fun p => do pure { p with equity := ← p.equity.record d value }
  let p ← Action.get
  log .debug s!"[Portfolio] {d.toText} equity={value.toText} {p.base.code}"
  return value

def takeIn (day : MarketDay) : Action Portfolio Unit := do
  Action.update fun p => match p.equity.values.later? day.date with
    | some last => .error (.outOfOrder "market event" day.date last)
    | none => .ok p
  Action.update fun p => do pure { p with market := ← p.market.append day.date day.bars }
  Action.update fun p => do pure { p with fx := ← p.fx.append day.date day.rates }

/-- Dividends of the day on the positions before its splits. -/
def applyCorporateActions (day : MarketDay) : Action Portfolio Unit := do
  Action.forEach (day.bars.toList.filter (·.2.hasDividend)) fun (a, bar) =>
    handleDividend day.date a (.known bar.dividend)
  Action.forEach (day.bars.toList.filter (·.2.hasSplit)) fun (a, bar) =>
    handleSplit day.date a (.known bar.split)

def allocateCapital (d : Date) : Action Portfolio Unit := do
  let capital ← Action.read fun p => p.allocator.allocate p.strategies d p.base p.market p.fx
  Action.forEach capital fun (name, c) => onStrategy name (Action.update (·.setTarget c))

def runStrategy (d : Date) (name : String) : Action Portfolio Unit := do
  let p ← Action.get
  let signals ← onStrategy name fun s =>
    match s.signals d p.market with
    | .ok (s, signals) => (s, .ok signals)
    | .error e => (s, .error e)
  if !signals.isEmpty then handleSignal d name signals

def handleMarket (day : MarketDay) : Action Portfolio Unit := do
  takeIn day
  applyCorporateActions day
  allocateCapital day.date
  let p ← Action.get
  Action.forEach p.strategies.keys (runStrategy day.date)
  let _ ← recordEquity day.date

def handle : Event → Action Portfolio Unit
  | .market day => handleMarket day
  | .signal d name signals => handleSignal d name signals
  | .order r => handleOrder r
  | .fill f => handleFill f
  | .dividend d a perShare => handleDividend d a perShare
  | .split d a ratio => handleSplit d a ratio
  | .rebalance d name weights => handleRebalance d name weights
  | .other kind => fun p => (p, .error (.unsupportedEvent p.name kind))

end Portfolio
end Backtesting
