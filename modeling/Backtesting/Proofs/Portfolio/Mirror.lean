import Backtesting.Proofs.OrderedMap
import Backtesting.Proofs.Portfolio.Frame

/-!
Portfolios that behave alike. What an event does depends on the configuration, on the strategies, on
the histories and on the equity curve; the fills so far, the counts, the fills of the brokerage and
the journal are only written. A relation between portfolios that agree on what is read, and that
allows the same writes on both sides, is a simulation.
-/
namespace Backtesting.Portfolio

open Backtesting.Action (Mirrors)
open Backtesting.Except (Agree)

/-- Relations between portfolios that run one strategy alike. -/
structure MirrorsTrading (n : String) (R : Portfolio → Portfolio → Prop) : Prop where
  same_strategy : ∀ {p q}, R p q → p.strategies.get? n = q.strategies.get? n
  same_market : ∀ {p q}, R p q → p.market = q.market
  same_fx : ∀ {p q}, R p q → p.fx = q.fx
  same_venue : ∀ {p q}, R p q → p.venue = q.venue
  same_commission : ∀ {p q}, R p q → p.brokerage.commission = q.brokerage.commission
  strategy : ∀ {p q s}, R p q → p.strategies.get? n = some s → ∀ t : Strategy,
    R { p with strategies := p.strategies.put n t } { q with strategies := q.strategies.put n t }
  fills : ∀ {p q}, R p q → ∀ f : Fill, f.strategy = n →
    R { p with fills := p.fills ++ [f] } { q with fills := q.fills ++ [f] }
  signalCount : ∀ {p q}, R p q → ∀ k,
    R { p with signalCount := p.signalCount + k } { q with signalCount := q.signalCount + k }
  orderCount : ∀ {p q}, R p q →
    R { p with orderCount := p.orderCount + 1 } { q with orderCount := q.orderCount + 1 }
  brokerage : ∀ {p q}, R p q → ∀ b c : Brokerage, b.commission = p.brokerage.commission →
    c.commission = q.brokerage.commission → R { p with brokerage := b } { q with brokerage := c }
  journal : ∀ {p q}, R p q → ∀ j k, R { p with journal := j } { q with journal := k }

/-- Relations between portfolios that handle every event alike. -/
structure MirrorsEvents (R : Portfolio → Portfolio → Prop) : Prop where
  trading : ∀ n, MirrorsTrading n R
  same_name : ∀ {p q}, R p q → p.name = q.name
  same_base : ∀ {p q}, R p q → p.base = q.base
  same_allocator : ∀ {p q}, R p q → p.allocator = q.allocator
  same_strategies : ∀ {p q}, R p q → p.strategies = q.strategies
  same_equity : ∀ {p q}, R p q → p.equity = q.equity
  market : ∀ {p q}, R p q → ∀ market, R { p with market } { q with market }
  fx : ∀ {p q}, R p q → ∀ fx, R { p with fx } { q with fx }
  equity : ∀ {p q}, R p q → ∀ equity, R { p with equity } { q with equity }

variable {n : String} {R : Portfolio → Portfolio → Prop}

theorem strategy_congr {p q : Portfolio} (h : p.strategies.get? n = q.strategies.get? n) :
    p.strategy n = q.strategy n := by
  rw [strategy, strategy, h]

/-- The same order has the same outcome where the commission is the same and so is the bar. -/
theorem submit_outcome {p q : Portfolio} {o : Order}
    (hbar : (p.venue.getD p.market).bar? o.date o.asset =
      (q.venue.getD q.market).bar? o.date o.asset)
    (hcommission : p.brokerage.commission = q.brokerage.commission) :
    (submit o p).2 = (submit o q).2 := by
  simp only [submit, Brokerage.submit, hbar, hcommission]
  cases Brokerage.execute q.brokerage.commission o ((q.venue.getD q.market).bar? o.date o.asset) with
  | error e => rfl
  | ok outcome => cases outcome <;> rfl

namespace MirrorsTrading

theorem log (hR : MirrorsTrading n R) (level level' : Level) (text text' : String) :
    Mirrors R Eq (Portfolio.log level text) (Portfolio.log level' text') :=
  Mirrors.modify fun _ _ h => hR.journal h _ _

theorem readStrategy (hR : MirrorsTrading n R) :
    Mirrors R Eq (Action.read (·.strategy n)) (Action.read (·.strategy n)) :=
  Mirrors.read fun _ _ h => strategy_congr (hR.same_strategy h)

theorem onStrategy (hR : MirrorsTrading n R) (x : Action Strategy α) :
    Mirrors R Eq (Portfolio.onStrategy n x) (Portfolio.onStrategy n x) := by
  intro p q h
  have hget := hR.same_strategy h
  unfold Portfolio.onStrategy
  rw [← hget]
  cases hs : p.strategies.get? n with
  | none => exact ⟨h, .error _⟩
  | some s => exact ⟨hR.strategy h hs _, .of_eq rfl⟩

theorem handleFill {f : Fill} (hR : MirrorsTrading f.strategy R) :
    Mirrors R Eq (Portfolio.handleFill f) (Portfolio.handleFill f) := by
  refine Mirrors.bind (hR.onStrategy _) fun _ _ _ => ?_
  refine Mirrors.bind (Mirrors.modify fun _ _ h => hR.fills h f rfl) fun _ _ _ => ?_
  exact hR.log _ _ _ _

theorem submit (hR : MirrorsTrading n R) (o : Order) :
    Mirrors R (fun a b => a = b ∧ ∀ f, a = .filled f → f.strategy = o.strategy)
      (Portfolio.submit o) (Portfolio.submit o) := by
  intro p q h
  have hbar : (p.venue.getD p.market).bar? o.date o.asset =
      (q.venue.getD q.market).bar? o.date o.asset := by
    rw [hR.same_venue h, hR.same_market h]
  have houtcome := submit_outcome hbar (hR.same_commission h)
  refine ⟨hR.brokerage h _ _ (commission_submit _ _ o) (commission_submit _ _ o), ?_⟩
  rw [← houtcome]
  rcases hp : Portfolio.submit o p with ⟨p', e | outcome⟩
  · exact .error e
  · refine .ok ⟨rfl, ?_⟩
    rintro f rfl
    exact (execute_filled (submit_filled hp).1).2.1

theorem handleOrder {q : OrderRequest} (hR : MirrorsTrading q.strategy R) :
    Mirrors R Eq (Portfolio.handleOrder q) (Portfolio.handleOrder q) := by
  refine Mirrors.bind hR.readStrategy fun _ _ _ => ?_
  have hvalidate : Mirrors R (fun a b => a = b ∧ a.strategy = q.strategy)
      (Action.ofExcept q.validate) (Action.ofExcept q.validate) := by
    intro p p' h
    refine ⟨h, ?_⟩
    cases hq : q.validate with
    | error e => simpa [Action.ofExcept, hq] using Agree.error e
    | ok o => simpa [Action.ofExcept, hq] using Agree.ok ⟨rfl, (validate_eq_ok hq).2.1⟩
  refine Mirrors.bind hvalidate ?_
  rintro o _ ⟨rfl, horder⟩
  refine Mirrors.bind (Mirrors.modify fun _ _ h => hR.orderCount h) fun _ _ _ => ?_
  refine Mirrors.bind (hR.submit o) ?_
  rintro outcome _ ⟨rfl, hfill⟩
  cases outcome with
  | noBar => exact hR.log _ _ _ _
  | unmatched close => exact hR.log _ _ _ _
  | filled f =>
    have hf : f.strategy = q.strategy := (hfill f rfl).trans horder
    refine Mirrors.bind (hR.log _ _ _ _) fun _ _ _ => ?_
    exact handleFill (by rwa [hf])

theorem submitTarget (hR : MirrorsTrading n R) (d : Date) (e : Asset × Int) :
    Mirrors R Eq (Portfolio.submitTarget n d e) (Portfolio.submitTarget n d e) := by
  refine Mirrors.bind hR.readStrategy ?_
  rintro s _ rfl
  dsimp only
  split
  · exact Mirrors.pure rfl
  · refine Mirrors.bind (Mirrors.read fun _ _ h => by rw [hR.same_market h]) ?_
    rintro prices _ rfl
    exact handleOrder hR

theorem submitTargets (hR : MirrorsTrading n R) (d : Date) (sizes : OrderedMap Asset Int) :
    Mirrors R Eq (Portfolio.submitTargets n d sizes) (Portfolio.submitTargets n d sizes) :=
  Mirrors.forEach fun e _ => hR.submitTarget d e

theorem handleSignal (hR : MirrorsTrading n R) (d : Date) (signals : Signals) :
    Mirrors R Eq (Portfolio.handleSignal d n signals) (Portfolio.handleSignal d n signals) := by
  refine Mirrors.bind hR.readStrategy ?_
  rintro s _ rfl
  refine Mirrors.bind (Mirrors.modify fun _ _ h => hR.signalCount h _) fun _ _ _ => ?_
  refine Mirrors.bind (Mirrors.read fun _ _ h => by rw [hR.same_market h, hR.same_fx h]) ?_
  rintro sizes _ rfl
  exact hR.submitTargets d sizes

theorem handleRebalance (hR : MirrorsTrading n R) (d : Date) (weights : List (Asset × Amount)) :
    Mirrors R Eq (Portfolio.handleRebalance d n weights)
      (Portfolio.handleRebalance d n weights) := by
  refine Mirrors.bind hR.readStrategy ?_
  rintro s _ rfl
  refine Mirrors.bind (Mirrors.ofExcept _) ?_
  rintro sizer _ rfl
  refine Mirrors.bind (Mirrors.read fun _ _ h => by rw [hR.same_market h, hR.same_fx h]) ?_
  rintro sizes _ rfl
  exact hR.submitTargets d sizes

theorem runStrategy (hR : MirrorsTrading n R) (d : Date) :
    Mirrors R Eq (Portfolio.runStrategy d n) (Portfolio.runStrategy d n) := by
  refine Mirrors.bind Mirrors.get fun p q h => ?_
  rw [hR.same_market h]
  refine Mirrors.bind (hR.onStrategy _) ?_
  rintro signals _ rfl
  split
  · exact hR.handleSignal d signals
  · exact Mirrors.pure rfl

theorem creditDividend (hR : MirrorsTrading n R) (d : Date) (a : Asset) (perShare : Amount) :
    Mirrors R Eq (Portfolio.creditDividend d a perShare n)
      (Portfolio.creditDividend d a perShare n) := by
  refine Mirrors.bind hR.readStrategy ?_
  rintro s _ rfl
  split
  · refine Mirrors.bind (hR.onStrategy _) ?_
    rintro credit _ rfl
    split
    · exact hR.log _ _ _ _
    · exact Mirrors.pure rfl
  · exact Mirrors.pure rfl

theorem splitPosition (hR : MirrorsTrading n R) (a : Asset) (ratio : Amount) :
    Mirrors R Eq (Portfolio.splitPosition a ratio n) (Portfolio.splitPosition a ratio n) := by
  refine Mirrors.bind hR.readStrategy ?_
  rintro s _ rfl
  split
  · exact hR.onStrategy _
  · exact Mirrors.pure rfl

end MirrorsTrading

namespace MirrorsEvents

theorem takeIn (hR : MirrorsEvents R) (day : MarketDay) :
    Mirrors R Eq (Portfolio.takeIn day) (Portfolio.takeIn day) := by
  refine Mirrors.bind (Mirrors.update fun p q h => ?_) fun _ _ _ => ?_
  · rw [hR.same_equity h]
    split
    · exact .error _
    · exact .ok h
  refine Mirrors.bind (Mirrors.update fun p q h => ?_) fun _ _ _ => ?_
  · rw [(hR.trading "").same_market h]
    cases q.market.append day.date day.bars with
    | error e => exact .error e
    | ok market => exact .ok (hR.market h market)
  refine Mirrors.update fun p q h => ?_
  rw [(hR.trading "").same_fx h]
  cases q.fx.append day.date day.rates with
  | error e => exact .error e
  | ok fx => exact .ok (hR.fx h fx)

theorem handleDividend (hR : MirrorsEvents R) (d : Date) (a : Asset) (perShare : Amount) :
    Mirrors R Eq (Portfolio.handleDividend d a perShare)
      (Portfolio.handleDividend d a perShare) := by
  refine Mirrors.bind Mirrors.get fun p q h => ?_
  rw [hR.same_strategies h]
  exact Mirrors.forEach fun n _ => (hR.trading n).creditDividend d a perShare

theorem splitBars (hR : MirrorsEvents R) (a : Asset) (ratio : Decimal) :
    Mirrors R Eq (Portfolio.splitBars a ratio) (Portfolio.splitBars a ratio) := by
  intro p q h
  unfold Portfolio.splitBars
  rw [(hR.trading "").same_market h]
  exact ⟨hR.market h _, .of_eq rfl⟩

theorem handleSplit (hR : MirrorsEvents R) (d : Date) (a : Asset) (ratio : Amount) :
    Mirrors R Eq (Portfolio.handleSplit d a ratio) (Portfolio.handleSplit d a ratio) := by
  refine Mirrors.bind Mirrors.get fun p q h => ?_
  rw [hR.same_strategies h]
  refine Mirrors.bind
    (Mirrors.forEach fun n _ => (hR.trading n).splitPosition a ratio) fun _ _ _ => ?_
  refine Mirrors.bind (Mirrors.ofExcept _) ?_
  rintro coefficient _ rfl
  refine Mirrors.bind (hR.splitBars a coefficient) ?_
  rintro count _ rfl
  exact (hR.trading "").log _ _ _ _

theorem applyCorporateActions (hR : MirrorsEvents R) (day : MarketDay) :
    Mirrors R Eq (Portfolio.applyCorporateActions day) (Portfolio.applyCorporateActions day) := by
  refine Mirrors.bind (Mirrors.forEach ?_) fun _ _ _ => Mirrors.forEach ?_
  · rintro ⟨a, bar⟩ -
    exact hR.handleDividend day.date a _
  · rintro ⟨a, bar⟩ -
    exact hR.handleSplit day.date a _

theorem allocateCapital (hR : MirrorsEvents R) (d : Date) :
    Mirrors R Eq (Portfolio.allocateCapital d) (Portfolio.allocateCapital d) := by
  refine Mirrors.bind (Mirrors.read fun p q h => ?_) ?_
  · rw [hR.same_allocator h, hR.same_strategies h, hR.same_base h, (hR.trading "").same_market h,
      (hR.trading "").same_fx h]
  · rintro capital _ rfl
    apply Mirrors.forEach
    rintro ⟨n, c⟩ -
    exact (hR.trading n).onStrategy _

theorem recordEquity (hR : MirrorsEvents R) (d : Date) :
    Mirrors R Eq (Portfolio.recordEquity d) (Portfolio.recordEquity d) := by
  refine Mirrors.bind (Mirrors.read fun p q h => ?_) ?_
  · rw [totalValue, totalValue, hR.same_strategies h, hR.same_base h,
      (hR.trading "").same_market h, (hR.trading "").same_fx h]
  · rintro value _ rfl
    refine Mirrors.bind (Mirrors.update fun p q h => ?_) fun _ _ _ => ?_
    · rw [hR.same_equity h]
      cases q.equity.record d value with
      | error e => exact .error e
      | ok equity => exact .ok (hR.equity h equity)
    refine Mirrors.bind Mirrors.get fun p q h => ?_
    refine Mirrors.bind ((hR.trading "").log _ _ _ _) fun _ _ _ => ?_
    exact Mirrors.pure rfl

theorem handleMarket (hR : MirrorsEvents R) (day : MarketDay) :
    Mirrors R Eq (Portfolio.handleMarket day) (Portfolio.handleMarket day) := by
  refine Mirrors.bind (hR.takeIn day) fun _ _ _ => ?_
  refine Mirrors.bind (hR.applyCorporateActions day) fun _ _ _ => ?_
  refine Mirrors.bind (hR.allocateCapital day.date) fun _ _ _ => ?_
  refine Mirrors.bind Mirrors.get fun p q h => ?_
  rw [hR.same_strategies h]
  refine Mirrors.bind
    (Mirrors.forEach fun n _ => (hR.trading n).runStrategy day.date) fun _ _ _ => ?_
  refine Mirrors.bind (hR.recordEquity day.date) fun _ _ _ => ?_
  exact Mirrors.pure rfl

/-- Every event has the same outcome on both sides and leaves them alike. -/
theorem handle (hR : MirrorsEvents R) :
    ∀ e, Mirrors R Eq (Portfolio.handle e) (Portfolio.handle e)
  | .market day => hR.handleMarket day
  | .signal d n signals => (hR.trading n).handleSignal d signals
  | .order q => MirrorsTrading.handleOrder (hR.trading q.strategy)
  | .fill f => MirrorsTrading.handleFill (hR.trading f.strategy)
  | .dividend d a perShare => hR.handleDividend d a perShare
  | .split d a ratio => hR.handleSplit d a ratio
  | .rebalance d n weights => (hR.trading n).handleRebalance d weights
  | .other kind => by
    intro p q h
    refine ⟨h, ?_⟩
    simp only [Portfolio.handle, hR.same_name h]
    exact .error _

end MirrorsEvents
end Backtesting.Portfolio
