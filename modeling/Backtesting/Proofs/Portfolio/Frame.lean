import Backtesting.Portfolio.Events
import Backtesting.Proofs.Action
import Backtesting.Proofs.Strategy.Setup

/-!
What an event can change. A portfolio is written to in few ways: a strategy evolves or is told to work
with other capital, a fill or a log entry is added, a count goes up, the brokerage moves on, and on a
market event the histories and the equity curve are written. A relation that allows these writes
holds between the states before and after every event, whether it succeeds or not.
-/
namespace Backtesting.Portfolio

open Backtesting.Action (IsPath Keeps)
open Backtesting.Except (FailsOnly)

/-- Relations that allow what is written when an order is placed or a dividend or a split comes: the
book of a strategy, but not what its rule remembers. -/
structure AllowsBooks (n : String) (r : Portfolio → Portfolio → Prop) : Prop where
  path : IsPath r
  book : ∀ {p s b}, p.strategies.get? n = some s → s.book.Evolves s.assets b →
    r p { p with strategies := p.strategies.put n { s with book := b } }
  fills : ∀ p f, f.strategy = n → r p { p with fills := p.fills ++ [f] }
  signalCount : ∀ p k, r p { p with signalCount := p.signalCount + k }
  orderCount : ∀ p, r p { p with orderCount := p.orderCount + 1 }
  brokerage : ∀ p b, b.commission = p.brokerage.commission → r p { p with brokerage := b }
  journal : ∀ p j, r p { p with journal := j }

/-- Relations that allow what a strategy writes while it trades. -/
structure AllowsTrading (n : String) (r : Portfolio → Portfolio → Prop) : Prop where
  path : IsPath r
  strategy : ∀ {p s t}, p.strategies.get? n = some s → s.Evolves t →
    r p { p with strategies := p.strategies.put n t }
  fills : ∀ p f, f.strategy = n → r p { p with fills := p.fills ++ [f] }
  signalCount : ∀ p k, r p { p with signalCount := p.signalCount + k }
  orderCount : ∀ p, r p { p with orderCount := p.orderCount + 1 }
  brokerage : ∀ p b, b.commission = p.brokerage.commission → r p { p with brokerage := b }
  journal : ∀ p j, r p { p with journal := j }

theorem AllowsTrading.books {n : String} {r : Portfolio → Portfolio → Prop}
    (hr : AllowsTrading n r) : AllowsBooks n r where
  path := hr.path
  book hs hb := hr.strategy hs ⟨rfl, hb⟩
  fills := hr.fills
  signalCount := hr.signalCount
  orderCount := hr.orderCount
  brokerage := hr.brokerage
  journal := hr.journal

/-- Relations that allow a strategy to be given capital as well. -/
structure AllowsFunding (n : String) (r : Portfolio → Portfolio → Prop) : Prop
    extends AllowsTrading n r where
  target : ∀ {p s} target, p.strategies.get? n = some s →
    r p { p with strategies := p.strategies.put n { s with book := { s.book with target } } }

/-- Relations that allow what dividends, splits and trading write. -/
structure AllowsActions (r : Portfolio → Portfolio → Prop) : Prop where
  trading : ∀ n, AllowsTrading n r
  split : ∀ p a c, r p { p with market := (p.market.split a c).1 }

/-- Relations that allow what any event writes. -/
structure AllowsEvents (r : Portfolio → Portfolio → Prop) : Prop where
  trading : ∀ n, AllowsFunding n r
  market : ∀ p market, r p { p with market }
  fx : ∀ {p d rates fx}, p.fx.append d rates = .ok fx → r p { p with fx }
  equity : ∀ p equity, r p { p with equity }

theorem commission_submit (b : Brokerage) (h : MarketHistory) (o : Order) :
    (b.submit h o).1.commission = b.commission := by
  unfold Brokerage.submit
  dsimp only
  split <;> rfl

variable {n : String} {r : Portfolio → Portfolio → Prop}

theorem onStrategy_eq_ok {x : Action Strategy α} {p q : Portfolio} {a : α}
    (h : onStrategy n x p = (q, .ok a)) :
    ∃ s t, p.strategies.get? n = some s ∧ x s = (t, .ok a) ∧
      q = { p with strategies := p.strategies.put n t } := by
  unfold onStrategy at h
  cases hs : p.strategies.get? n with
  | none => simp [hs] at h
  | some s =>
    simp only [hs, Prod.mk.injEq] at h
    obtain ⟨rfl, hx⟩ := h
    exact ⟨s, (x s).1, rfl, Prod.ext rfl hx, rfl⟩

theorem onStrategy_eq_error {x : Action Strategy α} {p q : Portfolio} {e : Error}
    (h : onStrategy n x p = (q, .error e)) :
    (p.strategies.get? n = none ∧ e = .unknownStrategy n ∧ q = p) ∨
      ∃ s t, p.strategies.get? n = some s ∧ x s = (t, .error e) ∧
        q = { p with strategies := p.strategies.put n t } := by
  unfold onStrategy at h
  cases hs : p.strategies.get? n with
  | none =>
    simp only [hs, Prod.mk.injEq, Except.error.injEq] at h
    exact Or.inl ⟨rfl, h.2.symm, h.1.symm⟩
  | some s =>
    simp only [hs, Prod.mk.injEq] at h
    obtain ⟨rfl, hx⟩ := h
    exact Or.inr ⟨s, (x s).1, rfl, Prod.ext rfl hx, rfl⟩

theorem onStrategy_ok {x : Action Strategy α} {p : Portfolio} {s t : Strategy} {a : α}
    (hs : p.strategies.get? n = some s) (hx : x s = (t, .ok a)) :
    onStrategy n x p = ({ p with strategies := p.strategies.put n t }, .ok a) := by
  simp only [onStrategy, hs, hx]

theorem strategy_eq_ok {p : Portfolio} {s : Strategy} :
    p.strategy n = .ok s ↔ p.strategies.get? n = some s := by
  unfold strategy
  cases p.strategies.get? n <;> simp

theorem signals_eq_ok {d : Date} {market : MarketHistory} {p q : Portfolio} {signals : Signals}
    (h : onStrategy n (fun s =>
      match s.signals d market with
      | .ok (s, signals) => (s, .ok signals)
      | .error e => (s, .error e)) p = (q, .ok signals)) :
    ∃ s t, p.strategies.get? n = some s ∧ s.signals d market = .ok (t, signals) ∧
      q = { p with strategies := p.strategies.put n t } := by
  obtain ⟨s, t, hs, hrun, rfl⟩ := onStrategy_eq_ok h
  cases hfound : s.signals d market with
  | error e => simp [hfound] at hrun
  | ok found =>
    obtain ⟨t', found⟩ := found
    simp only [hfound, Prod.mk.injEq, Except.ok.injEq] at hrun
    obtain ⟨rfl, rfl⟩ := hrun
    exact ⟨s, t', hs, hfound, rfl⟩

/-- A step of a strategy fails as the step does, or because there is no such strategy. -/
theorem failsOnly_onStrategy {E : Error → Prop} {x : Action Strategy α} {p : Portfolio}
    (hn : n ∉ p.strategies.keys → E (.unknownStrategy n))
    (hx : ∀ s, p.strategies.get? n = some s → FailsOnly E (x s).2) :
    FailsOnly E (onStrategy n x p).2 := by
  unfold onStrategy
  cases hs : p.strategies.get? n with
  | none => exact FailsOnly.error (hn (OrderedMap.get?_eq_none_iff.mp hs))
  | some s => exact hx s hs

theorem failsOnly_strategy {E : Error → Prop} {p : Portfolio}
    (hn : n ∉ p.strategies.keys → E (.unknownStrategy n)) : FailsOnly E (p.strategy n) := by
  unfold strategy
  cases hs : p.strategies.get? n with
  | none => exact FailsOnly.error (hn (OrderedMap.get?_eq_none_iff.mp hs))
  | some s => exact FailsOnly.ok s

namespace AllowsBooks

theorem log (hr : AllowsBooks n r) (level : Level) (text : String) :
    Keeps r (Portfolio.log level text) :=
  Keeps.modify fun p => hr.journal p _

/-- A step of a book is a step of its strategy. -/
theorem onBook (hr : AllowsBooks n r) {x : Listings → Action Book α}
    (hx : ∀ l b, Book.Evolves l b (x l b).1) :
    Keeps r (Portfolio.onStrategy n fun s => Strategy.onBook (x s.assets) s) := by
  intro p
  unfold Portfolio.onStrategy
  cases hs : p.strategies.get? n with
  | none => exact hr.path.refl p
  | some s => exact hr.book hs (hx s.assets s.book)

theorem handleFill {f : Fill} (hr : AllowsBooks f.strategy r) :
    Keeps r (Portfolio.handleFill f) := by
  refine Keeps.bind hr.path (hr.onBook fun l b => Book.Evolves.applyFill l f b) fun _ => ?_
  refine Keeps.bind hr.path (Keeps.modify fun p => hr.fills p f rfl) fun _ => ?_
  exact hr.log _ _

theorem submit (hr : AllowsBooks n r) (o : Order) : Keeps r (Portfolio.submit o) := by
  intro p
  exact hr.brokerage p _ (commission_submit p.brokerage (p.venue.getD p.market) o)

end AllowsBooks

/-- A fill is of the order that it fills. -/
theorem execute_filled {c : Commission} {o : Order} {bar : Option Bar} {f : Fill}
    (h : Brokerage.execute c o bar = .ok (.filled f)) :
    f.date = o.date ∧ f.strategy = o.strategy ∧ f.asset = o.asset ∧ f.action = o.action ∧
      f.quantity = o.quantity := by
  cases bar with
  | none => simp [Brokerage.execute] at h
  | some bar =>
    obtain ⟨price, -, h⟩ := Except.bind_eq_ok.mp h
    cases price with
    | none => simp at h
    | some price =>
      obtain ⟨cost, -, h⟩ := Except.bind_eq_ok.mp h
      obtain rfl := Brokerage.Outcome.filled.inj (Except.pure_eq_ok.mp h)
      exact ⟨rfl, rfl, rfl, rfl, rfl⟩

theorem submit_filled {o : Order} {p q : Portfolio} {f : Fill}
    (h : submit o p = (q, .ok (.filled f))) :
    Brokerage.execute p.brokerage.commission o ((p.venue.getD p.market).bar? o.date o.asset) =
        .ok (.filled f) ∧
      q = { p with brokerage := { p.brokerage with
        fills := p.brokerage.fills ++ [f], submitted := p.brokerage.submitted + 1 } } := by
  simp only [submit, Brokerage.submit] at h
  split at h
  · simp at h
  · next g hg =>
    simp only [Prod.mk.injEq, Except.ok.injEq, Brokerage.Outcome.filled.injEq] at h
    obtain ⟨rfl, rfl⟩ := h
    exact ⟨hg, rfl⟩
  · next outcome hfilled hexecute =>
    simp only [Prod.mk.injEq, Except.ok.injEq] at h
    exact absurd h.2 (hfilled f)

theorem validate_eq_ok {r : OrderRequest} {o : Order} (h : r.validate = .ok o) :
    o.date = r.date ∧ o.strategy = r.strategy ∧ o.asset = r.asset ∧ o.action = r.action ∧
      OrderRequest.wholeQuantity r.quantity = .ok o.quantity := by
  obtain ⟨primary, -, h⟩ := Except.bind_eq_ok.mp h
  obtain ⟨secondary, -, h⟩ := Except.bind_eq_ok.mp h
  obtain ⟨quantity, hquantity, h⟩ := Except.bind_eq_ok.mp h
  split at h
  · obtain ⟨terms, -, h⟩ := Except.bind_eq_ok.mp h
    obtain ⟨-, -, h⟩ := Except.bind_eq_ok.mp h
    obtain ⟨-, -, h⟩ := Except.bind_eq_ok.mp h
    obtain rfl := Except.pure_eq_ok.mp h
    exact ⟨rfl, rfl, rfl, rfl, hquantity⟩
  · exact absurd h Except.throw_ne_ok

namespace AllowsBooks

theorem handleOrder {q : OrderRequest} (hr : AllowsBooks q.strategy r) :
    Keeps r (Portfolio.handleOrder q) := by
  refine Keeps.bind hr.path (Keeps.read hr.path _) fun _ => ?_
  refine Keeps.bind_of_ok hr.path (Keeps.ofExcept hr.path _) fun {_ _ o} hvalidate => ?_
  have horder : o.strategy = q.strategy :=
    (validate_eq_ok (Action.ofExcept_eq_ok.mp hvalidate).2).2.1
  refine Keeps.bind hr.path (Keeps.modify hr.orderCount) fun _ => ?_
  refine Keeps.bind_of_ok hr.path (hr.submit o) fun {_ _ outcome} hsubmit => ?_
  cases outcome with
  | noBar => exact hr.log _ _
  | unmatched close => exact hr.log _ _
  | filled f =>
    have hfill : f.strategy = q.strategy :=
      (execute_filled (submit_filled hsubmit).1).2.1.trans horder
    refine Keeps.bind hr.path (hr.log _ _) fun _ => ?_
    exact handleFill (by rwa [hfill])

theorem submitTarget (hr : AllowsBooks n r) (d : Date) (e : Asset × Int) :
    Keeps r (Portfolio.submitTarget n d e) := by
  refine Keeps.bind hr.path (Keeps.read hr.path _) fun s => ?_
  dsimp only
  split
  · exact Keeps.pure hr.path ()
  · refine Keeps.bind hr.path (Keeps.read hr.path _) fun prices => ?_
    exact handleOrder hr

theorem submitTargets (hr : AllowsBooks n r) (d : Date) (sizes : OrderedMap Asset Int) :
    Keeps r (Portfolio.submitTargets n d sizes) :=
  Keeps.forEach hr.path (hr.submitTarget d) sizes.toList

theorem handleSignal (hr : AllowsBooks n r) (d : Date) (signals : Signals) :
    Keeps r (Portfolio.handleSignal d n signals) := by
  refine Keeps.bind hr.path (Keeps.read hr.path _) fun s => ?_
  refine Keeps.bind hr.path (Keeps.modify fun p => hr.signalCount p _) fun _ => ?_
  refine Keeps.bind hr.path (Keeps.read hr.path _) fun sizes => ?_
  exact hr.submitTargets d sizes

theorem handleRebalance (hr : AllowsBooks n r) (d : Date) (weights : List (Asset × Amount)) :
    Keeps r (Portfolio.handleRebalance d n weights) := by
  refine Keeps.bind hr.path (Keeps.read hr.path _) fun s => ?_
  refine Keeps.bind hr.path (Keeps.ofExcept hr.path _) fun sizer => ?_
  refine Keeps.bind hr.path (Keeps.read hr.path _) fun sizes => ?_
  exact hr.submitTargets d sizes

theorem creditDividend (hr : AllowsBooks n r) (d : Date) (a : Asset) (perShare : Amount) :
    Keeps r (Portfolio.creditDividend d a perShare n) := by
  refine Keeps.bind hr.path (Keeps.read hr.path _) fun s => ?_
  split
  · refine Keeps.bind hr.path (hr.onBook fun l b => Book.Evolves.applyDividend l a perShare b)
      fun credit => ?_
    split
    · exact hr.log _ _
    · exact Keeps.pure hr.path ()
  · exact Keeps.pure hr.path ()

theorem splitPosition (hr : AllowsBooks n r) (a : Asset) (ratio : Amount) :
    Keeps r (Portfolio.splitPosition a ratio n) := by
  refine Keeps.bind hr.path (Keeps.read hr.path _) fun s => ?_
  split
  · intro p
    unfold Portfolio.onStrategy
    cases hs : p.strategies.get? n with
    | none => exact hr.path.refl p
    | some s =>
      cases hb : s.applySplit a ratio with
      | error e =>
        have hstay := hr.book hs (Book.Evolves.isPath.refl s.book)
        simpa [Action.update, hb] using hstay
      | ok t =>
        obtain ⟨b, hsplit, rfl⟩ := Strategy.applySplit_eq_ok hb
        simpa [Action.update, hb] using hr.book hs (Book.Evolves.applySplit hsplit)
  · exact Keeps.pure hr.path ()

theorem handleDividend (hr : ∀ n, AllowsBooks n r) (d : Date) (a : Asset) (perShare : Amount) :
    Keeps r (Portfolio.handleDividend d a perShare) := by
  have hpath : IsPath r := (hr "").path
  refine Keeps.bind hpath (Keeps.get hpath) fun p => ?_
  exact Keeps.forEach hpath (fun n => (hr n).creditDividend d a perShare) _

theorem splitPositions (hr : ∀ n, AllowsBooks n r) (a : Asset) (ratio : Amount)
    (ns : List String) : Keeps r (Action.forEach ns (Portfolio.splitPosition a ratio)) :=
  Keeps.forEach (hr "").path (fun n => (hr n).splitPosition a ratio) ns

end AllowsBooks

namespace AllowsTrading

theorem onStrategy (hr : AllowsTrading n r) {x : Action Strategy α}
    (hx : ∀ s : Strategy, s.Evolves (x s).1) : Keeps r (Portfolio.onStrategy n x) := by
  intro p
  unfold Portfolio.onStrategy
  cases hs : p.strategies.get? n with
  | none => exact hr.path.refl p
  | some s => exact hr.strategy hs (hx s)

theorem signals (hr : AllowsTrading n r) (d : Date) (market : MarketHistory) :
    Keeps r (Portfolio.onStrategy n fun s =>
      match s.signals d market with
      | .ok (s, signals) => (s, .ok signals)
      | .error e => (s, .error e)) := by
  apply hr.onStrategy
  intro s
  cases hs : s.signals d market with
  | error e => exact ⟨rfl, Book.Evolves.isPath.refl s.book⟩
  | ok found => exact Strategy.evolves_signals hs

theorem runStrategy (hr : AllowsTrading n r) (d : Date) :
    Keeps r (Portfolio.runStrategy d n) := by
  refine Keeps.bind hr.path (Keeps.get hr.path) fun p => ?_
  refine Keeps.bind hr.path (hr.signals d p.market) fun signals => ?_
  split
  · exact hr.books.handleSignal d signals
  · exact Keeps.pure hr.path ()

theorem runStrategies (hr : ∀ n, AllowsTrading n r) (d : Date) (ns : List String) :
    Keeps r (Action.forEach ns (Portfolio.runStrategy d)) :=
  Keeps.forEach (hr "").path (fun n => (hr n).runStrategy d) ns

end AllowsTrading

/-- Capital is written to the targets, whatever becomes of it. -/
theorem keeps_setTarget (hr : IsPath r)
    (htarget : ∀ {p s} target, p.strategies.get? n = some s →
      r p { p with strategies := p.strategies.put n { s with book := { s.book with target } } })
    (capital : BalanceSheet) :
    Keeps r (onStrategy n (Action.update (·.setTarget capital))) := by
  intro p
  unfold Portfolio.onStrategy
  cases hs : p.strategies.get? n with
  | none => exact hr.refl p
  | some s =>
    cases hset : s.setTarget capital with
    | error e =>
      have hstay := htarget s.book.target hs
      simpa [Action.update, hset] using hstay
    | ok t =>
      obtain ⟨target, -, rfl⟩ := Strategy.setTarget_eq_ok hset
      simpa [Action.update, hset] using htarget target hs

theorem keeps_allocateCapital (hr : IsPath r)
    (htarget : ∀ n {p s} target, p.strategies.get? n = some s →
      r p { p with strategies := p.strategies.put n { s with book := { s.book with target } } })
    (d : Date) : Keeps r (allocateCapital d) := by
  refine Keeps.bind hr (Keeps.read hr _) fun capital => ?_
  refine Keeps.forEach hr ?_ capital
  rintro ⟨n, c⟩
  exact keeps_setTarget hr (htarget n) c

theorem AllowsFunding.allocateCapital (hr : ∀ n, AllowsFunding n r) (d : Date) :
    Keeps r (Portfolio.allocateCapital d) :=
  keeps_allocateCapital (hr "").path (fun n => (hr n).target) d

namespace AllowsBooks

variable (hr : ∀ n, AllowsBooks n r)
  (hsplit : ∀ p a c, r p { p with market := (p.market.split a c).1 })
include hr hsplit

theorem handleSplit (d : Date) (a : Asset) (ratio : Amount) :
    Keeps r (Portfolio.handleSplit d a ratio) := by
  have hpath : IsPath r := (hr "").path
  refine Keeps.bind hpath (Keeps.get hpath) fun p => ?_
  refine Keeps.bind hpath (splitPositions hr a ratio _) fun _ => ?_
  refine Keeps.bind hpath (Keeps.ofExcept hpath _) fun coefficient => ?_
  have hbars : Keeps r (splitBars a coefficient) := fun p => hsplit p a coefficient
  refine Keeps.bind hpath hbars fun count => ?_
  exact (hr "").log _ _

theorem applyCorporateActions (day : MarketDay) :
    Keeps r (Portfolio.applyCorporateActions day) := by
  have hpath : IsPath r := (hr "").path
  refine Keeps.bind hpath (Keeps.forEach hpath ?_ _) fun _ => Keeps.forEach hpath ?_ _
  · rintro ⟨a, bar⟩
    exact handleDividend hr day.date a _
  · rintro ⟨a, bar⟩
    exact handleSplit hr hsplit day.date a _

/-- The events other than those of a whole day, which let no rule signal. -/
theorem handle : ∀ e, (∀ day, e ≠ .market day) → Keeps r (Portfolio.handle e)
  | .market day, h => absurd rfl (h day)
  | .signal d n signals, _ => (hr n).handleSignal d signals
  | .order q, _ => handleOrder (hr q.strategy)
  | .fill f, _ => handleFill (hr f.strategy)
  | .dividend d a perShare, _ => handleDividend hr d a perShare
  | .split d a ratio, _ => handleSplit hr hsplit d a ratio
  | .rebalance d n weights, _ => (hr n).handleRebalance d weights
  | .other _, _ => (hr "").path.refl

end AllowsBooks

namespace AllowsActions

theorem path (hr : AllowsActions r) : IsPath r := (hr.trading "").path

theorem books (hr : AllowsActions r) (n : String) : AllowsBooks n r := (hr.trading n).books

theorem handleSplit (hr : AllowsActions r) (d : Date) (a : Asset) (ratio : Amount) :
    Keeps r (Portfolio.handleSplit d a ratio) := AllowsBooks.handleSplit hr.books hr.split d a ratio

theorem applyCorporateActions (hr : AllowsActions r) (day : MarketDay) :
    Keeps r (Portfolio.applyCorporateActions day) :=
  AllowsBooks.applyCorporateActions hr.books hr.split day

theorem handle (hr : AllowsActions r) (e : Event) (he : ∀ day, e ≠ .market day) :
    Keeps r (Portfolio.handle e) := AllowsBooks.handle hr.books hr.split e he

end AllowsActions

/-- The stores are written one after the other. -/
theorem keeps_takeIn (hr : IsPath r)
    (hmarket : ∀ {p d bars market}, p.market.append d bars = .ok market → r p { p with market })
    (hfx : ∀ {p d rates fx}, p.fx.append d rates = .ok fx → r p { p with fx }) (day : MarketDay) :
    Keeps r (takeIn day) := by
  refine Keeps.bind hr (Keeps.update hr fun p q h => ?_) fun _ => ?_
  · split at h
    · simp at h
    · obtain rfl := Except.ok.inj h
      exact hr.refl p
  refine Keeps.bind hr (Keeps.update hr fun p q h => ?_) fun _ => ?_
  · obtain ⟨market, happend, h⟩ := Except.bind_eq_ok.mp h
    obtain rfl := Except.pure_eq_ok.mp h
    exact hmarket happend
  refine Keeps.update hr fun p q h => ?_
  obtain ⟨fx, happend, h⟩ := Except.bind_eq_ok.mp h
  obtain rfl := Except.pure_eq_ok.mp h
  exact hfx happend

theorem keeps_recordEquity (hr : IsPath r) (hequity : ∀ p equity, r p { p with equity })
    (hjournal : ∀ p j, r p { p with journal := j }) (d : Date) : Keeps r (recordEquity d) := by
  refine Keeps.bind hr (Keeps.read hr _) fun value => ?_
  refine Keeps.bind hr (Keeps.update hr fun p q h => ?_) fun _ => ?_
  · obtain ⟨equity, -, h⟩ := Except.bind_eq_ok.mp h
    obtain rfl := Except.pure_eq_ok.mp h
    exact hequity p equity
  refine Keeps.bind hr (Keeps.get hr) fun p => ?_
  refine Keeps.bind hr (Keeps.modify fun p => hjournal p _) fun _ => ?_
  exact Keeps.pure hr value

namespace AllowsEvents

theorem path (hr : AllowsEvents r) : IsPath r := (hr.trading "").path

theorem actions (hr : AllowsEvents r) : AllowsActions r where
  trading n := (hr.trading n).toAllowsTrading
  split p _ _ := hr.market p _

theorem takeIn (hr : AllowsEvents r) (day : MarketDay) : Keeps r (Portfolio.takeIn day) :=
  keeps_takeIn hr.path (fun {p _ _ market} _ => hr.market p market) hr.fx day

theorem recordEquity (hr : AllowsEvents r) (d : Date) : Keeps r (Portfolio.recordEquity d) :=
  keeps_recordEquity hr.path hr.equity (hr.trading "").journal d

theorem handleMarket (hr : AllowsEvents r) (day : MarketDay) :
    Keeps r (Portfolio.handleMarket day) := by
  refine Keeps.bind hr.path (hr.takeIn day) fun _ => ?_
  refine Keeps.bind hr.path (hr.actions.applyCorporateActions day) fun _ => ?_
  refine Keeps.bind hr.path (AllowsFunding.allocateCapital hr.trading day.date) fun _ => ?_
  refine Keeps.bind hr.path (Keeps.get hr.path) fun p => ?_
  refine Keeps.bind hr.path (AllowsTrading.runStrategies hr.actions.trading day.date _) fun _ => ?_
  refine Keeps.bind hr.path (hr.recordEquity day.date) fun _ => ?_
  exact Keeps.pure hr.path ()

/-- Every event moves within the relation, whatever becomes of it. -/
theorem handle (hr : AllowsEvents r) (e : Event) : Keeps r (Portfolio.handle e) := by
  cases e with
  | market day => exact hr.handleMarket day
  | _ => exact hr.actions.handle _ nofun

end AllowsEvents
end Backtesting.Portfolio
