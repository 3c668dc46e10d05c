import Backtesting.Proofs.Market.Split
import Backtesting.Proofs.Portfolio.Stores
import Backtesting.Proofs.Strategy.Supply

/-!
A day with all that is needed. Where a portfolio has taken in a bar of every asset and a rate of every
currency that its strategies need, none is missing in any step of the day: dividends, splits, fills
and orders look nothing up or only what is signaled, and no step makes a strategy need anything else.
So a portfolio that goes through such days in order never looks for anything in vain.
-/
namespace Backtesting

open Backtesting.Action (IsPath Safe failsOnly_bind failsOnly_forEach failsOnly_update)
open Backtesting.Except (FailsOnly)

theorem Book.gapless_applyFill (l : Listings) (f : Fill) (b : Book) :
    Gapless (applyFill l f b).2 := by
  refine failsOnly_bind (by simp [Action.ofExcept]) fun _ c _ => ?_
  refine failsOnly_bind (FailsOnly.ok ()) fun _ _ _ => failsOnly_update ?_
  simp [credit]

theorem Book.gapless_applyDividend (l : Listings) (a : Asset) (perShare : Amount) (b : Book) :
    Gapless (applyDividend l a perShare b).2 := by
  refine failsOnly_bind (FailsOnly.ok b) fun b' _ hget => ?_
  obtain ⟨rfl, rfl⟩ := Action.get_eq_ok.mp hget
  split
  · exact FailsOnly.ok 0
  refine failsOnly_bind (by simp [Action.ofExcept]) fun _ c _ => ?_
  refine failsOnly_bind (by simp [Action.ofExcept]) fun _ amount _ => ?_
  exact failsOnly_bind (failsOnly_update (by simp [credit])) fun _ _ _ => FailsOnly.ok amount

theorem Book.gapless_applySplit (b : Book) (a : Asset) (ratio : Amount) :
    Gapless (b.applySplit a ratio) := by
  unfold applySplit
  split <;> simp

/-- Capital that is not fixed beforehand is handed out in the base currency. -/
theorem Allocator.exists_inBase {a : Allocator} {strategies : Strategies} {d : Date}
    {base : Currency} {market : MarketHistory} {fx : FxHistory}
    {capital : List (String × BalanceSheet)} (ha : ∀ fixed, a ≠ .fixed fixed)
    (h : a.allocate strategies d base market fx = .ok capital) {e : String × BalanceSheet}
    (he : e ∈ capital) : ∃ v, e.2 = inBase base v := by
  cases a with
  | selfFunded =>
    obtain ⟨worth, -, h⟩ := Except.bind_eq_ok.mp h
    obtain rfl := Except.pure_eq_ok.mp h
    obtain ⟨w, -, rfl⟩ := List.mem_map.mp he
    exact ⟨w.2, rfl⟩
  | equalWeight =>
    rw [allocate] at h
    split at h
    · obtain rfl := Except.ok.inj h
      exact absurd he List.not_mem_nil
    · obtain ⟨total, -, h⟩ := Except.bind_eq_ok.mp h
      obtain ⟨share, -, h⟩ := Except.bind_eq_ok.mp h
      obtain rfl := Except.pure_eq_ok.mp h
      obtain ⟨n, -, rfl⟩ := List.mem_map.mp he
      exact ⟨share, rfl⟩
  | fixed capital => exact absurd rfl (ha capital)

/-- A day with a bar of every asset and a rate of every currency but the base. -/
structure MarketDay.Supplies (as : Asset → Prop) (cs : Currency → Prop) (base : Currency)
    (day : MarketDay) : Prop where
  bars : ∀ a, as a → a ∈ day.bars.keys
  rates : ∀ c, cs c → c ≠ base → ∃ x, (c.code, x) ∈ day.rates

namespace Portfolio

variable {as : Asset → Prop} {cs : Currency → Prop} {d : Date} {n : String} {p q : Portfolio}

theorem gapless_onStrategy {x : Action Strategy α} (hx : ∀ s, Gapless (x s).2) (p : Portfolio) :
    Gapless (onStrategy n x p).2 :=
  failsOnly_onStrategy (fun _ => by simp) fun s _ => hx s

theorem gapless_strategy (p : Portfolio) (n : String) : Gapless (p.strategy n) :=
  failsOnly_strategy fun _ => by simp

theorem gapless_handleFill (f : Fill) (p : Portfolio) : Gapless (handleFill f p).2 := by
  have hbook : ∀ s, Gapless (Strategy.applyFill f s).2 :=
    fun s => s.book.gapless_applyFill s.assets f
  refine failsOnly_bind (gapless_onStrategy hbook p) fun _ _ _ => ?_
  exact failsOnly_bind (FailsOnly.ok ()) fun _ _ _ => FailsOnly.ok ()

/-- An order for which there is no bar is not filled, which is no error. -/
theorem gapless_handleOrder (r : OrderRequest) (p : Portfolio) : Gapless (handleOrder r p).2 := by
  refine failsOnly_bind (gapless_strategy p _) fun _ _ _ => ?_
  refine failsOnly_bind (OrderRequest.gapless_validate r) fun _ o _ => ?_
  refine failsOnly_bind (FailsOnly.ok ()) fun q _ _ => ?_
  refine failsOnly_bind (Brokerage.gapless_submit _ _ o) fun _ outcome _ => ?_
  cases outcome with
  | noBar => exact FailsOnly.ok ()
  | unmatched close => exact FailsOnly.ok ()
  | filled f => exact failsOnly_bind (FailsOnly.ok ()) fun _ _ _ => gapless_handleFill f _

theorem gapless_creditDividend (d : Date) (a : Asset) (perShare : Amount) (n : String)
    (p : Portfolio) : Gapless (creditDividend d a perShare n p).2 := by
  refine failsOnly_bind (gapless_strategy p n) fun _ s _ => ?_
  split
  · refine failsOnly_bind
      (gapless_onStrategy (fun s => s.book.gapless_applyDividend s.assets a perShare) _)
      fun _ credit _ => ?_
    split
    · exact FailsOnly.ok ()
    · exact FailsOnly.ok ()
  · exact FailsOnly.ok ()

theorem gapless_splitPosition (a : Asset) (ratio : Amount) (n : String) (p : Portfolio) :
    Gapless (splitPosition a ratio n p).2 := by
  refine failsOnly_bind (gapless_strategy p n) fun _ s _ => ?_
  split
  · refine gapless_onStrategy (fun s => failsOnly_update ?_) _
    simp [Strategy.applySplit, Book.gapless_applySplit]
  · exact FailsOnly.ok ()

theorem gapless_splitBars (a : Asset) (c : Decimal) (p : Portfolio) :
    Gapless (splitBars a c p).2 :=
  p.market.failsOnly_split a fun bar => bar.gapless_adjustedForSplit c

/-- Dividends and splits look nothing up. -/
theorem gapless_applyCorporateActions (day : MarketDay) (p : Portfolio) :
    Gapless (applyCorporateActions day p).2 := by
  refine failsOnly_bind (failsOnly_forEach (fun e _ p => ?_) p) fun _ _ _ =>
    failsOnly_forEach (fun e _ p => ?_) _
  · refine failsOnly_bind (FailsOnly.ok p) fun _ q _ => ?_
    exact failsOnly_forEach (fun n _ => gapless_creditDividend day.date e.1 _ n) _
  · refine failsOnly_bind (FailsOnly.ok p) fun _ q _ => ?_
    refine failsOnly_bind (failsOnly_forEach (fun n _ => gapless_splitPosition e.1 _ n) _)
      fun _ _ _ => ?_
    refine failsOnly_bind (by simp [Action.ofExcept]) fun _ c _ => ?_
    exact failsOnly_bind (gapless_splitBars e.1 c _) fun _ _ _ => FailsOnly.ok ()

/-- A portfolio of which the strategies need only some assets and some currencies, its base currency
among them. -/
structure NeedsOnly (as : Asset → Prop) (cs : Currency → Prop) (p : Portfolio) : Prop where
  strategies : ∀ n s, p.strategies.get? n = some s →
    s.NeedsOnly as cs ∧ ∀ c ∈ s.book.target.keys, cs c
  base : cs p.base
  rates : p.fx.base = p.base
  allocator : ∀ fixed, p.allocator ≠ .fixed fixed

/-- A portfolio that has what it needs on a day that it has not valued any later than. -/
structure IsSupplied (d : Date) (as : Asset → Prop) (cs : Currency → Prop) (p : Portfolio) : Prop
    extends NeedsOnly as cs p where
  stocks : Stocks d as cs p.market p.fx
  unvalued : p.equity.values.later? d = none

namespace IsSupplied

theorem put {t : Strategy} (hp : p.IsSupplied d as cs)
    (ht : t.NeedsOnly as cs ∧ ∀ c ∈ t.book.target.keys, cs c) :
    IsSupplied d as cs { p with strategies := p.strategies.put n t } :=
  { hp with strategies := OrderedMap.forall_get?_put hp.strategies ht }

/-- Nothing that dividends, splits and trading write makes a strategy need anything else, nor does it
take a bar away. -/
theorem allowsActions : AllowsActions fun p q => p.IsSupplied d as cs → q.IsSupplied d as cs where
  trading n := {
    path := IsPath.implies _
    strategy := by
      intro p s t hs he hp
      obtain ⟨hneeds, htarget⟩ := hp.strategies n s hs
      exact hp.put ⟨hneeds.of_evolves he, he.book.target ▸ htarget⟩
    fills _ _ _ hp := { hp with }
    signalCount _ _ hp := { hp with }
    orderCount _ hp := { hp with }
    brokerage _ _ _ hp := { hp with }
    journal _ _ hp := { hp with } }
  split p a c hp := { hp with
    stocks := {
      bars := fun b hb => by
        obtain ⟨bar, hbar⟩ := hp.stocks.bars b hb
        exact MarketHistory.exists_bar_split a c hbar
      rates := hp.stocks.rates } }

theorem gapless_totalValue (hp : p.IsSupplied d as cs) : Gapless (p.totalValue d) := by
  refine FailsOnly.foldlM (fun total s hs => ?_) _
  obtain ⟨⟨n, s⟩, hmem, rfl⟩ := List.mem_map.mp hs
  have hneeds := (hp.strategies n s (OrderedMap.get?_eq_some_iff.mpr hmem)).1
  refine FailsOnly.bind ?_ fun v _ => by simp
  exact Strategy.gapless_totalValue hneeds hp.stocks (hp.stocks.rates p.base hp.base)

/-- The steps of a strategy that look nothing up. -/
theorem safe_handleOrder (r : OrderRequest) :
    Safe Error.IsOther (IsSupplied d as cs) (handleOrder r) :=
  Safe.of_keeps (AllowsBooks.handleOrder (allowsActions.books r.strategy))
    fun p _ => gapless_handleOrder r p

theorem safe_submitTarget {e : Asset × Int} (he : as e.1) :
    Safe Error.IsOther (IsSupplied d as cs) (submitTarget n d e) := by
  refine Safe.bind (Safe.read fun p _ => gapless_strategy p n) fun s => ?_
  dsimp only
  split
  · exact Safe.pure ()
  · refine Safe.bind (Safe.read fun p hp => ?_) fun prices => safe_handleOrder _
    refine FailsOnly.bind (MarketHistory.gapless_requireBar (hp.stocks.bars e.1 he)) ?_
    simp

/-- Signals for what is needed are sized and traded. -/
theorem safe_handleSignal {signals : Signals} (hsignals : ∀ a ∈ signals.keys, as a) :
    Safe Error.IsOther (IsSupplied d as cs) (handleSignal d n signals) := by
  refine Safe.bind_of_ok (Safe.read fun p _ => gapless_strategy p n) fun {p q s} hp hread => ?_
  obtain ⟨rfl, hs⟩ := Action.read_eq_ok.mp hread
  obtain ⟨hneeds, htarget⟩ := hp.strategies n s (strategy_eq_ok.mp hs)
  refine Safe.bind (Safe.modify fun p hp => { hp with }) fun _ => ?_
  refine Safe.bind_of_ok (Safe.read fun p hp => ?_) fun {p q sizes} _ hread => ?_
  · exact Strategy.gapless_sizesFor hneeds hp.stocks htarget s.sizer hsignals
  obtain ⟨-, hsizes⟩ := Action.read_eq_ok.mp hread
  refine Safe.forEach fun e he => safe_submitTarget (hsignals e.1 ?_)
  exact Sizer.mem_of_sizesFor hsizes (List.mem_map.mpr ⟨e, he, rfl⟩)

theorem safe_runStrategy (n : String) :
    Safe Error.IsOther (IsSupplied d as cs) (runStrategy d n) := by
  refine Safe.bind Safe.get fun u => ?_
  refine Safe.bind_of_ok (Safe.of_keeps ((allowsActions.trading n).signals d u.market)
    fun p _ => gapless_onStrategy (fun s => ?_) p) fun {p q signals} hp hrun => ?_
  · have hsignals := s.gapless_signals d u.market
    cases hs : s.signals d u.market with
    | error e => exact FailsOnly.error (hsignals e hs)
    | ok found => exact FailsOnly.ok found.2
  obtain ⟨s, t, hs, hfound, -⟩ := signals_eq_ok hrun
  split
  · refine safe_handleSignal fun a ha => ?_
    exact (hp.strategies n s hs).1.assets a (Strategy.mem_of_signals hfound ha)
  · exact Safe.pure ()

theorem safe_runStrategies (ns : List String) :
    Safe Error.IsOther (IsSupplied d as cs) (Action.forEach ns (runStrategy d)) :=
  Safe.forEach fun n _ => safe_runStrategy n

theorem safe_applyCorporateActions (day : MarketDay) :
    Safe Error.IsOther (IsSupplied d as cs) (applyCorporateActions day) :=
  Safe.of_keeps (allowsActions.applyCorporateActions day)
    fun p _ => gapless_applyCorporateActions day p

/-- Capital is valued in currencies that have rates. -/
theorem gapless_allocate (hp : p.IsSupplied d as cs) :
    Gapless (p.allocator.allocate p.strategies d p.base p.market p.fx) := by
  cases hallocator : p.allocator with
  | selfFunded =>
    rw [Allocator.allocate]
    refine FailsOnly.bind (FailsOnly.mapM fun e he => ?_) fun worth _ => FailsOnly.ok _
    have hneeds := (hp.strategies e.1 e.2 (OrderedMap.get?_eq_some_iff.mpr he)).1
    refine FailsOnly.bind ?_ fun v _ => FailsOnly.ok (e.1, v)
    exact Strategy.gapless_totalValue hneeds hp.stocks (hp.stocks.rates p.base hp.base)
  | equalWeight =>
    rw [Allocator.allocate]
    split
    · exact FailsOnly.ok []
    · refine FailsOnly.bind hp.gapless_totalValue fun total _ => ?_
      simp
  | fixed capital => exact absurd hallocator (hp.allocator capital)

/-- Capital in the base currency needs no other rate. -/
theorem safe_setTarget {base : Currency} (hbase : cs base) (v : Decimal) :
    Safe Error.IsOther (IsSupplied d as cs)
      (onStrategy n (Action.update (·.setTarget (Allocator.inBase base v)))) := by
  intro p hp
  refine ⟨?_, gapless_onStrategy (fun s => FailsOnly.ok ()) p⟩
  unfold onStrategy
  cases hs : p.strategies.get? n with
  | none => exact hp
  | some s =>
    obtain ⟨hneeds, -⟩ := hp.strategies n s hs
    refine hp.put (t := { s with book := { s.book with target := OrderedMap.empty.put base v } })
      ⟨{ hneeds with }, fun c hc => ?_⟩
    rcases OrderedMap.mem_keys_put.mp hc with rfl | hc
    · exact hbase
    · exact absurd hc List.not_mem_nil

theorem safe_allocateCapital : Safe Error.IsOther (IsSupplied d as cs) (allocateCapital d) := by
  refine Safe.bind_of_ok (Safe.read fun p hp => gapless_allocate hp) fun {p q capital} hp hread => ?_
  obtain ⟨-, hcapital⟩ := Action.read_eq_ok.mp hread
  refine Safe.forEach fun e he => ?_
  obtain ⟨m, c⟩ := e
  obtain ⟨v, rfl⟩ := Allocator.exists_inBase hp.allocator hcapital he
  exact safe_setTarget hp.base v

theorem gapless_recordEquity (hp : p.IsSupplied d as cs) : Gapless (recordEquity d p).2 := by
  refine failsOnly_bind hp.gapless_totalValue fun q v hread => ?_
  obtain ⟨rfl, -⟩ := Action.read_eq_ok.mp hread
  refine failsOnly_bind (failsOnly_update ?_) fun _ _ _ => FailsOnly.ok v
  simp [EquityCurve.record, hp.unvalued]

end IsSupplied

/-- A portfolio that has not written any day after `d`. -/
structure Awaits (d : Date) (p : Portfolio) : Prop where
  market : p.market.bars.later? d = none
  fx : p.fx.rates.later? d = none
  equity : p.equity.values.later? d = none

variable {day : MarketDay}

theorem gapless_takeIn (hp : p.Awaits day.date) : Gapless (takeIn day p).2 := by
  refine failsOnly_bind (failsOnly_update (by simp [hp.equity])) fun q _ hq => ?_
  obtain rfl : p = q := by simpa [hp.equity] using Action.update_eq_ok.mp hq
  refine failsOnly_bind (failsOnly_update (by simp [MarketHistory.append, hp.market]))
    fun q _ hq => failsOnly_update ?_
  obtain ⟨market, -, hq⟩ := Except.bind_eq_ok.mp (Action.update_eq_ok.mp hq)
  obtain rfl := Except.pure_eq_ok.mp hq
  exact FailsOnly.bind (FxHistory.gapless_append hp.fx day.rates) fun _ _ => FailsOnly.ok _

/-- A day that is taken in supplies the portfolio with all that it brings. -/
theorem isSupplied_of_takeIn (hp : p.NeedsOnly as cs) (hday : day.Supplies as cs p.base)
    (h : takeIn day p = (q, .ok ())) : q.IsSupplied day.date as cs := by
  obtain ⟨market, fx, hequity, hmarket, hfx, rfl⟩ := takeIn_eq_ok.mp h
  obtain ⟨-, rfl⟩ := MarketHistory.append_eq_ok.mp hmarket
  have hbase : fx.base = p.base := (FxHistory.base_append hfx).trans hp.rates
  refine { hp with rates := hbase, stocks := ⟨fun a ha => ?_, fun c hc => ?_⟩, unvalued := hequity }
  · obtain ⟨bar, hbar⟩ := OrderedMap.mem_keys_iff.mp (hday.bars a ha)
    exact ⟨bar, Option.bind_eq_some_iff.mpr ⟨day.bars, Chronicle.get?_put_self .., hbar⟩⟩
  · by_cases hcbase : c = p.base
    · subst hcbase
      exact ⟨1, hbase ▸ fx.rate_base day.date⟩
    · obtain ⟨x, hx⟩ := hday.rates c hc hcbase
      exact FxHistory.exists_rate_append hfx hx

/-- Nothing is missing on a day that brings all that is needed and comes late enough. -/
theorem gapless_handleMarket (hp : p.NeedsOnly as cs) (hawaits : p.Awaits day.date)
    (hday : day.Supplies as cs p.base) : Gapless (handleMarket day p).2 := by
  refine failsOnly_bind (gapless_takeIn hawaits) fun p₁ _ htake => ?_
  -- from here on the portfolio is supplied, and every step leaves it so
  have hp₁ := isSupplied_of_takeIn hp hday htake
  refine failsOnly_bind (gapless_applyCorporateActions day p₁) fun p₂ _ hactions => ?_
  have hp₂ := (IsSupplied.safe_applyCorporateActions day).ok hp₁ hactions
  refine failsOnly_bind (IsSupplied.safe_allocateCapital p₂ hp₂).2 fun p₃ _ hallocate => ?_
  have hp₃ := IsSupplied.safe_allocateCapital.ok hp₂ hallocate
  refine failsOnly_bind (FailsOnly.ok p₃) fun u v hget => ?_
  obtain ⟨rfl, rfl⟩ := Action.get_eq_ok.mp hget
  have hsafe : Safe Error.IsOther (IsSupplied day.date as cs)
      (Action.forEach v.strategies.keys (runStrategy day.date)) := IsSupplied.safe_runStrategies _
  refine failsOnly_bind (hsafe v hp₃).2 fun p₄ _ hrun => ?_
  exact failsOnly_bind (hsafe.ok hp₃ hrun).gapless_recordEquity fun _ _ _ => FailsOnly.ok ()

/-- After a day its portfolio needs no more than before. -/
theorem needsOnly_of_handleMarket (hp : p.NeedsOnly as cs) (hday : day.Supplies as cs p.base)
    (h : handleMarket day p = (q, .ok ())) : q.NeedsOnly as cs := by
  obtain ⟨p₁, p₂, p₃, p₄, v, htake, hactions, hallocate, hrun, hrecord⟩ :=
    handleMarket_eq_ok.mp h
  have hp₁ := isSupplied_of_takeIn hp hday htake
  have hp₂ := (IsSupplied.safe_applyCorporateActions day).ok hp₁ hactions
  have hp₃ := IsSupplied.safe_allocateCapital.ok hp₂ hallocate
  have hp₄ := (IsSupplied.safe_runStrategies p₃.strategies.keys).ok hp₃ hrun
  obtain ⟨-, -, rfl⟩ := recordEquity_eq_ok.mp hrecord
  exact { hp₄.toNeedsOnly with }

/-- After a day its portfolio awaits every later one. -/
theorem awaits_of_handleMarket (h : handleMarket day p = (q, .ok ())) (hd : day.date < d) :
    q.Awaits d := by
  obtain ⟨-, hmarket, hfx, v, -, hequity⟩ := stores_of_handleMarket h
  have hlate : ¬ d < day.date := fun hlt => Date.lt_irrefl d (Date.lt_trans hlt hd)
  obtain ⟨read, -, -, hrates⟩ := FxHistory.append_eq_ok hfx
  refine ⟨?_, ?_, ?_⟩
  · rw [hmarket, Chronicle.later?_eq_of_dates_eq (MarketHistory.dates_splitOn _ day)]
    exact Chronicle.later?_put _ _ hlate
  · rw [hrates]
    exact Chronicle.later?_put _ _ hlate
  · rw [hequity]
    exact Chronicle.later?_put _ _ hlate

end Portfolio
end Backtesting
