import Backtesting.Proofs.Market.Rates
import Backtesting.Proofs.Strategy.Setup

/-!
What a strategy looks up. It values and sizes only what it lists, in the currencies of its listings
and of its cash, and by trading it comes to nothing else. Where all of these have a bar and a rate on
a day, none is missing when the strategy is valued, its capital is counted or its orders are sized.
-/
namespace Backtesting

open Backtesting.Except (FailsOnly)

/-- Bars and rates of a day for some assets and some currencies. -/
structure Stocks (d : Date) (as : Asset → Prop) (cs : Currency → Prop) (market : MarketHistory)
    (fx : FxHistory) : Prop where
  bars : ∀ a, as a → ∃ bar, market.bar? d a = some bar
  rates : ∀ c, cs c → ∃ r, fx.rate d c = .ok r

namespace Rule

variable {r r' : Rule} {market : MarketHistory} {position : Asset → Int} {assets : List Asset}
  {d : Date} {signals : Signals} {a : Asset}

theorem mem_of_mem_same {s : Signal} (h : a ∈ (Signals.same s assets).keys) : a ∈ assets := by
  simpa [Signals.same, OrderedMap.mem_keys_ofList] using h

theorem mem_of_crossoverSignals {fast slow : Nat}
    (h : crossoverSignals fast slow market position d assets = .ok signals)
    (ha : a ∈ signals.keys) : a ∈ assets := by
  obtain ⟨found, hfound, h⟩ := Except.bind_eq_ok.mp h
  obtain rfl := Except.pure_eq_ok.mp h
  obtain ⟨⟨a', s⟩, he, rfl⟩ := List.mem_map.mp (OrderedMap.mem_keys_ofList.mp ha)
  obtain ⟨e, hmem, he⟩ := List.mem_filterMap.mp he
  obtain rfl : e = some (a', s) := he
  obtain ⟨b, hb, hsignal⟩ := Except.mem_of_mapM hfound hmem
  obtain ⟨means, -, hsignal⟩ := Except.bind_eq_ok.mp hsignal
  cases means with
  | none => simp at hsignal
  | some means =>
    obtain ⟨s', -, hs'⟩ := Option.map_eq_some_iff.mp (Except.pure_eq_ok.mp hsignal)
    obtain ⟨rfl, -⟩ := Prod.mk.inj hs'
    exact hb

/-- A rule signals only what it is asked about. -/
theorem mem_of_signals (h : r.signals market position assets d = .ok (r', signals))
    (ha : a ∈ signals.keys) : a ∈ assets := by
  cases r with
  | buyAndHold initial =>
    simp only [Rule.signals, Except.ok.injEq, Prod.mk.injEq] at h
    obtain ⟨-, rfl⟩ := h
    split at ha
    · exact mem_of_mem_same ha
    · exact absurd ha List.not_mem_nil
  | rebalancing frequency last =>
    obtain ⟨due, -, h⟩ := Except.bind_eq_ok.mp h
    cases due
    · obtain ⟨-, rfl⟩ := Prod.mk.inj (Except.pure_eq_ok.mp h)
      exact absurd ha List.not_mem_nil
    · obtain ⟨-, rfl⟩ := Prod.mk.inj (Except.pure_eq_ok.mp h)
      exact mem_of_mem_same ha
  | crossover fast slow =>
    obtain ⟨found, hfound, h⟩ := Except.bind_eq_ok.mp h
    obtain ⟨-, rfl⟩ := Prod.mk.inj (Except.pure_eq_ok.mp h)
    exact mem_of_crossoverSignals hfound ha

end Rule

/-- Whatever is sized was signaled. -/
theorem Sizer.mem_of_sizesFor {s : Sizer} {b : Book} {l : Listings} {d : Date} {signals : Signals}
    {market : MarketHistory} {fx : FxHistory} {sizes : OrderedMap Asset Int}
    (h : s.sizesFor b l d signals market fx = .ok sizes) {a : Asset} (ha : a ∈ sizes.keys) :
    a ∈ signals.keys := by
  unfold sizesFor at h
  split at h
  · obtain rfl := Except.ok.inj h
    exact absurd ha List.not_mem_nil
  · obtain ⟨weights, -, h⟩ := Except.bind_eq_ok.mp h
    obtain ⟨capital, -, h⟩ := Except.bind_eq_ok.mp h
    obtain ⟨entries, hentries, h⟩ := Except.bind_eq_ok.mp h
    obtain rfl := Except.pure_eq_ok.mp h
    obtain ⟨e, he, rfl⟩ := List.mem_map.mp (OrderedMap.mem_keys_ofList.mp ha)
    obtain ⟨signal, hsignal, he⟩ := Except.mem_of_mapM hentries he
    obtain ⟨k, -, he⟩ := Except.bind_eq_ok.mp he
    obtain rfl := Except.pure_eq_ok.mp he
    exact List.mem_map.mpr ⟨signal, hsignal, rfl⟩

namespace Strategy

variable {as : Asset → Prop} {cs : Currency → Prop} {s t : Strategy} {d : Date}
  {market : MarketHistory} {fx : FxHistory}

theorem gapless_signals (s : Strategy) (d : Date) (market : MarketHistory) :
    Gapless (s.signals d market) :=
  FailsOnly.bind (Rule.gapless_signals s.rule market s.position s.assets.keys d)
    fun _ _ => FailsOnly.ok _

theorem mem_of_signals {signals : Signals} (h : s.signals d market = .ok (t, signals)) {a : Asset}
    (ha : a ∈ signals.keys) : a ∈ s.assets.keys := by
  obtain ⟨⟨rule, found⟩, hfound, h⟩ := Except.bind_eq_ok.mp h
  obtain ⟨-, rfl⟩ := Prod.mk.inj (Except.pure_eq_ok.mp h)
  exact Rule.mem_of_signals hfound ha

/-- What is listed and held is among some assets and some currencies. -/
structure NeedsOnly (as : Asset → Prop) (cs : Currency → Prop) (s : Strategy) : Prop where
  assets : ∀ a ∈ s.assets.keys, as a
  listings : ∀ c ∈ s.assets.values, cs c
  positions : s.book.HoldsOnly s.assets
  cash : ∀ c ∈ s.book.cash.keys, cs c

theorem NeedsOnly.of_evolves (h : s.NeedsOnly as cs) (he : s.Evolves t) : t.NeedsOnly as cs := by
  have hassets : t.assets = s.assets := assets_of_setup_eq he.setup
  refine ⟨hassets ▸ h.assets, hassets ▸ h.listings, hassets ▸ h.positions.of_evolves he.book, ?_⟩
  exact fun c hc => (he.book.cash c hc).elim (h.cash c) (h.listings c)

/-- What is listed has a rate. -/
theorem NeedsOnly.exists_rate (h : s.NeedsOnly as cs) (hstocks : Stocks d as cs market fx)
    {a : Asset} {c : Currency} (hc : s.assets.currencyOf a = .ok c) :
    ∃ r, fx.rate d c = .ok r :=
  hstocks.rates c (h.listings c (OrderedMap.mem_values_of_get? (Listings.currencyOf_eq_ok.mp hc)))

theorem gapless_totalValue (h : s.NeedsOnly as cs) (hstocks : Stocks d as cs market fx)
    {base : Currency} (hbase : ∃ r, fx.rate d base = .ok r) :
    Gapless (s.totalValue d base market fx) := by
  refine FailsOnly.bind (FailsOnly.foldlM (fun total e he => ?_) _) fun total _ =>
    FailsOnly.foldlM (fun total e he => ?_) _
  · unfold Book.positionValue
    split
    · simp
    have hheld : e.1 ∈ s.book.positions.keys := List.mem_map.mpr ⟨e, he, rfl⟩
    refine FailsOnly.bind (MarketHistory.gapless_requireBar
      (hstocks.bars e.1 (h.assets e.1 (h.positions e.1 hheld)))) fun bar _ => ?_
    refine FailsOnly.bind (by simp) fun worth _ => FailsOnly.bind (by simp) fun c hc => ?_
    refine FailsOnly.bind (FxHistory.gapless_convert (h.exists_rate hstocks hc) hbase _) ?_
    simp
  · refine FailsOnly.bind (by simp) fun zero _ => ?_
    split
    · simp
    have hheld : e.1 ∈ s.book.cash.keys := List.mem_map.mpr ⟨e, he, rfl⟩
    refine FailsOnly.bind (FxHistory.gapless_convert (hstocks.rates e.1 (h.cash e.1 hheld)) hbase _) ?_
    simp

theorem gapless_capital (h : s.NeedsOnly as cs) (hstocks : Stocks d as cs market fx)
    (htarget : ∀ c ∈ s.book.target.keys, cs c) :
    Gapless (Sizer.capital s.book s.assets d market fx) := by
  have hbase : ∃ r, fx.rate d fx.base = .ok r := ⟨1, fx.rate_base d⟩
  unfold Sizer.capital
  split
  · exact gapless_totalValue h hstocks hbase
  · refine FailsOnly.foldlM (fun total e he => ?_) _
    have hheld : e.1 ∈ s.book.target.keys := List.mem_map.mpr ⟨e, he, rfl⟩
    refine FailsOnly.bind
      (FxHistory.gapless_convert (hstocks.rates e.1 (htarget e.1 hheld)) hbase _) ?_
    simp

theorem gapless_sizesFor (h : s.NeedsOnly as cs) (hstocks : Stocks d as cs market fx)
    (htarget : ∀ c ∈ s.book.target.keys, cs c) (sizer : Sizer) {signals : Signals}
    (hsignals : ∀ a ∈ signals.keys, as a) : Gapless (s.sizesFor sizer d signals market fx) := by
  unfold sizesFor Sizer.sizesFor
  split
  · simp
  refine FailsOnly.bind (Sizer.gapless_weightsFor sizer d signals market) fun weights _ => ?_
  refine FailsOnly.bind (gapless_capital h hstocks htarget) fun capital _ => ?_
  refine FailsOnly.bind (FailsOnly.mapM fun e he => ?_) fun sizes _ => by simp
  refine FailsOnly.bind ?_ fun k _ => by simp
  unfold Sizer.size
  split
  · simp
  have hsignaled : e.1 ∈ signals.keys := List.mem_map.mpr ⟨e, he, rfl⟩
  refine FailsOnly.bind (MarketHistory.gapless_requireBar (hstocks.bars e.1 (hsignals e.1 hsignaled)))
    fun bar _ => ?_
  have hconvert : ∀ x c, s.assets.currencyOf e.1 = .ok c → Gapless (fx.convert d x fx.base c) :=
    fun x c hc => FxHistory.gapless_convert ⟨1, fx.rate_base d⟩ (h.exists_rate hstocks hc) x
  refine FailsOnly.bind (by simp) fun low _ => ?_
  cases low with
  | true => simp
  | false =>
    cases weights.get? e.1 with
    | none => simp
    | some weight => simpa using fun x _ c hc => hconvert x c hc

end Strategy
end Backtesting
