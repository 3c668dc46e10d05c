import Backtesting.Portfolio.Allocation
import Backtesting.Proofs.Market.Foreign
import Backtesting.Proofs.Strategy.Supply

/-!
What a strategy does not look at. Its signals, prices, sizes and worth depend on the bars of the assets
that it lists and on the rates of the currencies it lists them in, holds cash in and has capital in. In
two histories that agree on those it finds the same. A position in an asset that is not listed cannot
be valued in either; it is only the error that may be another one.
-/
namespace Backtesting

open Backtesting.Except (Matches)

variable {as : Asset → Prop} {cs : Currency → Prop} {d : Date} {market market' : MarketHistory}
  {fx fx' : FxHistory}

theorem Rule.signals_agree (r : Rule) (hmarket : market.AgreesOn as market')
    (position : Asset → Int) {assets : List Asset} (hassets : ∀ a ∈ assets, as a) (d : Date) :
    r.signals market position assets d = r.signals market' position assets d := by
  cases r with
  | buyAndHold initial => rfl
  | rebalancing frequency last => rfl
  | crossover fast slow =>
    have haverages : ∀ a ∈ assets, averages fast slow market a d = averages fast slow market' a d :=
      fun a ha => by rw [averages, averages, hmarket.closes_eq (hassets a ha)]
    have hsignals : crossoverSignals fast slow market position d assets =
        crossoverSignals fast slow market' position d assets := by
      unfold crossoverSignals
      congr 1
      exact Except.mapM_congr fun a ha => by rw [haverages a ha]
    rw [Rule.signals, Rule.signals, hsignals]

theorem Pricing.prices_agree (p : Pricing) (hmarket : market.AgreesOn as market') {a : Asset}
    (ha : as a) (d : Date) (action : TradeAction) :
    p.prices market d a action = p.prices market' d a action := by
  rw [prices, prices, hmarket.requireBar_eq ha]

theorem Sizer.weightsFor_agree (s : Sizer) (hmarket : market.AgreesOn as market')
    {signals : Signals} (hsignals : ∀ a ∈ signals.keys, as a) (d : Date) :
    s.weightsFor d signals market = s.weightsFor d signals market' := by
  cases s with
  | fixedWeight weights => rfl
  | inverseVolatility lookback =>
    have hvolatility : ∀ a ∈ (signals.toList.filter (·.2.direction != 0)).map Prod.fst,
        volatility lookback market a d = volatility lookback market' a d := by
      intro a ha
      obtain ⟨e, he, rfl⟩ := List.mem_map.mp ha
      have hkey : e.1 ∈ signals.keys := List.mem_map.mpr ⟨e, (List.mem_filter.mp he).1, rfl⟩
      rw [volatility, volatility, hmarket.closes_eq (hsignals e.1 hkey)]
    simp only [weightsFor, Except.mapM_congr hvolatility]

/-- A position in an asset without a currency is not valued. -/
theorem Book.positionValue_unlisted {l : Listings} {base : Currency} {total : Decimal}
    {e : Asset × Int} (hunlisted : l.get? e.1 = none) (hheld : e.2 ≠ 0) (market : MarketHistory)
    (fx : FxHistory) : ∃ err, positionValue l d base market fx total e = .error err := by
  have hcurrency : l.currencyOf e.1 = .error (.assetNotConfigured e.1 "currency") := by
    rw [Listings.currencyOf, hunlisted]
  unfold positionValue
  rw [if_neg hheld, hcurrency]
  cases market.requireBar d e.1 with
  | error err => exact ⟨err, rfl⟩
  | ok bar =>
    simp only [Except.ok_bind]
    cases Decimal.lift (bar.close.mul (Decimal.ofInt e.2)) with
    | error err => exact ⟨err, rfl⟩
    | ok worth => exact ⟨_, rfl⟩

namespace Strategy

variable {s t : Strategy}

/-- What is listed, and the currencies of the listings and of the cash, are among some assets and
some currencies. -/
structure StaysIn (as : Asset → Prop) (cs : Currency → Prop) (s : Strategy) : Prop where
  assets : ∀ a ∈ s.assets.keys, as a
  listings : ∀ c ∈ s.assets.values, cs c
  cash : ∀ c ∈ s.book.cash.keys, cs c

theorem StaysIn.of_evolves (h : s.StaysIn as cs) (he : s.Evolves t) : t.StaysIn as cs := by
  have hassets : t.assets = s.assets := assets_of_setup_eq he.setup
  refine ⟨hassets ▸ h.assets, hassets ▸ h.listings, ?_⟩
  exact fun c hc => (he.book.cash c hc).elim (h.cash c) (h.listings c)

/-- Nothing is held but what is listed. -/
def HoldsListed (s : Strategy) : Prop := s.book.HoldsOnly s.assets

theorem HoldsListed.of_evolves (h : s.HoldsListed) (he : s.Evolves t) : t.HoldsListed := by
  unfold HoldsListed
  rw [assets_of_setup_eq he.setup]
  exact Book.HoldsOnly.of_evolves h he.book

/-- Errors that may differ where something is held that is not listed. -/
abbrev SameError (C : Prop) (e f : Error) : Prop := C → e = f

instance (C : Prop) : Std.Refl (SameError C) := ⟨fun _ _ => rfl⟩

section Agree

variable (hmarket : market.AgreesOn as market') (hfx : fx.AgreesOn cs fx') (hs : s.StaysIn as cs)
include hmarket hfx hs

theorem matches_positionValue {C : Prop} (hlisted : C → s.HoldsListed) {base : Currency}
    (hbase : cs base) {e : Asset × Int} (he : e ∈ s.book.positions.toList) (total : Decimal) :
    Matches (SameError C) Eq (Book.positionValue s.assets d base market fx total e)
      (Book.positionValue s.assets d base market' fx' total e) := by
  by_cases hheld : e.2 = 0
  · rw [Book.positionValue, Book.positionValue, if_pos hheld, if_pos hheld]
    exact .ok rfl
  cases hcurrency : s.assets.get? e.1 with
  | none =>
    have hunlisted (market : MarketHistory) (fx : FxHistory) :
        ∃ err, Book.positionValue s.assets d base market fx total e = .error err :=
      Book.positionValue_unlisted hcurrency hheld market fx
    obtain ⟨err, herr⟩ := hunlisted market fx
    obtain ⟨err', herr'⟩ := hunlisted market' fx'
    rw [herr, herr']
    refine .error fun hC => absurd ?_ (OrderedMap.get?_eq_none_iff.mp hcurrency)
    exact hlisted hC e.1 (List.mem_map.mpr ⟨e, he, rfl⟩)
  | some c =>
    have ha : as e.1 := hs.assets e.1 (OrderedMap.mem_keys_of_get? hcurrency)
    have hc : cs c := hs.listings c (OrderedMap.mem_values_of_get? hcurrency)
    have hconvert : ∀ x, fx.convert d x c base = fx'.convert d x c base := hfx.convert_eq hc hbase
    refine .of_eq ?_
    simp only [Book.positionValue, Listings.currencyOf, hcurrency, hmarket.requireBar_eq ha,
      Except.ok_bind, hconvert]

theorem matches_totalValue {C : Prop} (hlisted : C → s.HoldsListed) {base : Currency}
    (hbase : cs base) :
    Matches (SameError C) Eq (s.totalValue d base market fx) (s.totalValue d base market' fx') := by
  refine Matches.bind (Matches.foldlM (fun total e he =>
    matches_positionValue hmarket hfx hs hlisted hbase he total) _) ?_
  rintro total _ rfl
  refine Matches.foldlM (fun total e he => .of_eq ?_) _
  have hc : cs e.1 := hs.cash e.1 (List.mem_map.mpr ⟨e, he, rfl⟩)
  rw [Book.balanceValue, Book.balanceValue, hfx.convert_eq hc hbase]

theorem matches_capital {C : Prop} (hlisted : C → s.HoldsListed) (hbase : cs fx.base)
    (htarget : ∀ c ∈ s.book.target.keys, cs c) :
    Matches (SameError C) Eq (s.capital d market fx) (s.capital d market' fx') := by
  unfold Strategy.capital Sizer.capital
  rw [← hfx.base]
  split
  · exact matches_totalValue hmarket hfx hs hlisted hbase
  · refine Matches.foldlM (fun total e he => .of_eq ?_) _
    have hc : cs e.1 := htarget e.1 (List.mem_map.mpr ⟨e, he, rfl⟩)
    rw [hfx.convert_eq hc hbase]

/-- Whether or not an asset is listed, its size needs nothing but its bar and its currency. -/
theorem size_agree (hbase : cs fx.base) {a : Asset} (ha : as a) (capital : Decimal)
    (weights : Weights) (signal : Signal) :
    Sizer.size s.assets d capital weights market fx a signal =
      Sizer.size s.assets d capital weights market' fx' a signal := by
  have hconvert : ∀ x, (s.assets.currencyOf a >>= fx.convert d x fx.base) =
      (s.assets.currencyOf a >>= fx'.convert d x fx'.base) := by
    intro x
    cases hc : s.assets.get? a with
    | none => simp only [Listings.currencyOf, hc]; rfl
    | some c =>
      have hlisting : cs c := hs.listings c (OrderedMap.mem_values_of_get? hc)
      simp only [Listings.currencyOf, hc, Except.ok_bind, ← hfx.base]
      exact hfx.convert_eq hbase hlisting x
  simp only [Sizer.size, hmarket.requireBar_eq ha]
  simp only [← bind_assoc, hconvert]

theorem matches_sizesFor {C : Prop} (hlisted : C → s.HoldsListed) (hbase : cs fx.base)
    (htarget : ∀ c ∈ s.book.target.keys, cs c) (sizer : Sizer) {signals : Signals}
    (hsignals : ∀ a ∈ signals.keys, as a) :
    Matches (SameError C) Eq (s.sizesFor sizer d signals market fx)
      (s.sizesFor sizer d signals market' fx') := by
  unfold Strategy.sizesFor Sizer.sizesFor
  split
  · exact .ok rfl
  refine Matches.bind (.of_eq (sizer.weightsFor_agree hmarket hsignals d)) ?_
  rintro weights _ rfl
  refine Matches.bind (matches_capital hmarket hfx hs hlisted hbase htarget) ?_
  rintro capital _ rfl
  refine Matches.bind (Matches.mapM fun e he => .of_eq ?_) ?_
  · obtain ⟨a, signal⟩ := e
    have hsignaled : a ∈ signals.keys := List.mem_map.mpr ⟨(a, signal), he, rfl⟩
    dsimp only
    rw [size_agree hmarket hfx hs hbase (hsignals a hsignaled)]
  · rintro sizes _ rfl
    exact .ok rfl

end Agree

theorem signals_agree (hmarket : market.AgreesOn as market') (hs : s.StaysIn as cs) (d : Date) :
    s.signals d market = s.signals d market' := by
  rw [signals, signals, s.rule.signals_agree hmarket s.position hs.assets]

end Strategy

open Strategy (SameError)

section Agree

variable {strategies : Strategies} {C : Prop} {base : Currency}
  (hmarket : market.AgreesOn as market') (hfx : fx.AgreesOn cs fx')
  (hs : ∀ n s, strategies.get? n = some s → s.StaysIn as cs ∧ (C → s.HoldsListed))
  (hbase : cs base)
include hmarket hfx hs hbase

theorem Strategies.matches_totalValue :
    Matches (SameError C) Eq (strategies.totalValue d base market fx)
      (strategies.totalValue d base market' fx') := by
  refine Matches.foldlM (fun total s hmem => ?_) _
  obtain ⟨e, he, rfl⟩ := List.mem_map.mp hmem
  obtain ⟨hstays, hlisted⟩ := hs e.1 e.2 (OrderedMap.get?_eq_some_iff.mpr he)
  refine Matches.bind (Strategy.matches_totalValue hmarket hfx hstays hlisted hbase) ?_
  rintro worth _ rfl
  exact .of_eq rfl

theorem Allocator.matches_allocate (a : Allocator) :
    Matches (SameError C) Eq (a.allocate strategies d base market fx)
      (a.allocate strategies d base market' fx') := by
  cases a with
  | selfFunded =>
    refine Matches.bind (Matches.mapM fun e he => ?_) ?_
    · obtain ⟨hstays, hlisted⟩ := hs e.1 e.2 (OrderedMap.get?_eq_some_iff.mpr he)
      refine Matches.bind (Strategy.matches_totalValue hmarket hfx hstays hlisted hbase) ?_
      rintro worth _ rfl
      exact .ok rfl
    · rintro worth _ rfl
      exact .ok rfl
  | equalWeight =>
    rw [allocate, allocate]
    split
    · exact .ok rfl
    · refine Matches.bind (Strategies.matches_totalValue hmarket hfx hs hbase) ?_
      rintro total _ rfl
      exact .of_eq rfl
  | fixed capital => exact .ok rfl

end Agree
end Backtesting
