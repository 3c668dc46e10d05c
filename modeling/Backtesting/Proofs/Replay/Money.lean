import Backtesting.Proofs.Document.Accepts
import Backtesting.Proofs.Portfolio.Money
import Backtesting.Proofs.Replay.Domain

/-!
Money over a whole replay. A configuration that is read declares finite money only, and the portfolios
that are built of it start with nothing else. From there on no NaN gets into a portfolio, and no infinite
split; a price, a dividend, a rate or an offset may be infinite, and where none is, all money stays finite.
-/
namespace Backtesting

open Backtesting.Decimal (Domain)

variable {D : Domain}

theorem Pricing.within_of_offsets {pricing : Pricing} (h : ∀ x ∈ pricing.offsets, D.Has x) :
    pricing.Within D := by
  cases pricing with
  | closePrice => trivial
  | limit offset => exact h offset List.mem_cons_self
  | stop offset => exact h offset List.mem_cons_self
  | stopLimit stopOffset limitOffset =>
    exact ⟨h stopOffset List.mem_cons_self, h limitOffset (List.mem_cons_of_mem _ List.mem_cons_self)⟩

namespace Portfolio

section Build

variable {name : String} {strategies : List StrategyConfig} {config : BacktestConfig}
  {allocator : ComponentConfig} {p : Portfolio}

/-- At the start there is no money but the cash of the strategies. -/
theorem moneyIn_of_ofStrategies (h : ofStrategies name strategies config allocator = .ok p)
    (hcash : ∀ s ∈ strategies, Balances.Within D s.cash) : p.MoneyIn D := by
  obtain ⟨named, hnamed, h⟩ := Except.bind_eq_ok.mp h
  obtain ⟨allocates, -, hbuild⟩ := Except.bind_eq_ok.mp h
  obtain ⟨hmarket, hfx, hequity, -⟩ := history_of_build hbuild
  refine {
    market := hmarket ▸ fun e he => absurd he List.not_mem_nil
    fx := hfx ▸ fun e he => absurd he List.not_mem_nil
    books := fun n s hs => ?_
    equity := hequity ▸ fun e he => absurd he List.not_mem_nil }
  have hmem := OrderedMap.get?_eq_some_iff.mp hs
  rw [(strategies_of_build hbuild).1] at hmem
  obtain ⟨declared, hdeclared, hconfig⟩ := Except.mem_of_mapM hnamed hmem
  have hbook : s.book = Book.start declared.cash := Strategy.book_of_ofConfig hconfig
  rw [hbook]
  exact ⟨hcash declared hdeclared, Balances.within_empty⟩

theorem dealsIn_of_ofStrategies (h : ofStrategies name strategies config allocator = .ok p)
    (hcommission : D.Has config.commission)
    (horders : ∀ s ∈ p.strategies.values, s.pricing.OrdersIn D) : p.DealsIn D := by
  obtain ⟨named, -, h⟩ := Except.bind_eq_ok.mp h
  obtain ⟨allocates, hallocates, hbuild⟩ := Except.bind_eq_ok.mp h
  have hallocator := (strategies_of_build hbuild).2
  obtain ⟨-, -, -, -, hp⟩ := build_eq_ok.mp hbuild
  refine {
    orders := fun n s hs => horders s (OrderedMap.mem_values_of_get? hs)
    commission := by rw [hp]; exact hcommission
    venue := fun m hm => by rw [hp] at hm; exact nomatch hm
    allocator := ?_ }
  rw [hallocator]
  cases allocates with
  | selfFunded => exact Or.inl rfl
  | equalWeight => exact Or.inr rfl
  | fixed capital => exact absurd rfl (Allocator.ne_fixed_of_ofConfig hallocates capital)

/-- The portfolios of a configuration are made of its strategies. -/
theorem exists_ofStrategies {benchmark : Option Portfolio} (h : ofConfig config = .ok (p, benchmark))
    {q : Portfolio} (hq : q ∈ p :: benchmark.toList) : ∃ name strategies allocator,
      ofStrategies name strategies config allocator = .ok q ∧
        ∀ s ∈ strategies, s ∈ config.strategies ∨ config.benchmark = some s := by
  obtain ⟨portfolio, hportfolio, h⟩ := Except.bind_eq_ok.mp h
  have hfirst : ∃ name strategies allocator, ofStrategies name strategies config allocator =
      .ok portfolio ∧ ∀ s ∈ strategies, s ∈ config.strategies ∨ config.benchmark = some s :=
    ⟨_, _, _, hportfolio, fun s hs => Or.inl hs⟩
  cases hbenchmark : config.benchmark with
  | none =>
    rw [hbenchmark] at h
    obtain ⟨rfl, rfl⟩ := Prod.mk.inj (Except.pure_eq_ok.mp h)
    obtain rfl : q = portfolio := by simpa using hq
    simpa [hbenchmark] using hfirst
  | some b =>
    rw [hbenchmark] at h
    obtain ⟨second, hsecond, h⟩ := Except.bind_eq_ok.mp h
    obtain ⟨rfl, rfl⟩ := Prod.mk.inj (Except.pure_eq_ok.mp h)
    obtain rfl | rfl : q = portfolio ∨ q = second := by simpa using hq
    · rwa [hbenchmark] at hfirst
    · exact ⟨_, _, _, hsecond, fun s hs => Or.inr (by rw [List.mem_singleton.mp hs])⟩

end Build

end Portfolio

namespace Replay

variable {r u : Replay} {days : List MarketDay}

/-- The portfolios of a replay that goes on have gone through its days. -/
theorem exists_of_playDays (h : Action.forEach days playDay r = (u, .ok ())) {q : Portfolio}
    (hq : q ∈ u.portfolios) :
    ∃ p ∈ r.portfolios, Action.forEach days Portfolio.handleMarket p = (q, .ok ()) := by
  obtain ⟨hportfolio, hbenchmark⟩ := playDays_eq_ok h
  rcases List.mem_cons.mp hq with rfl | hq
  · exact ⟨r.portfolio, List.mem_cons_self, hportfolio⟩
  · obtain ⟨b, hb, hrun⟩ := hbenchmark q (Option.mem_toList.mp hq)
    exact ⟨b, by simp [portfolios, hb], hrun⟩

/-- In every state of a replay of a configuration that was read, in which no event has failed so far,
there is no NaN among the prices, rates, balances, targets and values of a portfolio, and no split that is
not finite. All of them are finite where no price, dividend or rate of the days so far is infinite and no
order is priced by an infinite offset. -/
theorem money_stays_finite {x : Document} {config : BacktestConfig}
    (hread : BacktestConfig.read x = .ok config) {p : Portfolio} {benchmark : Option Portfolio}
    (hbuilt : Portfolio.ofConfig config = .ok (p, benchmark)) (data : MarketTables)
    (range : ReplayRange) (n : Nat) {u : Replay} :
    let r := start p benchmark
    let days := (r.events data range).items.take n
    Action.forEach days playDay r = (u, .ok ()) → ∀ q ∈ u.portfolios,
      q.MoneyIn (Domain.without .undefined) ∧
      q.market.All (fun b => b.split.IsFinite) ∧
      ((∀ day ∈ days, day.Bounded) →
        (∀ q ∈ r.portfolios, ∀ s ∈ q.strategies.values, ∀ x ∈ s.pricing.offsets,
          x.defect? ≠ some .endless) → q.MoneyIn Domain.finite) := by
  intro r days hplay q hq
  obtain ⟨fresh, hfresh, hrun⟩ := exists_of_playDays hplay hq
  obtain ⟨name, strategies, allocator, hstrategies, hdeclared⟩ :=
    Portfolio.exists_ofStrategies hbuilt hfresh
  have hfunds := BacktestConfig.fundsFinite_of_read hread
  have hcash : ∀ s ∈ strategies, s.FundsFinite := fun s hs =>
    (hdeclared s hs).elim (hfunds.strategies s) (hfunds.benchmark s)
  have hmoney : ∀ f, fresh.MoneyIn (Domain.without f) := fun f =>
    Portfolio.moneyIn_of_ofStrategies hstrategies fun s hs c x hx =>
      Decimal.isFinite_iff_defect?.mp (hcash s hs c x hx) f
  have hdeals : ∀ f, (∀ s ∈ fresh.strategies.values, s.pricing.OrdersIn (Domain.without f)) →
      fresh.DealsIn (Domain.without f) := fun f =>
    Portfolio.dealsIn_of_ofStrategies hstrategies
      (Decimal.isFinite_iff_defect?.mp hfunds.commission f)
  have hundefined : q.MoneyIn (Domain.without .undefined) :=
    (hmoney .undefined).handleMarkets (hdeals .undefined fun s _ => s.pricing.ordersIn_undefined)
      (fun day _ _ _ _ => day.brings_undefined) hrun
  refine ⟨hundefined, ?_, fun hbounded hoffsets => Portfolio.MoneyIn.isFinite fun f => ?_⟩
  · refine Portfolio.isFinite_splits_of_handleMarkets ?_ hrun
    exact fun e he a b hb => Decimal.isFinite_iff_defect?.mpr fun f => ((hmoney f).market e he a b hb).split
  · cases f with
    | undefined => exact hundefined
    | endless =>
      have horders : ∀ s ∈ fresh.strategies.values, s.pricing.OrdersIn (Domain.without .endless) :=
        fun s hs => (Pricing.within_of_offsets (hoffsets fresh hfresh s hs)).ordersIn
      exact (hmoney .endless).handleMarkets (hdeals .endless horders)
        (fun day hday _ _ hstep => (hbounded day hday).brings hstep) hrun

/-- The asset rises from ten euros to eleven. -/
theorem money_stays_finite_abroad :
    let prices := [("2024-01-02", "10"), ("2024-01-03", "11")]
    let rates := [("2024-01-02", "2"), ("2024-01-03", "2")]
    ∃ config data p b u, BacktestConfig.read abroadConfig.toDocument = .ok config ∧
      MarketTables.ofTables (barTable prices) (some (euroTable rates)) = .ok data ∧
      Portfolio.ofConfig config = .ok (p, b) ∧
      Action.forEach (((start p b).events data ⟨none, none, none⟩).items.take 2) playDay (start p b) =
        (u, .ok ()) ∧
      (∀ q ∈ u.portfolios, q.MoneyIn Domain.finite) ∧
      u.portfolio.equity.points.map Prod.snd = [1000, 1100] := by
  intro prices rates
  have hrun : (do
      let config ← (BacktestConfig.read abroadConfig.toDocument).toOption
      let data ← (MarketTables.ofTables (barTable prices) (some (euroTable rates))).toOption
      let (p, b) ← (Portfolio.ofConfig config).toOption
      let days := ((start p b).events data ⟨none, none, none⟩).items.take 2
      let outcome := Action.forEach days playDay (start p b)
      some (decide (∀ day ∈ days, day.Bounded),
        decide (∀ q ∈ (start p b).portfolios, ∀ s ∈ q.strategies.values, ∀ x ∈ s.pricing.offsets,
          x.defect? ≠ some .endless),
        outcome.2.toBool, outcome.1.portfolio.equity.points.map Prod.snd)) =
      some (true, true, true, [1000, 1100]) := by decide +kernel
  obtain ⟨config, hread, hrun⟩ := Option.bind_eq_some_iff.mp hrun
  obtain ⟨data, hdata, hrun⟩ := Option.bind_eq_some_iff.mp hrun
  obtain ⟨⟨p, b⟩, hconfig, hrun⟩ := Option.bind_eq_some_iff.mp hrun
  simp only [Option.some.injEq, Prod.mk.injEq, decide_eq_true_eq] at hrun
  obtain ⟨hbounded, hoffsets, hok, hequity⟩ := hrun
  have hread := Except.eq_ok_of_toOption hread
  have hconfig := Except.eq_ok_of_toOption hconfig
  have hplay := Action.eq_ok_of_toBool hok
  refine ⟨config, data, p, b, _, hread, Except.eq_ok_of_toOption hdata, hconfig, hplay,
    fun q hq => ?_, hequity⟩
  exact (money_stays_finite hread hconfig data ⟨none, none, none⟩ 2 hplay q hq).2.2 hbounded hoffsets

/-- An infinite price of an asset that is held comes with its day, the day succeeds, and the portfolio is
worth an infinity. -/
theorem money_becomes_infinite :
    let prices := [("2024-01-02", "10"), ("2024-01-03", "inf")]
    let rates := [("2024-01-02", "2"), ("2024-01-03", "2")]
    ∃ config data p b u, BacktestConfig.read abroadConfig.toDocument = .ok config ∧
      MarketTables.ofTables (barTable prices) (some (euroTable rates)) = .ok data ∧
      Portfolio.ofConfig config = .ok (p, b) ∧
      play ((start p b).events data ⟨none, none, none⟩) (start p b) = (u, .ok ()) ∧
      u.portfolio.equity.points.map Prod.snd = [1000, .infinity false] ∧
      ¬ u.portfolio.MoneyIn Domain.finite := by
  intro prices rates
  have hrun : (do
      let config ← (BacktestConfig.read abroadConfig.toDocument).toOption
      let data ← (MarketTables.ofTables (barTable prices) (some (euroTable rates))).toOption
      let (p, b) ← (Portfolio.ofConfig config).toOption
      let outcome := play ((start p b).events data ⟨none, none, none⟩) (start p b)
      some (outcome.2.toBool, outcome.1.portfolio.equity.points.map Prod.snd)) =
      some (true, [1000, .infinity false]) := by decide +kernel
  obtain ⟨config, hread, hrun⟩ := Option.bind_eq_some_iff.mp hrun
  obtain ⟨data, hdata, hrun⟩ := Option.bind_eq_some_iff.mp hrun
  obtain ⟨⟨p, b⟩, hconfig, hrun⟩ := Option.bind_eq_some_iff.mp hrun
  simp only [Option.some.injEq, Prod.mk.injEq] at hrun
  obtain ⟨hok, hequity⟩ := hrun
  refine ⟨config, data, p, b, _, Except.eq_ok_of_toOption hread, Except.eq_ok_of_toOption hdata,
    Except.eq_ok_of_toOption hconfig, Action.eq_ok_of_toBool hok, hequity, fun hmoney => ?_⟩
  have hworth := List.mem_of_getLast? (congrArg List.getLast? hequity)
  obtain ⟨e, he, hinfinite⟩ := List.mem_map.mp hworth
  have hfinite : e.2.IsFinite := hmoney.equity e he
  rw [hinfinite] at hfinite
  exact hfinite

end Replay
end Backtesting
