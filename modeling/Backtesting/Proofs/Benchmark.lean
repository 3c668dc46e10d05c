import Backtesting.Proofs.Market.Selection
import Backtesting.Proofs.MergedDays
import Backtesting.Proofs.Portfolio.Foreign

/-!
A portfolio beside a benchmark. The two share one stream of days, which is requested for the assets
and currencies of both. On a day that is replayed either way the portfolio is brought further bars
and rates that it has no use for, so as long as the benchmark brings no day of its own, the portfolio
ends as it does alone.
-/
namespace Backtesting

open Backtesting.Action (bind_eq_ok)

theorem Inserts.map {P : α → Prop} {Q : β → Prop} {f : α → β} {l m : List α} (h : Inserts P l m)
    (hf : ∀ a ∈ m, P a → Q (f a)) : Inserts Q (l.map f) (m.map f) := by
  induction h with
  | nil => exact .nil
  | keep a _ ih => exact .keep (f a) (ih fun b hb => hf b (List.mem_cons_of_mem a hb))
  | @insert l m a ha _ ih =>
    exact .insert (hf a List.mem_cons_self ha) (ih fun b hb => hf b (List.mem_cons_of_mem a hb))

namespace Portfolio

variable {as : Asset → Prop} {cs cs' : Currency → Prop} {C : Prop} {a : Asset} {c : Currency}
  {p q u v : Portfolio} {day : MarketDay}

/-- What a portfolio that is built needs rates for is in use and not its base. -/
theorem IsBuilt.uses_of_reads (h : p.IsBuilt) (hc : p.Reads c) : p.Uses c ∧ c ≠ p.base := by
  obtain ⟨name, base, named, allocator, commission, hbuild, -, hfixed⟩ := h.exists_build
  have hbase : p.fx.base = p.base := by
    rw [(history_of_build hbuild).2.1]
    rfl
  have hallocator : p.allocator = allocator := (strategies_of_build hbuild).2
  obtain ⟨hne, rfl | huses | ⟨capital, hcapital, -⟩⟩ := hc
  · exact absurd hbase.symm hne
  · exact ⟨huses, hbase ▸ hne⟩
  · exact absurd (hallocator.symm.trans hcapital) (hfixed capital)

theorem IsBuilt.equity_eq (h : p.IsBuilt) : p.equity = EquityCurve.empty := by
  obtain ⟨name, base, named, allocator, commission, hbuild, -, -⟩ := h.exists_build
  exact (history_of_build hbuild).2.2.1

/-- On a day that succeeds all splits succeed. -/
theorem daySplitsPass_of_handleMarket (h : handleMarket day p = (q, .ok ())) :
    DaySplitsPass as day p := by
  have hsplits : ∀ (l : List (Asset × Bar)) {p q : Portfolio},
      Action.forEach l (fun e => handleSplit day.date e.1 (.known e.2.split)) p = (q, .ok ()) →
        SplitsPass as day.date l p := by
    intro l
    induction l with
    | nil => exact fun _ => trivial
    | cons e l ih =>
      intro p q h
      obtain ⟨u, hu, hrest⟩ := Action.forEach_cons_eq_ok.mp h
      refine ⟨fun _ => ?_, fun u' hu' => ?_⟩
      · obtain ⟨w, c, n, market, journal, hpositions, hread, hsplit, -⟩ := handleSplit_eq_ok hu
        obtain rfl : e.2.split = c := Except.ok.inj hread
        rw [← (SameStores.of_splitPositions hpositions).market, hsplit]
        exact ⟨n, rfl⟩
      · obtain rfl : u' = u := congrArg Prod.fst (hu'.symm.trans hu)
        exact ih hrest
  obtain ⟨p₁, p₂, _, _, _, htake, hactions, -⟩ := handleMarket_eq_ok.mp h
  obtain ⟨w, _, hdividends, hsplit⟩ := bind_eq_ok.mp hactions
  intro u v hu hv
  obtain rfl : p₁ = u := congrArg Prod.fst (htake.symm.trans hu)
  obtain rfl : w = v := congrArg Prod.fst (hdividends.symm.trans hv)
  exact hsplits _ hsplit

/-- The rates of a day that succeeds can be read. -/
theorem readRate_of_handleMarket (h : handleMarket day p = (q, .ok ())) :
    ∀ e ∈ day.rates, ∃ x, FxHistory.readRate day.date e = .ok x := by
  intro e he
  obtain ⟨-, -, happend, -⟩ := stores_of_handleMarket h
  obtain ⟨read, hread, -⟩ := FxHistory.append_eq_ok happend
  obtain ⟨x, -, hx⟩ := Except.exists_mem_of_mapM hread he
  exact ⟨x, hx⟩

/-- The second day is the first one with further data, provided that its rates can be read. -/
def Widens (as : Asset → Prop) (cs : Currency → Prop) (day day' : MarketDay) : Prop :=
  (∀ e ∈ day'.rates, ∃ x, FxHistory.readRate day'.date e = .ok x) → day.Extends as cs day'

/-- Days that succeed lead to the same end where data that is not needed is put in. -/
theorem seesAlike_of_days {days days' : List MarketDay}
    (hdays : List.Forall₂ (Widens as cs') days days') (h : SeesAlike as cs C False p q)
    (hcs : ∀ c, cs c → c ≠ p.fx.base → cs' c)
    (hp : Action.forEach days handleMarket p = (u, .ok ()))
    (hq : Action.forEach days' handleMarket q = (v, .ok ())) : SeesAlike as cs C False u v := by
  induction hdays generalizing p q with
  | nil =>
    obtain rfl := Action.forEach_nil_eq_ok.mp hp
    obtain rfl := Action.forEach_nil_eq_ok.mp hq
    exact h
  | @cons day day' _ _ hday _ ih =>
    obtain ⟨p', hp', hp⟩ := Action.forEach_cons_eq_ok.mp hp
    obtain ⟨q', hq', hq⟩ := Action.forEach_cons_eq_ok.mp hq
    have hnext := (shadows_handleMarket (hday (readRate_of_handleMarket hq')) h hcs
      (daySplitsPass_of_handleMarket hp') (daySplitsPass_of_handleMarket hq')).1
    have hbase := fxBase_handleMarket day p
    rw [hp', hq'] at hnext
    rw [hp'] at hbase
    exact ih hnext (by rwa [hbase]) hp hq

/-- Days in order that succeed are the days of the equity curve. -/
theorem equityDates_of_days {days : List MarketDay}
    (hdays : days.Pairwise fun a b => a.date < b.date)
    (hafter : ∀ day ∈ days, ∀ d ∈ p.equity.values.dates, d < day.date)
    (h : Action.forEach days handleMarket p = (u, .ok ())) :
    u.equity.values.dates = p.equity.values.dates ++ days.map MarketDay.date := by
  induction days generalizing p with
  | nil =>
    obtain rfl := Action.forEach_nil_eq_ok.mp h
    simp
  | cons day days ih =>
    obtain ⟨hfirst, hrest⟩ := List.pairwise_cons.mp hdays
    obtain ⟨q, hq, h⟩ := Action.forEach_cons_eq_ok.mp h
    obtain ⟨-, -, -, v, -, hvalues⟩ := stores_of_handleMarket hq
    have hdates : q.equity.values.dates = p.equity.values.dates ++ [day.date] := by
      rw [hvalues, Chronicle.dates, Chronicle.days_put_of_forall_lt v (hafter day List.mem_cons_self),
        List.map_append]
      rfl
    rw [ih hrest (fun later hlater d hd => ?_) h, hdates]
    · simp
    · rw [hdates] at hd
      rcases List.mem_append.mp hd with hd | hd
      · exact hafter later (List.mem_cons_of_mem day hlater) d hd
      · exact List.mem_singleton.mp hd ▸ hfirst later hlater

theorem IsBuilt.equityDates_of_days {days : List MarketDay} (h : p.IsBuilt)
    (hdays : days.Pairwise fun a b => a.date < b.date)
    (hrun : Action.forEach days handleMarket p = (u, .ok ())) :
    u.equity.values.dates = days.map MarketDay.date := by
  have hempty : p.equity.values.dates = [] := by
    rw [h.equity_eq]
    rfl
  rw [Portfolio.equityDates_of_days hdays (by simp [hempty]) hrun, hempty, List.nil_append]

end Portfolio

namespace Replay

variable {r r' u : Replay} {data : MarketTables} {range : ReplayRange} {day day' : MarketDay}
  {p b : Portfolio}

/-- An event is what the rows of its day say. -/
theorem rows_of_mem_events (h : day ∈ (r.events data range).items) :
    MarketTables.barsOn (data.bars.filter fun row => r.assets.contains row.asset) day.date =
        .ok (day.date, day.bars) ∧
      ∃ rates, MarketTables.ratesOn (data.rateRows r.currencies) day.date = .ok (day.date, rates) ∧
        day.rates = MarketDay.ofRates rates := by
  obtain ⟨hbars, hblocked, hday⟩ :=
    MarketDay.eq_ofDay_of_mem_mergeDays (data.ascends_barFeed _) (mem_mergeDays_of_mem_events h)
  refine ⟨MarketTables.barsOn_of_mem_barFeed hbars, _,
    MarketTables.ratesOn_of_rateFeed rfl hblocked, ?_⟩
  exact congrArg MarketDay.rates hday

/-- A wider request brings, on the same day, the same data and more. -/
theorem widens_of_mem_events (hassets : r.assets ⊆ r'.assets)
    (hcurrencies : r.currencies ⊆ r'.currencies) (h : day ∈ (r.events data range).items)
    (h' : day' ∈ (r'.events data range).items) (hdate : day'.date = day.date) :
    Portfolio.Widens (· ∈ r.assets) (· ∈ r.currencies) day day' := by
  obtain ⟨hbars, rates, hrates, hday⟩ := rows_of_mem_events h
  obtain ⟨hbars', rates', hrates', hday'⟩ := rows_of_mem_events h'
  intro hread
  rw [hdate] at hbars' hrates'
  obtain ⟨bars, hfewer, hinserts⟩ := MarketTables.barsOn_filter hbars' r.assets.contains
  obtain ⟨fewer, hfewer', hinserts'⟩ := MarketTables.ratesOn_filter hrates' r.currencies.contains
    (g := fun row => r.currencies.any fun c => c.code = row.currencyCode) fun row c hc => by
      rw [hc, List.contains_eq_any_beq]
      simp only [Currency.code_inj, beq_eq_decide, eq_comm (a := c)]
  have hnarrow : (data.bars.filter fun row => r'.assets.contains row.asset).filter
      (fun row => r.assets.contains row.asset) =
        data.bars.filter fun row => r.assets.contains row.asset := by
    rw [List.filter_filter]
    refine List.filter_congr fun row _ => ?_
    by_cases ha : row.asset ∈ r.assets
    · simp [ha, hassets ha]
    · simp [ha]
  have hnarrow' : (data.rateRows r'.currencies).filter
      (fun row => r.currencies.any fun c => c.code = row.currencyCode) =
        data.rateRows r.currencies := by
    unfold MarketTables.rateRows
    rw [List.filter_filter]
    refine List.filter_congr fun row _ => ?_
    rw [Bool.and_eq_left_iff_imp, List.any_eq_true, List.any_eq_true]
    rintro ⟨c, hc, hcode⟩
    exact ⟨c, hcurrencies hc, hcode⟩
  rw [hnarrow, hbars] at hfewer
  rw [hnarrow', hrates] at hfewer'
  obtain ⟨-, rfl⟩ := Prod.mk.inj (Except.ok.inj hfewer)
  obtain ⟨-, rfl⟩ := Prod.mk.inj (Except.ok.inj hfewer')
  refine ⟨hdate, hinserts.imp fun e _ he => by simpa using he, ?_⟩
  rw [hday, hday']
  refine hinserts'.map fun e he hc => ?_
  have hmem : (e.1.code, Amount.known e.2) ∈ day'.rates := by
    rw [hday']
    exact List.mem_map.mpr ⟨e, he, rfl⟩
  obtain ⟨⟨c, x⟩, hx⟩ := hread _ hmem
  rw [hdate] at hx
  obtain rfl : c = e.1 := Currency.code_inj.mp (FxHistory.readRate_eq_ok hx).1
  exact ⟨e.1, x, hx, by simpa using hc⟩

theorem play_eq_ok {feed : Feed MarketDay} (h : play feed r = (u, .ok ())) :
    Action.forEach feed.items playDay r = (u, .ok ()) ∧ feed.failure = none := by
  obtain ⟨v, _, hdays, hfailure⟩ := bind_eq_ok.mp h
  cases hend : feed.failure with
  | none =>
    rw [hend] at hfailure
    obtain ⟨rfl, -⟩ := Action.pure_eq_ok.mp hfailure
    exact ⟨hdays, rfl⟩
  | some e =>
    rw [hend] at hfailure
    exact absurd (congrArg Prod.snd hfailure) nofun

/-- A run whose events all succeed ends where they end. -/
theorem run_of_play {first last : Document} {calendar : Option (List Date)}
    (hrange : readRange first last calendar = .ok range)
    (h : (play (r.events data range) r).2 = .ok ()) :
    Action.forEach (r.events data range).items Portfolio.handleMarket r.portfolio =
        ((run data first last calendar r).1.portfolio, .ok ()) ∧
      (r.events data range).failure = none := by
  obtain ⟨u, hplay⟩ : ∃ u, play (r.events data range) r = (u, .ok ()) := ⟨_, Prod.ext rfl h⟩
  have hrun : (run data first last calendar r).1 = u := by
    have hread : Action.ofExcept (readRange first last calendar) r = (r, .ok range) := by
      rw [hrange]
      rfl
    have hfeed : Action.read (fun r : Replay => .ok (r.events data range)) r =
        (r, .ok (r.events data range)) := rfl
    rw [run, Action.bind_ok hread, Action.bind_ok hfeed, Action.bind_ok hplay]
    rfl
  obtain ⟨hdays, hend⟩ := play_eq_ok hplay
  rw [hrun]
  exact ⟨(playDays_eq_ok hdays).1, hend⟩

/-- A wider request leads to the same days exactly if each of its days has a row of an asset that the
narrower one asks for. -/
theorem dates_events_eq_iff (hassets : r.assets ⊆ r'.assets)
    (h : (r.events data range).failure = none) (h' : (r'.events data range).failure = none) :
    (r'.events data range).items.map MarketDay.date =
        (r.events data range).items.map MarketDay.date ↔
      ∀ day ∈ (r'.events data range).items,
        ∃ row ∈ data.bars, row.asset ∈ r.assets ∧ row.date = day.date := by
  constructor
  · intro hdates day hday
    have hmem : day.date ∈ (r.events data range).items.map MarketDay.date :=
      hdates ▸ List.mem_map_of_mem hday
    exact ((mem_dates_events h).mp hmem).2
  · intro hrows
    refine Date.eq_of_mem_iff (List.pairwise_map.mpr (pairwise_events r' data range))
      (List.pairwise_map.mpr (pairwise_events r data range)) fun d => ⟨fun hd => ?_, fun hd => ?_⟩
    · obtain ⟨day, hday, rfl⟩ := List.mem_map.mp hd
      exact (mem_dates_events h).mpr ⟨((mem_dates_events h').mp hd).1, hrows day hday⟩
    · obtain ⟨hincludes, row, hrow, hasset, hdate⟩ := (mem_dates_events h).mp hd
      exact (mem_dates_events h').mpr ⟨hincludes, row, hrow, hassets hasset, hdate⟩

/-- What a portfolio asks for is asked for beside a benchmark too. -/
theorem eraseDups_start_subset [BEq α] [LawfulBEq α] (f : Portfolio → List α) :
    ((start p none).portfolios.flatMap f).eraseDups ⊆
      ((start p (some b)).portfolios.flatMap f).eraseDups := by
  intro a ha
  simp only [start, portfolios, List.mem_eraseDups, List.mem_flatMap] at ha ⊢
  obtain ⟨p', hp', ha⟩ := ha
  exact ⟨p', by simpa using Or.inl (by simpa using hp'), ha⟩

/-- Beside a benchmark, a portfolio that is built ends as it does alone exactly if the same days are
replayed: with the same books, fills, counts and equity curve. Its histories may hold the data of the
benchmark as well. The days are the same exactly if none has only rows of assets that the portfolio
does not have. -/
theorem benchmark_aside {first last : Document} {calendar : Option (List Date)}
    (hbuilt : p.IsBuilt) (hrange : readRange first last calendar = .ok range)
    (halone : (play ((start p none).events data range) (start p none)).2 = .ok ())
    (hboth : (play ((start p (some b)).events data range) (start p (some b))).2 = .ok ()) :
    (((start p (some b)).events data range).items.map MarketDay.date =
        ((start p none).events data range).items.map MarketDay.date ↔
      ∃ market fx journal, (run data first last calendar (start p (some b))).1.portfolio =
        { (run data first last calendar (start p none)).1.portfolio with market, fx, journal }) ∧
    (((start p (some b)).events data range).items.map MarketDay.date =
        ((start p none).events data range).items.map MarketDay.date ↔
      ∀ day ∈ ((start p (some b)).events data range).items,
        ∃ row ∈ data.bars, row.asset ∈ p.assets ∧ row.date = day.date) := by
  obtain ⟨hp, hend⟩ := run_of_play hrange halone
  obtain ⟨hq, hend'⟩ := run_of_play hrange hboth
  have hassets : (start p none).assets ⊆ (start p (some b)).assets :=
    eraseDups_start_subset Portfolio.assets
  have hcurrencies : (start p none).currencies ⊆ (start p (some b)).currencies :=
    eraseDups_start_subset Portfolio.currencies
  refine ⟨⟨?same_end, ?same_days⟩, ?rows⟩
  case same_end =>
    intro hdates
    have hdays := forall₂_of_map_eq (R := Portfolio.Widens p.Lists p.Reads) hdates.symm
      fun day hday day' hday' hdate hread => by
        have hwiden := widens_of_mem_events hassets hcurrencies hday hday' hdate.symm hread
        refine ⟨hwiden.date, hwiden.bars.imp fun e _ he ha => ?_,
          hwiden.rates.imp fun e _ he => he.imp fun c hc => ?_⟩
        · exact he (mem_assets List.mem_cons_self hbuilt ha)
        · obtain ⟨huses, hbase⟩ := hbuilt.uses_of_reads hc
          exact mem_currencies List.mem_cons_self hbuilt huses hbase
    have hsees := Portfolio.seesAlike_of_days hdays (Portfolio.seesAlike_refl p)
      (fun _ hc => hc) hp hq
    exact ⟨_, _, _, hsees.same⟩
  case same_days =>
    rintro ⟨market, fx, journal, hsame⟩
    have hdates := hbuilt.equityDates_of_days (pairwise_events _ data range) hp
    have hdates' := hbuilt.equityDates_of_days (pairwise_events _ data range) hq
    rw [← hdates', hsame, ← hdates]
  case rows =>
    have hown (a : Asset) : a ∈ (start p none).assets ↔ a ∈ p.assets := by
      simp [assets, start, portfolios]
    simpa only [hown] using dates_events_eq_iff hassets hend hend'

/-- A strategy that buys one asset and holds it. -/
def lone (name : String) (a : Asset) (c : Currency) : StrategyConfig :=
  { abroad name "buy_and_hold" with
    assets := OrderedMap.ofList [(a, c)]
    sizer := ⟨"fixed_weight", [("weights", .object [(a, .integer 1)])]⟩ }

/-- One asset in dollars beside a benchmark that buys another one or in another currency. -/
def besideConfig (a : Asset) (c : Currency) : BacktestConfig :=
  { abroadConfig with strategies := [lone "S" "A" .usd], benchmark := some (lone "B" a c) }

/-- On a day that only the asset of the benchmark has, the portfolio is given an event and finds no
bar of its own asset: its equity curve stays empty, where alone it has the day after. -/
theorem benchmark_day_counts :
    let first : Date := ⟨2024, 1, 2, by decide, by decide, by decide⟩
    let second : Date := ⟨2024, 1, 3, by decide, by decide, by decide⟩
    let foreign : DatedRow := ⟨first, ("asset", .text "Z") :: (abroadRow first).cells⟩
    let data : MarketTables := ⟨[foreign, abroadRow second], none⟩
    let range : ReplayRange := ⟨none, none, none⟩
    ∃ p b, Portfolio.ofConfig (besideConfig "Z" .usd) = .ok (p, some b) ∧
      (play ((start p none).events data range) (start p none)).2.toBool = true ∧
      (run data .null .null none (start p none)).1.portfolio.equity.values.dates = [second] ∧
      (play ((start p (some b)).events data range) (start p (some b))).2.mapError Error.label? =
        .error (some "MarketDataNotFoundError") ∧
      (run data .null .null none (start p (some b))).1.portfolio.equity.values.dates = [] := by
  intro first second foreign data range
  have hrun : (Portfolio.ofConfig (besideConfig "Z" .usd)).toOption.any fun (p, b) =>
      b.isSome && (play ((start p none).events data range) (start p none)).2.toBool &&
        (run data .null .null none (start p none)).1.portfolio.equity.values.dates = [second] &&
        (play ((start p b).events data range) (start p b)).2.mapError Error.label? =
          .error (some "MarketDataNotFoundError") &&
        (run data .null .null none (start p b)).1.portfolio.equity.values.dates = [] := by
    decide +kernel
  obtain ⟨⟨p, b⟩, hconfig, hrun⟩ := (Option.any_eq_true _ _).mp hrun
  simp only [Bool.and_eq_true, decide_eq_true_eq] at hrun
  obtain ⟨⟨⟨⟨hsome, halone⟩, hdates⟩, hboth⟩, hdates'⟩ := hrun
  obtain ⟨b, rfl⟩ := Option.isSome_iff_exists.mp hsome
  exact ⟨p, b, Except.eq_ok_of_toOption hconfig, halone, hdates, hboth, hdates'⟩

/-- The benchmark buys the same asset in euros, so the portfolio is brought rates of the euro. -/
theorem benchmark_aside_abroad :
    let days : List Date := [⟨2024, 1, 2, by decide, by decide, by decide⟩,
      ⟨2024, 1, 3, by decide, by decide, by decide⟩]
    let data : MarketTables := ⟨days.map abroadRow, some (days.map abroadRow)⟩
    let range : ReplayRange := ⟨none, none, none⟩
    ∃ p b, Portfolio.ofConfig (besideConfig "A" .eur) = .ok (p, some b) ∧
      (start p none).currencies = [] ∧ (start p (some b)).currencies = [.eur] ∧
      (run data .null .null none (start p none)).1.portfolio.fills.length = 1 ∧
      (∃ market fx journal, (run data .null .null none (start p (some b))).1.portfolio =
        { (run data .null .null none (start p none)).1.portfolio with market, fx, journal }) ∧
      ∀ day ∈ ((start p (some b)).events data range).items,
        ∃ row ∈ data.bars, row.asset ∈ p.assets ∧ row.date = day.date := by
  intro days data range
  have hrun : (Portfolio.ofConfig (besideConfig "A" .eur)).toOption.any fun (p, b) =>
      b.isSome && (start p none).currencies = [] && (start p b).currencies = [.eur] &&
        (run data .null .null none (start p none)).1.portfolio.fills.length = 1 &&
        (play ((start p none).events data range) (start p none)).2.mapError Error.label? = .ok () &&
        (play ((start p b).events data range) (start p b)).2.mapError Error.label? = .ok () &&
        ((start p b).events data range).items.map MarketDay.date =
          ((start p none).events data range).items.map MarketDay.date := by
    decide +kernel
  obtain ⟨⟨p, b⟩, hconfig, hrun⟩ := (Option.any_eq_true _ _).mp hrun
  simp only [Bool.and_eq_true, decide_eq_true_eq] at hrun
  obtain ⟨⟨⟨⟨⟨⟨hsome, halone⟩, hboth⟩, hfills⟩, hok⟩, hok'⟩, hdates⟩ := hrun
  obtain ⟨b, rfl⟩ := Option.isSome_iff_exists.mp hsome
  have hconfig := Except.eq_ok_of_toOption hconfig
  have hbuilt : p.IsBuilt := Portfolio.isBuilt_of_ofConfig hconfig p List.mem_cons_self
  have hrange : readRange .null .null none = .ok range := rfl
  obtain ⟨hend, hrows⟩ := benchmark_aside hbuilt hrange (Except.mapError_eq_ok.mp hok)
    (Except.mapError_eq_ok.mp hok')
  exact ⟨p, b, hconfig, halone, hboth, hfills, hend.mp hdates, hrows.mp hdates⟩

end Replay
end Backtesting
