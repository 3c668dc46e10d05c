import Backtesting.Proofs.Portfolio.Domain
import Backtesting.Proofs.Replay

/-!
What a replay ends with. Rows that cannot be read end the feed of events with an error of the class
that says so, whatever their cells hold. The events that there are may end with other errors of a
class, but also with a fault of decimals: a cell that reads as a NaN or an infinity is a number like any
other until something is computed with it, and finite numbers may overflow.
-/
namespace Backtesting

open Backtesting.Action (Safe)
open Backtesting.Decimal (Domain)
open Backtesting.Except (FailsOnly Gives)

variable {D : Domain} {reckons : Prop}

/-- The error that a table cannot be read. -/
def Error.IsUnreadable (e : Error) : Prop := e.label? = some "MarketDataRetrievalError"

theorem Error.IsUnreadable.endsReplay {e : Error} (h : e.IsUnreadable) : e.EndsReplay D reckons := by
  unfold EndsReplay
  split
  · simp [IsUnreadable, label?] at h
  · simp [IsUnreadable, label?] at h
  · simp [IsUnreadable, label?] at h
  · rw [show e.label? = some _ from h]
    rfl

namespace MarketTables

/-- What can be read of the rows is in the domain. -/
structure Within (D : Domain) (t : MarketTables) : Prop where
  bars : ∀ row ∈ t.bars, ∀ b, row.bar = .ok b → b.Within D
  rates : ∀ row ∈ t.fx.getD [], ∀ e, row.rate = .ok e → D.Has e.2

instance (t : MarketTables) : Decidable (t.Within Domain.finite) :=
  decidable_of_iff ((∀ row ∈ t.bars, ∀ b, row.bar = .ok b → b.Within Domain.finite) ∧
    ∀ row ∈ t.fx.getD [], ∀ e, row.rate = .ok e → e.2.IsFinite)
    ⟨fun h => ⟨h.1, h.2⟩, fun h => ⟨h.bars, h.rates⟩⟩

variable {t : MarketTables} {d : Date} {currencies : List Currency}

theorem Within.barFeed (h : t.Within D) {assets : List Asset} {bars : Bars}
    (hbars : (d, bars) ∈ (t.barFeed assets).items) {a : Asset} {b : Bar}
    (hb : bars.get? a = some b) : b.Within D := by
  obtain ⟨d', -, hread⟩ := Feed.exists_of_mem_mapUntil hbars
  obtain ⟨entries, hentries, hread⟩ := Except.bind_eq_ok.mp hread
  obtain ⟨-, rfl⟩ := Prod.mk.inj (Except.pure_eq_ok.mp hread)
  have hmem := OrderedMap.mem_ofList (OrderedMap.get?_eq_some_iff.mp hb)
  obtain ⟨row, hrow, hentry⟩ := Except.mem_of_mapM hentries hmem
  obtain ⟨b', hb', hentry⟩ := Except.bind_eq_ok.mp hentry
  obtain ⟨-, rfl⟩ := Prod.mk.inj (Except.pure_eq_ok.mp hentry)
  exact h.bars row (List.mem_of_mem_filter (mem_rowsOn.mp hrow).1) b' hb'

theorem Within.rateFeed (h : t.Within D) {rates : OrderedMap Currency Decimal}
    (hrates : (d, rates) ∈ (t.rateFeed (currencies.map fun c => .text c.code)).items)
    {c : Currency} {r : Decimal} (hr : rates.get? c = some r) : D.Has r := by
  rw [rateFeed_codes] at hrates
  cases hfx : t.fx with
  | none =>
    rw [hfx] at hrates
    exact absurd hrates List.not_mem_nil
  | some rows =>
    rw [hfx] at hrates
    obtain ⟨d', -, hread⟩ := Feed.exists_of_mem_mapUntil hrates
    obtain ⟨entries, hentries, hread⟩ := Except.bind_eq_ok.mp hread
    obtain ⟨-, rfl⟩ := Prod.mk.inj (Except.pure_eq_ok.mp hread)
    have hmem := OrderedMap.mem_ofList (OrderedMap.get?_eq_some_iff.mp hr)
    obtain ⟨row, hrow, hrate⟩ := Except.mem_of_mapM hentries hmem
    have hrow : row ∈ t.fx.getD [] := by
      rw [hfx]
      exact List.mem_of_mem_filter (List.mem_of_mem_filter hrow)
    exact h.rates row hrow (c, r) hrate

/-- Every cell of a bar that cannot be read is reported alike. -/
theorem isUnreadable_barFeed {assets : List Asset} {e : Error}
    (h : (t.barFeed assets).failure = some e) : e.IsUnreadable := by
  obtain ⟨d, -, he⟩ := Feed.exists_of_failure_mapUntil h
  have hrow : ∀ row : DatedRow, FailsOnly Error.IsUnreadable row.bar :=
    fun row => FailsOnly.mapError_iff.mpr fun _ _ => rfl
  exact FailsOnly.bind (FailsOnly.mapM fun row _ => FailsOnly.bind (hrow row) fun _ _ => FailsOnly.ok _)
    (fun _ _ => FailsOnly.ok _) e he

/-- The rows that are read have the code of a wanted currency, so only their rates can be at fault. -/
theorem isUnreadable_rateFeed {e : Error}
    (h : (t.rateFeed (currencies.map fun c => .text c.code)).failure = some e) : e.IsUnreadable := by
  rw [rateFeed_codes] at h
  cases hfx : t.fx with
  | none =>
    rw [hfx] at h
    simp [Feed.ofList] at h
  | some rows =>
    rw [hfx] at h
    obtain ⟨d, -, he⟩ := Feed.exists_of_failure_mapUntil h
    refine FailsOnly.bind (FailsOnly.mapM fun row hrow => ?_) (fun _ _ => FailsOnly.ok _) e he
    have hwanted := (List.mem_filter.mp (List.mem_of_mem_filter hrow)).2
    obtain ⟨c, -, hcode⟩ := List.any_eq_true.mp hwanted
    refine FailsOnly.bind ?_ fun _ _ => FailsOnly.bind ?_ fun _ _ => FailsOnly.ok _
    · rw [← of_decide_eq_true hcode, Currency.ofCode_code]
      exact FailsOnly.ok c
    · exact FailsOnly.mapError_iff.mpr fun _ _ => rfl

end MarketTables

theorem Feed.mem_of_on? {f : Feed (Date × α)} {d : Date} {a : α} (h : f.on? d = some a) :
    (d, a) ∈ f.items := by
  obtain ⟨x, hx, rfl⟩ := Option.map_eq_some_iff.mp h
  obtain ⟨hhead, hdate⟩ := Option.filter_eq_some_iff.mp hx
  obtain rfl := of_decide_eq_true hdate
  exact List.mem_of_head? hhead

namespace Portfolio

variable {p : Portfolio}

namespace IsBuilt

/-- The numbers that a portfolio is built with are those of its strategies and its commission. -/
theorem within (h : p.IsBuilt) (hstrategies : ∀ n s, p.strategies.get? n = some s → s.Within D)
    (hcommission : D.Has p.brokerage.commission.rate) : p.Within D := by
  obtain ⟨name, base, named, allocator, commission, hbuild, -, -⟩ := h.exists_build
  obtain ⟨hmarket, hfx, -⟩ := history_of_build hbuild
  have hvenue : p.venue = none := by
    obtain ⟨-, -, -, -, hp⟩ := build_eq_ok.mp hbuild
    rw [hp]
  refine {
    strategies := hstrategies
    commission := hcommission
    market := hmarket ▸ fun e he => absurd he List.not_mem_nil
    fx := hfx ▸ fun e he => absurd he List.not_mem_nil
    venue := fun m hm => absurd (hvenue.symm.trans hm) (by simp) }

theorem within_all (h : p.IsBuilt) : p.Within Domain.all := by
  refine h.within (fun n s _ => ⟨⟨fun _ _ _ => trivial, fun _ _ _ => trivial⟩, ?_, ?_⟩) trivial
  · cases s.sizer with
    | fixedWeight weights => exact fun _ _ _ => trivial
    | inverseVolatility lookback => exact ⟨fun _ => trivial, fun _ => trivial⟩
  · cases s.pricing with
    | closePrice => trivial
    | limit offset => trivial
    | stop offset => trivial
    | stopLimit stopOffset limitOffset => exact ⟨trivial, trivial⟩

theorem sound (h : p.IsBuilt) (hp : p.Within D) (hreckons : p.Reckons → reckons) :
    p.Sound D reckons := by
  obtain ⟨name, base, named, allocator, commission, hbuild, -, hfixed⟩ := h.exists_build
  exact { hp with
    rules := fun n s hs hrule => hreckons ⟨n, s, hs, hrule⟩
    allocator := (strategies_of_build hbuild).2 ▸ hfixed }

end IsBuilt
end Portfolio

namespace Replay

variable {r : Replay} {data : MarketTables} {range : ReplayRange} {day : MarketDay}

theorem within_of_mem_events (hdata : data.Within D) (h : day ∈ (r.events data range).items) :
    day.Within D := by
  obtain ⟨hbars, -, hday⟩ :=
    MarketDay.eq_ofDay_of_mem_mergeDays (data.ascends_barFeed _) (mem_mergeDays_of_mem_events h)
  refine ⟨fun a b hb => hdata.barFeed hbars hb, fun e he => ?_⟩
  rw [hday] at he
  obtain ⟨⟨c, x⟩, hmem, rfl⟩ := List.mem_map.mp he
  refine ⟨c, x, rfl, ?_⟩
  cases hon : ((data.rateFeed (r.currencies.map fun c => .text c.code)).since day.date).on?
      day.date with
  | none =>
    rw [hon] at hmem
    exact absurd hmem List.not_mem_nil
  | some rates =>
    rw [hon] at hmem
    have hitem := (List.dropWhile_sublist _).subset (Feed.mem_of_on? hon)
    exact hdata.rateFeed hitem (OrderedMap.get?_eq_some_iff.mpr hmem)

theorem isUnreadable_of_failure_events {e : Error} (h : (r.events data range).failure = some e) :
    e.IsUnreadable := by
  rcases failure_of_events h with hbars | hrates
  · exact MarketTables.isUnreadable_barFeed hbars
  · exact MarketTables.isUnreadable_rateFeed hrates

variable {feed : Feed MarketDay}

/-- Days of the domain are gone through, and what ends them early has a class. -/
theorem safe_play (hdays : ∀ day ∈ feed.items, day.Within D)
    (hfailure : ∀ e, feed.failure = some e → e.IsUnreadable) :
    Safe (Error.EndsReplay D reckons) (fun r => ∀ p ∈ r.portfolios, p.Sound D reckons) (play feed) := by
  refine Safe.bind (Safe.forEach fun day hday => ?_) fun _ => ?_
  · exact safe_playDay (Portfolio.safe_handleMarket (hdays day hday))
  · split
    · next e he => exact fun r hr => ⟨hr, FailsOnly.error (hfailure e he).endsReplay⟩
    · exact Safe.pure ()

/-- Portfolios that are built, of the domain, on data of the domain. -/
theorem endsReplay_play (hbuilt : ∀ p ∈ r.portfolios, p.IsBuilt) (hdata : data.Within D)
    (hwithin : ∀ p ∈ r.portfolios, p.Within D) {e : Error}
    (h : (play (r.events data range) r).2 = .error e) :
    e.EndsReplay D (∃ p ∈ r.portfolios, p.Reckons) := by
  have hsafe : Safe (Error.EndsReplay D (∃ p ∈ r.portfolios, p.Reckons))
      (fun u => ∀ p ∈ u.portfolios, p.Sound D (∃ p ∈ r.portfolios, p.Reckons))
      (play (r.events data range)) :=
    safe_play (fun _ hday => within_of_mem_events hdata hday)
      fun _ he => isUnreadable_of_failure_events he
  refine (hsafe r fun p hp => ?_).2 e h
  exact (hbuilt p hp).sound (hwithin p hp) fun hreckons => ⟨p, hp, hreckons⟩

/-- Whatever the cells of the tables hold: rows that cannot be read end the events with the error that
says so. Other than by an error of a class, a replay of the events is stopped by a fault of decimals or,
where a day of a schedule is reckoned, by the end of the calendar. Where what can be read is finite, as
is what the portfolios are set up with, the fault is an overflow; weights in inverse proportion to
deviations are not counted as finite. -/
theorem play_stops_by {p : Portfolio} {benchmark : Option Portfolio}
    (hbuilt : ∀ q ∈ (start p benchmark).portfolios, q.IsBuilt) (data : MarketTables)
    (range : ReplayRange) :
    let r := start p benchmark
    let events := r.events data range
    (∀ e, events.failure = some e → e.IsUnreadable) ∧
    (∀ e, (play events r).2 = .error e →
      e.EndsReplay Domain.all (∃ q ∈ r.portfolios, q.Reckons)) ∧
    (data.Within Domain.finite → (∀ q ∈ r.portfolios, q.Within Domain.finite) →
      ∀ e, (play events r).2 = .error e →
        e.EndsReplay Domain.finite (∃ q ∈ r.portfolios, q.Reckons)) := by
  have hall : data.Within Domain.all :=
    ⟨fun _ _ _ _ => ⟨trivial, trivial, trivial, trivial, trivial, trivial, trivial⟩,
      fun _ _ _ _ => trivial⟩
  refine ⟨fun e he => isUnreadable_of_failure_events he, fun e he => ?_, fun hdata hwithin e he => ?_⟩
  · exact endsReplay_play hbuilt hall (fun q hq => (hbuilt q hq).within_all) he
  · exact endsReplay_play hbuilt hdata hwithin he

/-- Bars of the asset `A`, each with its day and one price. -/
def barTable (prices : List (String × String)) : Table where
  columns := MarketTables.barColumns
  rows := prices.map fun (d, x) => [.text d, .text "A", .text x, .text x, .text x, .text x]

/-- Rates of the euro, each with its day. -/
def euroTable (rates : List (String × String)) : Table where
  columns := MarketTables.fxColumns
  rows := rates.map fun (d, x) => [.text d, .text "EUR", .text x]

/-- The fault of decimals that a result is. -/
def fault? : Except Error α → Option Decimal.Fault
  | .error (.decimal f) => some f
  | _ => none

theorem fault?_eq_some {x : Except Error α} {f : Decimal.Fault} (h : fault? x = some f) :
    x = .error (.decimal f) := by
  unfold fault? at h
  split at h
  · rw [Option.some.inj h]
  · simp at h

/-- Finite prices of an asset that is held are too large for its position to be valued. -/
theorem play_stops_by_overflow :
    let prices := [("2024-01-02", "10"), ("2024-01-03", "9e999999")]
    let rates := [("2024-01-02", "2"), ("2024-01-03", "2")]
    ∃ data p b, MarketTables.ofTables (barTable prices) (some (euroTable rates)) = .ok data ∧
      Portfolio.ofConfig abroadConfig = .ok (p, b) ∧ data.Within Domain.finite ∧
      (∀ q ∈ (start p b).portfolios, q.Within Domain.finite) ∧
      ∃ e, (play ((start p b).events data ⟨none, none, none⟩) (start p b)).2 = .error e ∧
        e.EndsReplay Domain.finite (∃ q ∈ (start p b).portfolios, q.Reckons) ∧
        e = .decimal .overflow := by
  intro prices rates
  have hrun : (do
      let data ← (MarketTables.ofTables (barTable prices) (some (euroTable rates))).toOption
      let (p, b) ← (Portfolio.ofConfig abroadConfig).toOption
      some (decide (data.Within Domain.finite),
        decide (∀ q ∈ (start p b).portfolios, (∀ s ∈ q.strategies.values, s.Within Domain.finite) ∧
          q.brokerage.commission.rate.IsFinite),
        fault? (play ((start p b).events data ⟨none, none, none⟩) (start p b)).2)) =
      some (true, true, some .overflow) := by decide +kernel
  obtain ⟨data, hdata, hrun⟩ := Option.bind_eq_some_iff.mp hrun
  obtain ⟨⟨p, b⟩, hconfig, hrun⟩ := Option.bind_eq_some_iff.mp hrun
  simp only [Option.some.injEq, Prod.mk.injEq, decide_eq_true_eq] at hrun
  obtain ⟨hfinite, hsetup, hfault⟩ := hrun
  have hconfig := Except.eq_ok_of_toOption hconfig
  have hbuilt := Portfolio.isBuilt_of_ofConfig hconfig
  have hwithin : ∀ q ∈ (start p b).portfolios, q.Within Domain.finite := fun q hq =>
    (hbuilt q hq).within (OrderedMap.forall_get?_iff.mpr (hsetup q hq).1) (hsetup q hq).2
  have hstopped := fault?_eq_some hfault
  obtain ⟨-, -, hends⟩ := play_stops_by hbuilt data ⟨none, none, none⟩
  exact ⟨data, p, b, Except.eq_ok_of_toOption hdata, hconfig, hfinite, hwithin, _, hstopped,
    hends hfinite hwithin _ hstopped, rfl⟩

/-- A rate that reads as a NaN is accepted with its table and comes with an event, and the replay stops
with an error that has no class. -/
theorem play_escapes_with_nan :
    let prices := [("2024-01-02", "10")]
    let rates := [("2024-01-02", "nan")]
    ∃ data p b, MarketTables.ofTables (barTable prices) (some (euroTable rates)) = .ok data ∧
      Portfolio.ofConfig abroadConfig = .ok (p, b) ∧
      ∃ e, (play ((start p b).events data ⟨none, none, none⟩) (start p b)).2 = .error e ∧
        e = .decimal .invalidOperation ∧ e.label? = none := by
  intro prices rates
  have hrun : (do
      let data ← (MarketTables.ofTables (barTable prices) (some (euroTable rates))).toOption
      let (p, b) ← (Portfolio.ofConfig abroadConfig).toOption
      fault? (play ((start p b).events data ⟨none, none, none⟩) (start p b)).2) =
      some .invalidOperation := by decide +kernel
  obtain ⟨data, hdata, hrun⟩ := Option.bind_eq_some_iff.mp hrun
  obtain ⟨⟨p, b⟩, hconfig, hfault⟩ := Option.bind_eq_some_iff.mp hrun
  exact ⟨data, p, b, Except.eq_ok_of_toOption hdata, Except.eq_ok_of_toOption hconfig, _,
    fault?_eq_some hfault, rfl, rfl⟩

end Replay
end Backtesting
