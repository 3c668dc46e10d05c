import Backtesting.Proofs.Market.Tables
import Backtesting.Proofs.Portfolio.Built
import Backtesting.Replay

/-!
Complete data is enough. The events of a replay come in the order of their days, each with a bar of
every row of its day and a rate of every wanted currency that has a row. So where the days that are
replayed have rows for all that the strategies list and use at the start, the portfolios get through
every day, as far as lookups go: what they come to hold is among what was asked for at the start.
-/
namespace Backtesting

open Backtesting.Action (IsPath Keeps Safe bind_eq_ok failsOnly_bind)
open Backtesting.Except (FailsOnly)

namespace MarketDay

variable {range : ReplayRange} {failure : Option Error}
  {fx : Feed (Date × OrderedMap Currency Decimal)} {l : List (Date × Bars)} {day : MarketDay}

theorem exists_rate_ofDay {d : Date} {c : Currency} (hfx : fx.Ascends)
    (hblocked : (fx.since d).blocked? = none) (bars : Bars) (h : fx.Answers d (c ∈ ·.keys)) :
    ∃ x, (c.code, x) ∈ (ofDay d bars ((fx.since d).on? d)).rates := by
  obtain ⟨rates, hrates, hkey⟩ := h.on? hfx hblocked
  obtain ⟨x, hx⟩ := OrderedMap.mem_keys_iff.mp hkey
  refine ⟨.known x, List.mem_map.mpr ⟨(c, x), ?_, rfl⟩⟩
  rw [hrates]
  exact OrderedMap.get?_eq_some_iff.mp hx

/-- A merged day has its bars, and the rates that the feed of rates has for it. -/
theorem eq_ofDay_of_mem_mergeDays (hl : l.Pairwise fun a b => a.1 < b.1)
    (h : day ∈ (mergeDays range failure fx l).items) :
    (day.date, day.bars) ∈ l ∧ (fx.since day.date).blocked? = none ∧
      day = ofDay day.date day.bars ((fx.since day.date).on? day.date) := by
  -- on the days with bars; the rates before a day are gone when the next one is merged
  induction l generalizing fx with
  | nil => exact absurd h List.not_mem_nil
  | cons e l ih =>
    obtain ⟨d, bars⟩ := e
    obtain ⟨hd, hl⟩ := List.pairwise_cons.mp hl
    unfold mergeDays at h
    dsimp only at h
    split at h
    · exact absurd h List.not_mem_nil
    next hblocked =>
    split at h
    · exact absurd h List.not_mem_nil
    have hlater (h : day ∈ (mergeDays range failure (fx.since d) l).items) :
        (day.date, day.bars) ∈ (d, bars) :: l ∧ (fx.since day.date).blocked? = none ∧
          day = ofDay day.date day.bars ((fx.since day.date).on? day.date) := by
      obtain ⟨hmem, hrates⟩ := ih hl h
      rw [Feed.since_since fx (hd (day.date, day.bars) hmem)] at hrates
      exact ⟨List.mem_cons_of_mem _ hmem, hrates⟩
    split at h
    · rcases List.mem_cons.mp h with rfl | h
      · exact ⟨List.mem_cons_self, hblocked, rfl⟩
      · exact hlater h
    · exact hlater h

theorem mem_mergeDays (hfx : fx.Ascends) (hl : l.Pairwise fun a b => a.1 < b.1)
    (h : day ∈ (mergeDays range failure fx l).items) :
    (day.date, day.bars) ∈ l ∧
      ∀ c, fx.Answers day.date (c ∈ ·.keys) → ∃ x, (c.code, x) ∈ day.rates := by
  obtain ⟨hmem, hblocked, hday⟩ := eq_ofDay_of_mem_mergeDays hl h
  refine ⟨hmem, fun c hc => ?_⟩
  rw [hday]
  exact exists_rate_ofDay hfx hblocked day.bars hc

theorem pairwise_mergeDays (hfx : fx.Ascends) (hl : l.Pairwise fun a b => a.1 < b.1) :
    (mergeDays range failure fx l).items.Pairwise fun a b => a.date < b.date := by
  induction l generalizing fx with
  | nil => exact List.Pairwise.nil
  | cons e l ih =>
    obtain ⟨d, bars⟩ := e
    obtain ⟨hd, hl⟩ := List.pairwise_cons.mp hl
    have hlater := ih (hfx.since d) hl
    unfold mergeDays
    dsimp only
    split
    · exact List.Pairwise.nil
    split
    · exact List.Pairwise.nil
    split
    · refine List.pairwise_cons.mpr ⟨fun day hday => ?_, hlater⟩
      exact hd (day.date, day.bars) (mem_mergeDays (hfx.since d) hl hday).1
    · exact hlater

/-- Merged days end early only where one of the feeds does. -/
theorem failure_mergeDays {e : Error} (h : (mergeDays range failure fx l).failure = some e) :
    failure = some e ∨ fx.failure = some e := by
  induction l generalizing fx with
  | nil => exact Or.inl h
  | cons x l ih =>
    obtain ⟨d, bars⟩ := x
    have hlater (h : (mergeDays range failure (fx.since d) l).failure = some e) :
        failure = some e ∨ (fx.since d).failure = some e := ih h
    unfold mergeDays at h
    dsimp only at h
    split at h
    · next e' hblocked =>
      obtain rfl : e' = e := Option.some.inj h
      unfold Feed.blocked? at hblocked
      split at hblocked
      · exact Or.inr hblocked
      · simp at hblocked
    split at h
    · simp [Feed.ofList] at h
    split at h
    · exact hlater h
    · exact hlater h

end MarketDay

namespace MarketTables

/-- A row of a requested asset that can be read as a bar. -/
def HasBarOn (t : MarketTables) (assets : List Asset) (d : Date) : Prop :=
  ∃ row ∈ t.bars, row.asset ∈ assets ∧ row.date = d ∧ ∃ bar, row.bar = .ok bar

/-- On every day with a bar of a requested asset there is a row of every asset that a strategy lists
and of every currency that a strategy uses, other than the base currency of its portfolio. Rows that
cannot be read, and rates that are not positive, are errors of their own. -/
structure IsCompleteFor (t : MarketTables) (r : Replay) : Prop where
  bars : ∀ d, t.HasBarOn r.assets d → ∀ p ∈ r.portfolios, ∀ a, p.Lists a →
    ∃ row ∈ t.bars, row.date = d ∧ row.asset = a
  rates : ∀ d, t.HasBarOn r.assets d → ∀ p ∈ r.portfolios, ∀ c, p.Uses c → c ≠ p.base →
    ∃ row ∈ t.fx.getD [], row.date = d ∧ row.currencyCode = c.code

end MarketTables

namespace Portfolio

variable {p q u : Portfolio} {day : MarketDay}

/-- The day brings a bar of all that `p` lists and a rate of all that it uses. -/
def SuppliedBy (p : Portfolio) (day : MarketDay) : Prop :=
  day.Supplies p.Lists (fun c => c = p.base ∨ p.Uses c) p.base

/-- `q` is what has become of `p` before the day `d`: it needs no more than `p`, and it awaits the
day. -/
structure Became (p : Portfolio) (d : Date) (q : Portfolio) : Prop where
  needs : q.NeedsOnly p.Lists fun c => c = p.base ∨ p.Uses c
  base : q.base = p.base
  awaits : q.Awaits d

theorem Became.supplies (h : p.Became day.date q) (hday : p.SuppliedBy day) :
    day.Supplies p.Lists (fun c => c = p.base ∨ p.Uses c) q.base := by
  rw [h.base]
  exact hday

theorem Became.gapless_handleMarket (h : p.Became day.date q) (hday : p.SuppliedBy day) :
    Gapless (handleMarket day q).2 :=
  Portfolio.gapless_handleMarket h.needs h.awaits (h.supplies hday)

theorem Became.handleMarket (h : p.Became day.date q) (hday : p.SuppliedBy day)
    (hhandle : Portfolio.handleMarket day q = (u, .ok ())) {d : Date} (hd : day.date < d) :
    p.Became d u where
  needs := needsOnly_of_handleMarket h.needs (h.supplies hday) hhandle
  base := (stores_of_handleMarket hhandle).1.trans h.base
  awaits := awaits_of_handleMarket hhandle hd

end Portfolio

namespace Replay

variable {r : Replay} {data : MarketTables} {range : ReplayRange} {p : Portfolio} {day : MarketDay}

theorem mem_assets (hp : p ∈ r.portfolios) (hbuilt : p.IsBuilt) {a : Asset} (ha : p.Lists a) :
    a ∈ r.assets := by
  rw [assets, List.mem_eraseDups]
  exact List.mem_flatMap.mpr ⟨p, hp, hbuilt.mem_assets ha⟩

theorem mem_currencies (hp : p ∈ r.portfolios) (hbuilt : p.IsBuilt) {c : Currency}
    (hc : p.Uses c) (hbase : c ≠ p.base) : c ∈ r.currencies := by
  rw [currencies, List.mem_eraseDups]
  exact List.mem_flatMap.mpr ⟨p, hp, hbuilt.mem_currencies hc hbase⟩

theorem mem_mergeDays_of_mem_events (h : day ∈ (r.events data range).items) :
    day ∈ (MarketDay.mergeDays range (data.barFeed r.assets).failure
      (data.rateFeed (r.currencies.map fun c => .text c.code)) (data.barFeed r.assets).items).items := by
  unfold events MarketDay.merge at h
  split at h
  · exact absurd h List.not_mem_nil
  · exact h

/-- Every event brings what each portfolio needs. -/
theorem supplies_of_mem_events (hcomplete : data.IsCompleteFor r)
    (h : day ∈ (r.events data range).items) (hp : p ∈ r.portfolios) (hbuilt : p.IsBuilt) :
    p.SuppliedBy day := by
  obtain ⟨hbars, hrates⟩ := MarketDay.mem_mergeDays (data.ascends_rateFeed _)
    (data.ascends_barFeed _) (mem_mergeDays_of_mem_events h)
  obtain ⟨hday, hrows⟩ := MarketTables.mem_barFeed hbars
  refine ⟨fun a ha => ?_, fun c hc hbase => ?_⟩
  · obtain ⟨row, hrow, hdate, rfl⟩ := hcomplete.bars day.date hday p hp a ha
    exact hrows row hrow (mem_assets hp hbuilt ha) hdate
  · have huses : p.Uses c := hc.resolve_left hbase
    obtain ⟨row, hrow, hdate, hcode⟩ := hcomplete.rates day.date hday p hp c huses hbase
    have hanswers := MarketTables.answers_rateFeed (mem_currencies hp hbuilt huses hbase) hrow hcode
    rw [hdate] at hanswers
    exact hrates c hanswers

theorem pairwise_events (r : Replay) (data : MarketTables) (range : ReplayRange) :
    (r.events data range).items.Pairwise fun a b => a.date < b.date := by
  unfold events MarketDay.merge
  split
  · exact List.Pairwise.nil
  · exact MarketDay.pairwise_mergeDays (data.ascends_rateFeed _) (data.ascends_barFeed _)

/-- Events end early only where one of the feeds does. -/
theorem failure_of_events {e : Error} (h : (r.events data range).failure = some e) :
    (data.barFeed r.assets).failure = some e ∨
      (data.rateFeed (r.currencies.map fun c => .text c.code)).failure = some e := by
  unfold events MarketDay.merge at h
  split at h
  · next e' hblocked =>
    obtain rfl : e' = e := Option.some.inj h
    unfold Feed.blocked? at hblocked
    split at hblocked
    · exact Or.inr hblocked
    · simp at hblocked
  · exact MarketDay.failure_mergeDays h

theorem failure_events {e : Error} (h : (r.events data range).failure = some e) : e.IsOther := by
  rcases failure_of_events h with hbars | hrates
  · exact data.gapless_barFeed _ hbars
  · exact data.gapless_rateFeed _ hrates

/-- What the portfolios are after a day that both have gone through. -/
theorem playDay_eq_ok {u : Replay} (h : playDay day r = (u, .ok ())) :
    Portfolio.handleMarket day r.portfolio = (u.portfolio, .ok ()) ∧
      ∀ b', u.benchmark = some b' → ∃ b, r.benchmark = some b ∧
        Portfolio.handleMarket day b = (b', .ok ()) := by
  obtain ⟨v, _, hportfolio, h⟩ := bind_eq_ok.mp h
  obtain ⟨w, _, hbenchmark, h⟩ := bind_eq_ok.mp h
  obtain rfl := Action.modify_eq_ok.mp h
  rcases hp : Portfolio.handle (.market day) r.portfolio with ⟨q, outcome⟩
  simp only [onPortfolio, hp, Prod.mk.injEq] at hportfolio
  obtain ⟨rfl, rfl⟩ := hportfolio
  unfold onBenchmark at hbenchmark
  cases hb : r.benchmark with
  | none =>
    simp only [hb, Prod.mk.injEq] at hbenchmark
    obtain ⟨rfl, -⟩ := hbenchmark
    exact ⟨hp, fun b' hb' => by simp at hb'⟩
  | some b =>
    rcases hq : Portfolio.handle (.market day) b with ⟨b', outcome⟩
    simp only [hb, hq, Prod.mk.injEq] at hbenchmark
    obtain ⟨rfl, rfl⟩ := hbenchmark
    refine ⟨hp, fun c hc => ⟨b, rfl, ?_⟩⟩
    obtain rfl : b' = c := Option.some.inj hc
    exact hq

/-- What the portfolios are after some days that both have gone through. -/
theorem playDays_eq_ok {days : List MarketDay} {u : Replay}
    (h : Action.forEach days playDay r = (u, .ok ())) :
    Action.forEach days Portfolio.handleMarket r.portfolio = (u.portfolio, .ok ()) ∧
      ∀ b', u.benchmark = some b' → ∃ b, r.benchmark = some b ∧
        Action.forEach days Portfolio.handleMarket b = (b', .ok ()) := by
  induction days generalizing r with
  | nil =>
    obtain rfl := Action.forEach_nil_eq_ok.mp h
    exact ⟨rfl, fun b' hb' => ⟨b', hb', rfl⟩⟩
  | cons day days ih =>
    obtain ⟨v, hv, hrest⟩ := Action.forEach_cons_eq_ok.mp h
    obtain ⟨hfirst, hfirst'⟩ := playDay_eq_ok hv
    obtain ⟨hlater, hlater'⟩ := ih hrest
    refine ⟨Action.forEach_cons_eq_ok.mpr ⟨v.portfolio, hfirst, hlater⟩, fun b' hb' => ?_⟩
    obtain ⟨c, hc, hrun⟩ := hlater' b' hb'
    obtain ⟨b, hb, hday⟩ := hfirst' c hc
    exact ⟨b, hb, Action.forEach_cons_eq_ok.mpr ⟨c, hday, hrun⟩⟩

/-- What has become of the portfolios of `r` before the day `d`. -/
structure Became (r : Replay) (d : Date) (u : Replay) : Prop where
  portfolio : r.portfolio.Became d u.portfolio
  benchmark : ∀ b', u.benchmark = some b' → ∃ b, r.benchmark = some b ∧ b.Became d b'

variable {u v : Replay}

theorem gapless_playDay (h : r.Became day.date u)
    (hday : ∀ p ∈ r.portfolios, p.SuppliedBy day) :
    Gapless (playDay day u).2 := by
  refine failsOnly_bind (h.portfolio.gapless_handleMarket (hday _ List.mem_cons_self)) fun v _ hv => ?_
  refine failsOnly_bind ?_ fun _ _ _ => FailsOnly.ok ()
  unfold onBenchmark
  cases hb' : v.benchmark with
  | none => exact FailsOnly.ok ()
  | some b' =>
    have hkept : u.benchmark = some b' := by
      obtain rfl := (congrArg Prod.fst hv).symm
      exact hb'
    obtain ⟨b, hb, hbecame⟩ := h.benchmark b' hkept
    exact hbecame.gapless_handleMarket (hday b (by simp [portfolios, hb]))

theorem Became.playDay (h : r.Became day.date u)
    (hday : ∀ p ∈ r.portfolios, p.SuppliedBy day)
    (hplay : Replay.playDay day u = (v, .ok ())) {d : Date} (hd : day.date < d) : r.Became d v := by
  obtain ⟨hportfolio, hbenchmark⟩ := playDay_eq_ok hplay
  refine ⟨h.portfolio.handleMarket (hday _ List.mem_cons_self) hportfolio hd, fun c' hc' => ?_⟩
  obtain ⟨b', hb', hhandle⟩ := hbenchmark c' hc'
  obtain ⟨b, hb, hbecame⟩ := h.benchmark b' hb'
  exact ⟨b, hb, hbecame.handleMarket (hday b (by simp [portfolios, hb])) hhandle hd⟩

/-- Days in order that bring what is needed are gone through without a gap. -/
theorem gapless_playDays {days : List MarketDay} (hdays : days.Pairwise fun a b => a.date < b.date)
    (hsupplies : ∀ day ∈ days, ∀ p ∈ r.portfolios, p.SuppliedBy day)
    (h : ∀ day ∈ days, r.Became day.date u) : Gapless (Action.forEach days playDay u).2 := by
  -- a day may fail for other reasons, and then no day comes after it
  induction days generalizing u with
  | nil => exact FailsOnly.ok ()
  | cons day days ih =>
    obtain ⟨hafter, hrest⟩ := List.pairwise_cons.mp hdays
    have hday := hsupplies day List.mem_cons_self
    have hbecame := h day List.mem_cons_self
    refine failsOnly_bind (gapless_playDay hbecame hday) fun v _ hplay => ?_
    refine ih hrest (fun d hd => hsupplies d (List.mem_cons_of_mem _ hd)) fun d hd => ?_
    exact hbecame.playDay hday hplay (hafter d hd)

/-- Both portfolios go through a day as one does. -/
theorem safe_playDay {E : Error → Prop} {P : Portfolio → Prop}
    (h : Safe E P (Portfolio.handle (.market day))) :
    Safe E (fun r => ∀ p ∈ r.portfolios, P p) (playDay day) := by
  refine Safe.bind (fun r hr => ?_) fun _ => Safe.bind (fun r hr => ?_) fun _ =>
    Safe.modify fun _ => id
  · obtain ⟨hp, hfails⟩ := h r.portfolio (hr _ List.mem_cons_self)
    refine ⟨fun p hmem => ?_, hfails⟩
    rcases List.mem_cons.mp hmem with rfl | hmem
    · exact hp
    · exact hr p (List.mem_cons_of_mem _ hmem)
  · unfold onBenchmark
    cases hb : r.benchmark with
    | none => exact ⟨hr, FailsOnly.ok ()⟩
    | some b =>
      obtain ⟨hp, hfails⟩ := h b (hr b (by simp [portfolios, hb]))
      refine ⟨fun p hmem => ?_, hfails⟩
      rcases List.mem_cons.mp hmem with rfl | hmem
      · exact hr _ List.mem_cons_self
      · obtain rfl : p = (Portfolio.handle (.market day) b).1 := by simpa using hmem
        exact hp

/-- A portfolio that goes through events keeps what all events keep. -/
theorem keeps_playDay {P : Portfolio → Prop} (h : ∀ e p, P p → P (Portfolio.handle e p).1)
    (day : MarketDay) :
    Keeps (fun r u => (∀ p ∈ r.portfolios, P p) → ∀ p ∈ u.portfolios, P p) (playDay day) := by
  have hsafe : Safe (fun _ => True) P (Portfolio.handle (.market day)) :=
    fun p hp => ⟨h _ p hp, FailsOnly.any _⟩
  exact fun r hr => (safe_playDay hsafe r hr).1

/-- The assets and currencies requested at the start are all that a portfolio lists and holds. -/
def Covers (r : Replay) (p : Portfolio) : Prop :=
  ∀ n s, p.strategies.get? n = some s →
    s.NeedsOnly (· ∈ r.assets) fun c => c = p.base ∨ c ∈ r.currencies

theorem covers_handle (e : Event) (h : r.Covers p) : r.Covers (Portfolio.handle e p).1 := by
  have hbase : (Portfolio.handle e p).1.base = p.base :=
    (Portfolio.config_of_setup_eq (Portfolio.allowsEvents_setup.handle e p)).2.1
  have hkept := Portfolio.allowsEvents_all
    (P := fun s => s.NeedsOnly (· ∈ r.assets) fun c => c = p.base ∨ c ∈ r.currencies)
    (fun he hs => hs.of_evolves he) (fun s target hs => { hs with })
  unfold Covers
  rw [hbase]
  exact hkept.handle e p h

theorem covers_of_isBuilt (hp : p ∈ r.portfolios) (hbuilt : p.IsBuilt) : r.Covers p := by
  intro n s hs
  have hneeds := (hbuilt.needsOnly.strategies n s hs).1
  have hcurrency : ∀ c, c = p.base ∨ p.Uses c → c = p.base ∨ c ∈ r.currencies := by
    intro c hc
    by_cases hbase : c = p.base
    · exact Or.inl hbase
    · exact Or.inr (mem_currencies hp hbuilt (hc.resolve_left hbase) hbase)
  exact {
    assets := fun a ha => mem_assets hp hbuilt (hneeds.assets a ha)
    listings := fun c hc => hcurrency c (hneeds.listings c hc)
    positions := hneeds.positions
    cash := fun c hc => hcurrency c (hneeds.cash c hc) }

theorem became_of_isBuilt (hbuilt : ∀ q ∈ r.portfolios, q.IsBuilt) (d : Date) : r.Became d r := by
  have hfresh : ∀ q ∈ r.portfolios, q.Became d q := fun q hq =>
    ⟨(hbuilt q hq).needsOnly, rfl, (hbuilt q hq).awaits d⟩
  refine ⟨hfresh _ List.mem_cons_self, fun b hb => ⟨b, hb, hfresh b ?_⟩⟩
  simp [portfolios, hb]

theorem gapless_play (hbuilt : ∀ q ∈ r.portfolios, q.IsBuilt) (hcomplete : data.IsCompleteFor r)
    (range : ReplayRange) : Gapless (play (r.events data range) r).2 := by
  have hdays := gapless_playDays (u := r) (pairwise_events r data range)
    (fun day hday p hp => supplies_of_mem_events hcomplete hday hp (hbuilt p hp))
    fun day _ => became_of_isBuilt hbuilt day.date
  refine failsOnly_bind hdays fun u _ _ => ?_
  cases hfailure : (r.events data range).failure with
  | none => exact FailsOnly.ok ()
  | some e => exact FailsOnly.error (failure_events hfailure)

/-- With complete data no bar, no rate and no order of days is found missing in a run, whatever its
range and calendar; after any days, what is listed and held was requested at the start. -/
theorem run_finds_all {p : Portfolio} {benchmark : Option Portfolio}
    (hbuilt : ∀ q ∈ (start p benchmark).portfolios, q.IsBuilt)
    (hcomplete : data.IsCompleteFor (start p benchmark)) (first last : Document)
    (calendar : Option (List Date)) :
    (∀ e, (run data first last calendar (start p benchmark)).2 = .error e → ¬ e.IsGap) ∧
      ∀ days, ∀ q ∈ (Action.forEach days playDay (start p benchmark)).1.portfolios,
        (start p benchmark).Covers q := by
  constructor
  · have hrange : Gapless (readRange first last calendar) := by
      simp [readRange]
    refine failsOnly_bind hrange fun r range hread => ?_
    obtain ⟨rfl, -⟩ := Action.ofExcept_eq_ok.mp hread
    refine failsOnly_bind (FailsOnly.ok _) fun r feed hfeed => ?_
    obtain ⟨rfl, hevents⟩ := Action.read_eq_ok.mp hfeed
    obtain rfl := Except.ok.inj hevents
    refine failsOnly_bind (gapless_play hbuilt hcomplete range) fun u _ _ => ?_
    exact Tearsheet.gapless_ofCurves _ _
  · intro days
    exact Keeps.forEach (IsPath.implies _) (fun day => keeps_playDay (fun e p h => covers_handle e h) day)
      days (start p benchmark) (fun q hq => covers_of_isBuilt hq (hbuilt q hq))

/-- A strategy with dollars for one asset that is listed in euros. -/
def abroad (name type : String) : StrategyConfig where
  name := name
  type := type
  assets := OrderedMap.ofList [("A", .eur)]
  cash := OrderedMap.ofList [(.usd, 1000)]
  sizer := ⟨"fixed_weight", [("weights", .object [("A", .integer 1)])]⟩
  pricing := .ofType "close_price"
  parameters := []

def abroadConfig : BacktestConfig where
  name := "abroad"
  base := .usd
  start := none
  finish := none
  marketDataPath := ""
  fxRatesPath := none
  calendar := none
  outputDir := ""
  commission := 0
  allocator := .ofType "equal_weight"
  strategies := [abroad "S" "buy_and_hold"]
  benchmark := some (abroad "B" "rebalancing_buy_and_hold")

/-- A row of either table: the asset stays at ten euros, the euro at two dollars. -/
def abroadRow (d : Date) : DatedRow :=
  ⟨d, [("asset", .text "A"), ("open", .integer 10), ("high", .integer 10), ("low", .integer 10),
    ("close", .integer 10), ("currency", .text "EUR"), ("rate", .integer 2)]⟩

/-- A row on each of some days is all that the configured portfolios need. -/
theorem isCompleteFor_abroad {p : Portfolio} {b : Option Portfolio} (days : List Date)
    (h : Portfolio.ofConfig abroadConfig = .ok (p, b)) :
    MarketTables.IsCompleteFor ⟨days.map abroadRow, some (days.map abroadRow)⟩ (start p b) := by
  have hneeds : (Portfolio.ofConfig abroadConfig).toOption.all fun (p, b) =>
      (start p b).portfolios.all fun q => q.strategies.values.all fun s =>
        s.assets.toList = [("A", .eur)] && s.book.cash.keys = [.usd] && q.base = .usd := by
    decide +kernel
  simp only [h, Except.toOption, Option.all_some, List.all_eq_true, Bool.and_eq_true,
    decide_eq_true_eq] at hneeds
  have hrow {d : Date} (hd : MarketTables.HasBarOn ⟨days.map abroadRow, some (days.map abroadRow)⟩
      (start p b).assets d) : abroadRow d ∈ days.map abroadRow := by
    obtain ⟨row, hrow, -, rfl, -⟩ := hd
    obtain ⟨d, hd, rfl⟩ := List.mem_map.mp hrow
    exact hrow
  refine ⟨fun d hd q hq a ha => ⟨abroadRow d, hrow hd, rfl, ?_⟩,
    fun d hd q hq c hc hbase => ⟨abroadRow d, hrow hd, rfl, ?_⟩⟩
  · obtain ⟨n, s, hs, ha⟩ := ha
    obtain ⟨⟨hassets, -⟩, -⟩ := hneeds q hq s (OrderedMap.mem_values_of_get? hs)
    obtain rfl : a = "A" := by simpa [OrderedMap.keys, hassets] using ha
    rfl
  · obtain ⟨n, s, hs, hc⟩ := hc
    obtain ⟨⟨hassets, hcash⟩, husd⟩ := hneeds q hq s (OrderedMap.mem_values_of_get? hs)
    have heuro : Text.upper (Text.trim "EUR") = "EUR" := by decide +kernel
    obtain rfl | rfl : c = .eur ∨ c = .usd := by simpa [OrderedMap.values, hassets, hcash] using hc
    · exact heuro
    · exact absurd husd.symm hbase

/-- The euro is asked for though the base is the dollar and no strategy starts with euros; both
portfolios buy and hold the asset over two days. -/
theorem run_finds_all_abroad :
    let days : List Date := [⟨2024, 1, 2, by decide, by decide, by decide⟩,
      ⟨2024, 1, 3, by decide, by decide, by decide⟩]
    let data : MarketTables := ⟨days.map abroadRow, some (days.map abroadRow)⟩
    ∃ p b, Portfolio.ofConfig abroadConfig = .ok (p, b) ∧
      (start p b).currencies = [.eur] ∧
      (∀ e, (run data .null .null none (start p b)).2 = .error e → ¬ e.IsGap) ∧
      (run data .null .null none (start p b)).1.days = 2 ∧
      (run data .null .null none (start p b)).1.portfolios.map (·.fills.length) = [1, 1] := by
  intro days data
  have hrun : ((Portfolio.ofConfig abroadConfig).toOption.map fun (p, b) =>
      ((start p b).currencies, (run data .null .null none (start p b)).1.days,
        (run data .null .null none (start p b)).1.portfolios.map (·.fills.length))) =
      some ([.eur], 2, [1, 1]) := by decide +kernel
  rcases hconfig : Portfolio.ofConfig abroadConfig with e | ⟨p, b⟩
  · simp [hconfig, Except.toOption] at hrun
  simp only [hconfig, Except.toOption, Option.map_some, Option.some.injEq, Prod.mk.injEq] at hrun
  obtain ⟨hfinds, -⟩ := run_finds_all (Portfolio.isBuilt_of_ofConfig hconfig)
    (isCompleteFor_abroad days hconfig) .null .null none
  exact ⟨p, b, rfl, hrun.1, hfinds, hrun.2.1, hrun.2.2⟩

end Replay
end Backtesting
