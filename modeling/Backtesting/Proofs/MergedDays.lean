import Backtesting.Proofs.Market.Fetch
import Backtesting.Proofs.Replay

/-!
Bars and rates merged by day. The rates still to come are looked at once, from the front, but as both
feeds ascend nothing is passed over that a later day asks for: a merged day has the rates of its own
date, or none where the feed of rates has no such date. So the merged days are the days with bars in
the range, whatever gaps either feed has.
-/
namespace Backtesting

/-- From the start to the finish, both included, and in the calendar, as far as these are given. -/
def ReplayRange.Includes (r : ReplayRange) (d : Date) : Prop :=
  (∀ s, r.start = some s → s ≤ d) ∧ (∀ f, r.finish = some f → d ≤ f) ∧
    ∀ c, r.calendar = some c → d ∈ c

instance (r : ReplayRange) : DecidablePred r.Includes := fun d => by
  unfold ReplayRange.Includes
  infer_instance

namespace ReplayRange

variable {r : ReplayRange} {d e : Date}

theorem admits_iff : r.admits d = true ↔ r.Includes d := by
  have hstart : (!r.start.any (d < ·)) = true ↔ ∀ s, r.start = some s → s ≤ d := by
    cases r.start <;> simp [Date.lt_iff, Date.le_iff]
  have hfinish : (!r.finish.any (· < d)) = true ↔ ∀ f, r.finish = some f → d ≤ f := by
    cases r.finish <;> simp [Date.lt_iff, Date.le_iff]
  have hcalendar : r.calendar.all (·.contains d) = true ↔ ∀ c, r.calendar = some c → d ∈ c := by
    cases r.calendar <;> simp
  unfold admits Date.isWithin Includes
  rw [Bool.and_eq_true, Bool.and_eq_true, hstart, hfinish, hcalendar, and_assoc]

/-- What follows a day beyond the finish is beyond it too. -/
theorem not_includes_of_isOver (hover : r.isOver d = true) (h : ¬ e < d) : ¬ r.Includes e := by
  intro hincludes
  unfold isOver at hover
  cases hfinish : r.finish with
  | none => simp [hfinish] at hover
  | some f =>
    have hlast : e ≤ f := hincludes.2.1 f hfinish
    have hbeyond : f < d := by simpa [hfinish] using hover
    rw [Date.lt_iff] at h hbeyond
    rw [Date.le_iff] at hlast
    omega

end ReplayRange

namespace Feed

variable {α : Type} {f : Feed (Date × α)} {d e : Date}

/-- What is passed over for a day is not of a later one. -/
theorem lookup_since (f : Feed (Date × α)) (h : ¬ e < d) :
    (f.since d).items.lookup e = f.items.lookup e := by
  unfold Feed.since
  induction f.items with
  | nil => rfl
  | cons x l ih =>
    by_cases hx : x.1 < d
    · have hne : (e == x.1) = false := by
        apply beq_false_of_ne
        intro heq
        exact h (heq ▸ hx)
      rw [List.dropWhile_cons_of_pos (by simpa using hx), ih, List.lookup_cons, hne]
    · rw [List.dropWhile_cons_of_neg (by simpa using hx)]

/-- The front of an ascending feed, once it has come to a day, is all that can be of the day. -/
theorem on?_since (h : f.Ascends) (d : Date) : (f.since d).on? d = f.items.lookup d := by
  unfold Ascends at h
  unfold Feed.since Feed.on?
  dsimp only
  generalize f.items = items at h ⊢
  induction items with
  | nil => rfl
  | cons x l ih =>
    obtain ⟨e, a⟩ := x
    obtain ⟨he, hl⟩ := List.pairwise_cons.mp h
    rw [List.lookup_cons]
    by_cases hbefore : e < d
    · have hne : (d == e) = false := by
        apply beq_false_of_ne
        intro heq
        exact Date.lt_irrefl d (heq ▸ hbefore)
      rw [List.dropWhile_cons_of_pos (by simpa using hbefore), hne]
      exact ih hl
    · rw [List.dropWhile_cons_of_neg (by simpa using hbefore), List.head?_cons]
      by_cases heq : e = d
      · simp [heq]
      · have hlater : d < e := (Date.lt_or_eq_of_not_lt hbefore).resolve_right heq
        have hne : (d == e) = false := beq_false_of_ne (Ne.symm heq)
        have hnone : l.lookup d = none := by
          rw [List.lookup_eq_none_iff]
          intro y hy
          apply bne_iff_ne.mpr
          intro hsame
          have hafter : e < y.1 := he y hy
          exact Date.lt_irrefl d (Date.lt_trans hlater (hsame ▸ hafter))
        rw [hne, hnone]
        simp [heq]

end Feed

namespace MarketDay

abbrev DayRates := Date × OrderedMap Currency Decimal

/-- Each day with bars that the range includes, with the rates of that date or without any. -/
def paired (range : ReplayRange) (bars : List (Date × Bars)) (rates : List DayRates) :
    List MarketDay :=
  (bars.filter fun e => range.Includes e.1).map fun e =>
    ⟨e.1, e.2, ofRates ((rates.lookup e.1).getD OrderedMap.empty)⟩

variable {range : ReplayRange} {bars : Feed (Date × Bars)} {fx : Feed DayRates}
  {l : List (Date × Bars)}

theorem paired_since {d : Date} (h : ∀ e ∈ l, d < e.1) :
    paired range l (fx.since d).items = paired range l fx.items := by
  apply List.map_congr_left
  intro e he
  have hlater := h e (List.mem_filter.mp he).1
  have hnot : ¬ e.1 < d := fun hlt => Date.lt_irrefl d (Date.lt_trans hlater hlt)
  rw [Feed.lookup_since fx hnot]

theorem paired_eq_nil (h : ∀ e ∈ l, ¬ range.Includes e.1) (rates : List DayRates) :
    paired range l rates = [] := by
  unfold paired
  rw [List.filter_eq_nil_iff.mpr fun e he => by simpa using h e he, List.map_nil]

/-- Days are merged in order, and to the last one if the merged days do not end with a failure. -/
theorem mergeDays_eq_paired (range : ReplayRange) (failure : Option Error) (hfx : fx.Ascends)
    (hl : l.Pairwise fun a b => a.1 < b.1) :
    (mergeDays range failure fx l).items <+: paired range l fx.items ∧
      ((mergeDays range failure fx l).failure = none →
        (mergeDays range failure fx l).items = paired range l fx.items) := by
  -- on the days with bars; what the rates before a day are passed over for is none of the later ones
  induction l generalizing fx with
  | nil => exact ⟨List.nil_prefix, fun _ => rfl⟩
  | cons e l ih =>
    obtain ⟨d, b⟩ := e
    obtain ⟨hd, hl⟩ := List.pairwise_cons.mp hl
    have hlater := ih (hfx.since d) hl
    rw [paired_since hd] at hlater
    unfold mergeDays
    dsimp only
    split
    · exact ⟨List.nil_prefix, fun hnone => by simp [Feed.failed] at hnone⟩
    split
    · next hover =>
      have hnone : paired range ((d, b) :: l) fx.items = [] := by
        apply paired_eq_nil
        intro e he
        apply ReplayRange.not_includes_of_isOver hover
        rcases List.mem_cons.mp he with rfl | he
        · exact Date.lt_irrefl d
        · exact fun hlt => Date.lt_irrefl d (Date.lt_trans (hd e he) hlt)
      rw [hnone]
      exact ⟨List.nil_prefix, fun _ => rfl⟩
    by_cases hadmits : range.admits d = true
    · have hcons : paired range ((d, b) :: l) fx.items =
          ofDay d b ((fx.since d).on? d) :: paired range l fx.items := by
        rw [Feed.on?_since hfx]
        simp [paired, ofDay, ReplayRange.admits_iff.mp hadmits]
      rw [if_pos hadmits, hcons]
      refine ⟨List.cons_prefix_cons.mpr ⟨rfl, hlater.1⟩, fun hnone => ?_⟩
      exact congrArg (_ :: ·) (hlater.2 hnone)
    · have hskip : paired range ((d, b) :: l) fx.items = paired range l fx.items := by
        simp [paired, mt ReplayRange.admits_iff.mpr hadmits]
      rw [if_neg hadmits, hskip]
      exact hlater

/-- Merged days that do not end with a failure go to the end of the bars or beyond the range. -/
theorem exists_isOver_of_mergeDays {failure : Option Error}
    (h : (mergeDays range failure fx l).failure = none) :
    failure = none ∨ ∃ e ∈ l, range.isOver e.1 = true := by
  induction l generalizing fx with
  | nil => exact Or.inl h
  | cons e l ih =>
    have hlater (h : (mergeDays range failure (fx.since e.1) l).failure = none) :
        failure = none ∨ ∃ e' ∈ e :: l, range.isOver e'.1 = true :=
      (ih h).imp_right fun ⟨e', he', hover⟩ => ⟨e', List.mem_cons_of_mem e he', hover⟩
    unfold mergeDays at h
    dsimp only at h
    split at h
    · simp [Feed.failed] at h
    split at h
    · next hover => exact Or.inr ⟨e, List.mem_cons_self, hover⟩
    split at h
    · exact hlater h
    · exact hlater h

/-- Merging a feed that is blocked from the start gives nothing, and every other one is merged day by
day. -/
theorem merge_paired (range : ReplayRange) (hbars : bars.Ascends) (hfx : fx.Ascends) :
    (merge range bars fx).items <+: paired range bars.items fx.items ∧
      ((merge range bars fx).failure = none →
        (merge range bars fx).items = paired range bars.items fx.items) ∧
      ∀ e, (merge range bars fx).failure = some e → bars.failure = some e ∨ fx.failure = some e := by
  unfold merge
  split
  · next e hblocked =>
    refine ⟨List.nil_prefix, fun hnone => by simp [Feed.failed] at hnone, fun e' he' => Or.inr ?_⟩
    obtain rfl : e = e' := Option.some.inj he'
    unfold Feed.blocked? at hblocked
    split at hblocked
    · exact hblocked
    · simp at hblocked
  · obtain ⟨hinit, hall⟩ := mergeDays_eq_paired range bars.failure hfx hbars
    exact ⟨hinit, hall, fun e he => failure_mergeDays he⟩

/-- Bars and rates that come in the order of their days are merged into the days with bars in the
range, each with the rates of exactly its own date, if there are any. A feed that fails on the way
cuts this list off; it never changes a day. -/
theorem merge_eq_paired (range : ReplayRange) (hbars : bars.Ascends) (hfx : fx.Ascends) :
    (bars.failure = none → fx.failure = none →
      merge range bars fx = Feed.ofList (paired range bars.items fx.items)) ∧
    (merge range bars fx).items <+: paired range bars.items fx.items ∧
    ((merge range bars fx).failure = none →
      (merge range bars fx).items = paired range bars.items fx.items) := by
  obtain ⟨hinit, hall, hfailure⟩ := merge_paired range hbars hfx
  refine ⟨fun hbarsEnd hfxEnd => ?_, hinit, hall⟩
  have hnone : (merge range bars fx).failure = none := by
    cases hend : (merge range bars fx).failure with
    | none => rfl
    | some e =>
      rcases hfailure e hend with h | h
      · simp [hbarsEnd] at h
      · simp [hfxEnd] at h
  rw [Feed.ofList, ← hall hnone, ← hnone]

/-- Bars on the 2nd, 3rd, 5th and 9th and rates on the 1st, 3rd, 4th and 5th: up to the 8th, with the
2nd and the 5th in the calendar, the 2nd has no rates and the 5th those of the 5th. -/
theorem merge_with_gaps :
    let second : Date := ⟨2024, 1, 2, by decide, by decide, by decide⟩
    let third : Date := ⟨2024, 1, 3, by decide, by decide, by decide⟩
    let fifth : Date := ⟨2024, 1, 5, by decide, by decide, by decide⟩
    let ninth : Date := ⟨2024, 1, 9, by decide, by decide, by decide⟩
    let bars : List (Date × Bars) := [second, third, fifth, ninth].map (·, OrderedMap.empty)
    let rates : List DayRates :=
      [(⟨2024, 1, 1, by decide, by decide, by decide⟩, OrderedMap.ofList [(.usd, 1)]),
        (third, OrderedMap.ofList [(.usd, 3)]),
        (⟨2024, 1, 4, by decide, by decide, by decide⟩, OrderedMap.ofList [(.usd, 4)]),
        (fifth, OrderedMap.ofList [(.usd, 5)])]
    let range : ReplayRange := ⟨some second, some ⟨2024, 1, 8, by decide, by decide, by decide⟩,
      some [fifth, second, ninth]⟩
    (Feed.ofList bars).Ascends ∧ (Feed.ofList rates).Ascends ∧
      merge range (Feed.ofList bars) (Feed.ofList rates) =
        Feed.ofList [⟨second, OrderedMap.empty, []⟩,
          ⟨fifth, OrderedMap.empty, [("USD", .known 5)]⟩] := by
  intro second third fifth ninth bars rates range
  have hbars : (Feed.ofList bars).Ascends := by
    unfold Feed.Ascends
    decide
  have hrates : (Feed.ofList rates).Ascends := by
    unfold Feed.Ascends
    decide
  refine ⟨hbars, hrates, ?_⟩
  have hdays : (bars.filter fun e => range.Includes e.1) =
      [(second, OrderedMap.empty), (fifth, OrderedMap.empty)] := by
    decide
  rw [(merge_eq_paired range hbars hrates).1 rfl rfl]
  unfold paired Feed.ofList
  dsimp only
  rw [hdays]
  rfl

end MarketDay

namespace Replay

/-- The events of a replay, up to a row that cannot be read, are the days of the bar table that the
range includes, each with the rates that the table of rates has on that date. -/
theorem events_paired (r : Replay) (data : MarketTables) (range : ReplayRange) :
    (r.events data range).items <+:
        MarketDay.paired range (data.barFeed r.assets).items
          (data.rateFeed (r.currencies.map fun c => .text c.code)).items ∧
      ((r.events data range).failure = none →
        (r.events data range).items =
          MarketDay.paired range (data.barFeed r.assets).items
            (data.rateFeed (r.currencies.map fun c => .text c.code)).items) := by
  obtain ⟨hinit, hall, -⟩ :=
    MarketDay.merge_paired range (data.ascends_barFeed _) (data.ascends_rateFeed _)
  exact ⟨hinit, hall⟩

theorem exists_isOver_of_events {r : Replay} {data : MarketTables} {range : ReplayRange}
    (h : (r.events data range).failure = none) : (data.barFeed r.assets).failure = none ∨
      ∃ e ∈ (data.barFeed r.assets).items, range.isOver e.1 = true := by
  unfold events MarketDay.merge at h
  split at h
  · simp [Feed.failed] at h
  · exact MarketDay.exists_isOver_of_mergeDays h

/-- Events that do not end with a failure are on the days in the range that have a row of an asset that
is asked for. -/
theorem mem_dates_events {r : Replay} {data : MarketTables} {range : ReplayRange} {d : Date}
    (h : (r.events data range).failure = none) :
    d ∈ (r.events data range).items.map MarketDay.date ↔
      range.Includes d ∧ ∃ row ∈ data.bars, row.asset ∈ r.assets ∧ row.date = d := by
  have hreports := MarketTables.reports_barFeed data r.assets
  have hrows : (∃ row ∈ data.barRows r.assets, row.date = d) ↔
      ∃ row ∈ data.bars, row.asset ∈ r.assets ∧ row.date = d := by
    simp [MarketTables.barRows, and_assoc]
  have hpaired : d ∈ (r.events data range).items.map MarketDay.date ↔
      range.Includes d ∧ d ∈ (data.barFeed r.assets).dates := by
    rw [(events_paired r data range).2 h]
    simp [MarketDay.paired, Feed.dates, and_comm]
  rw [hpaired, hreports.mem_dates, hrows]
  refine and_congr_right fun hincludes => and_iff_left fun row hrow hbefore => ?_
  -- an unreadable row ends the bars, and the events only pass over this if the range is over before it
  by_contra hunreadable
  have hfails : (data.barFeed r.assets).failure ≠ none :=
    hreports.fails_iff.mpr ⟨row, hrow, fun v hv => hunreadable ⟨v, hv⟩⟩
  obtain ⟨e, he, hover⟩ := (exists_isOver_of_events h).resolve_left hfails
  have hread := ((hreports.mem_dates e.1).mp (List.mem_map_of_mem he)).2
  have hlater : e.1 < row.date := by
    by_contra hnot
    exact hunreadable (hread row hrow hnot)
  refine ReplayRange.not_includes_of_isOver hover (fun hlt => ?_) hincludes
  exact hbefore (Date.lt_trans hlt hlater)

end Replay
end Backtesting
