import Backtesting.Proofs.Portfolio.Supply

/-!
Days that come too late. The day itself and each of the three dated stores look at the order of the
days, four times in all. What has rates has bars and what is valued has rates, so a day that the
bars admit is admitted by all of them, and nothing else in a day speaks of its order. A day that the
bars do not admit is refused before anything is written, and then the state is what it was.
-/
namespace Backtesting

open Backtesting.Action (bind_error bind_ok failsOnly_bind failsOnly_forEach failsOnly_update)
open Backtesting.Except (FailsOnly)

/-- The errors that do not find fault with the order of days. -/
@[simp] def Error.IsTimely : Error → Prop
  | outOfOrder .. => False
  | _ => True

/-- A result that finds no fault with the order of days. -/
abbrev Timely (r : Except Error α) : Prop := FailsOnly Error.IsTimely r

theorem Error.isTimely_iff (e : Error) : e.IsTimely ↔ e.label? ≠ some "TemporalOrderError" := by
  cases e <;> simp [label?]

theorem Error.IsOther.isTimely {e : Error} (h : e.IsOther) : e.IsTimely := by
  cases e <;> simp_all

theorem Gapless.timely {r : Except Error α} (h : Gapless r) : Timely r :=
  h.imp fun _ => Error.IsOther.isTimely

@[simp] theorem Decimal.timely_lift (r : Except Fault α) : Timely (lift r) :=
  (gapless_lift r).timely

@[simp] theorem MarketHistory.timely_requireBar (h : MarketHistory) (d : Date) (a : Asset) :
    Timely (h.requireBar d a) := by
  unfold requireBar
  split <;> simp

namespace FxHistory

@[simp] theorem timely_rate (h : FxHistory) (d : Date) (c : Currency) : Timely (h.rate d c) := by
  unfold rate
  split
  · simp
  · split
    · simp
    · split <;> simp

@[simp] theorem timely_convert (h : FxHistory) (d : Date) (amount : Decimal)
    (source target : Currency) : Timely (h.convert d amount source target) := by
  simp [convert]

end FxHistory

theorem BalanceSheet.timely_read (capital : BalanceSheet) : Timely capital.read := by
  have hcurrency : ∀ x, Timely (Currency.read x) := by
    intro x
    unfold Currency.read
    split <;> simp
  cases capital with
  | known balances => exact FailsOnly.ok balances
  | written entries =>
    refine FailsOnly.bind (FailsOnly.mapM fun e _ => ?_) fun read _ => FailsOnly.ok _
    refine FailsOnly.bind (hcurrency _) fun c _ => ?_
    exact FailsOnly.bind (Amount.gapless_read e.2).timely fun x _ => FailsOnly.ok _

@[simp] theorem Listings.timely_currencyOf (l : Listings) (a : Asset) : Timely (l.currencyOf a) :=
  (gapless_currencyOf l a).timely

theorem Book.timely_totalValue (b : Book) (l : Listings) (d : Date) (base : Currency)
    (market : MarketHistory) (fx : FxHistory) : Timely (b.totalValue l d base market fx) := by
  refine FailsOnly.bind (FailsOnly.foldlM (fun total e _ => ?_) _) fun total _ =>
    FailsOnly.foldlM (fun total e _ => ?_) _
  · simp [positionValue]
  · simp [balanceValue]

theorem Strategies.timely_totalValue (strategies : Strategies) (d : Date) (base : Currency)
    (market : MarketHistory) (fx : FxHistory) :
    Timely (strategies.totalValue d base market fx) :=
  FailsOnly.foldlM (fun _ s _ => FailsOnly.bind (s.book.timely_totalValue s.assets d base market fx)
    fun _ _ => Decimal.timely_lift _) _

theorem Allocator.timely_allocate (a : Allocator) (strategies : Strategies) (d : Date)
    (base : Currency) (market : MarketHistory) (fx : FxHistory) :
    Timely (a.allocate strategies d base market fx) := by
  cases a with
  | selfFunded =>
    refine FailsOnly.bind (FailsOnly.mapM fun e _ => ?_) fun worth _ => FailsOnly.ok _
    exact FailsOnly.bind (e.2.book.timely_totalValue e.2.assets d base market fx)
      fun v _ => FailsOnly.ok (e.1, v)
  | equalWeight =>
    rw [allocate]
    split
    · exact FailsOnly.ok []
    · exact FailsOnly.bind (strategies.timely_totalValue d base market fx) fun total _ => by simp
  | fixed capital => exact FailsOnly.ok _

namespace Sizer

theorem timely_capital (b : Book) (l : Listings) (d : Date) (market : MarketHistory)
    (fx : FxHistory) : Timely (capital b l d market fx) := by
  unfold capital
  split
  · exact b.timely_totalValue l d fx.base market fx
  · exact FailsOnly.foldlM (fun _ e _ => FailsOnly.bind (fx.timely_convert d e.2 e.1 fx.base)
      fun _ _ => Decimal.timely_lift _) _

theorem timely_size (l : Listings) (d : Date) (capital : Decimal) (weights : Weights)
    (market : MarketHistory) (fx : FxHistory) (a : Asset) (s : Signal) :
    Timely (size l d capital weights market fx a s) := by
  unfold size
  split
  · simp
  · refine FailsOnly.bind (by simp) fun bar _ => FailsOnly.bind (by simp) fun low _ => ?_
    cases low with
    | true => simp
    | false => cases weights.get? a <;> simp

theorem timely_sizesFor (s : Sizer) (b : Book) (l : Listings) (d : Date) (signals : Signals)
    (market : MarketHistory) (fx : FxHistory) : Timely (s.sizesFor b l d signals market fx) := by
  unfold sizesFor
  split
  · simp
  refine FailsOnly.bind (s.gapless_weightsFor d signals market).timely fun weights _ => ?_
  refine FailsOnly.bind (timely_capital b l d market fx) fun capital _ => ?_
  refine FailsOnly.bind (FailsOnly.mapM fun e _ => ?_) fun sizes _ => FailsOnly.ok _
  exact FailsOnly.bind (timely_size l d capital weights market fx e.1 e.2) fun k _ => FailsOnly.ok _

end Sizer

namespace Portfolio

variable {d : Date} {day : MarketDay} {p q : Portfolio}

theorem timely_submitTarget (n : String) (d : Date) (e : Asset × Int) (p : Portfolio) :
    Timely (submitTarget n d e p).2 := by
  refine failsOnly_bind (gapless_strategy p n).timely fun q s _ => ?_
  dsimp only
  split
  · exact FailsOnly.ok ()
  · refine failsOnly_bind (FailsOnly.bind (by simp) fun _ _ => Decimal.timely_lift _) fun _ _ _ => ?_
    exact (gapless_handleOrder _ _).timely

theorem timely_handleSignal (d : Date) (n : String) (signals : Signals) (p : Portfolio) :
    Timely (handleSignal d n signals p).2 := by
  refine failsOnly_bind (gapless_strategy p n).timely fun _ s _ => ?_
  refine failsOnly_bind (FailsOnly.ok ()) fun q _ _ => ?_
  refine failsOnly_bind (s.sizer.timely_sizesFor s.book s.assets d signals q.market q.fx)
    fun _ sizes _ => ?_
  exact failsOnly_forEach (fun e _ => timely_submitTarget n d e) _

theorem timely_runStrategy (d : Date) (n : String) (p : Portfolio) :
    Timely (runStrategy d n p).2 := by
  refine failsOnly_bind (FailsOnly.ok p) fun _ u _ => ?_
  refine failsOnly_bind (Gapless.timely (gapless_onStrategy (fun s => ?_) _)) fun _ signals _ => ?_
  · have hsignals := s.gapless_signals d u.market
    cases hs : s.signals d u.market with
    | error e => exact FailsOnly.error (hsignals e hs)
    | ok found => exact FailsOnly.ok found.2
  · split
    · exact timely_handleSignal d n signals _
    · exact FailsOnly.ok ()

theorem timely_allocateCapital (d : Date) (p : Portfolio) : Timely (allocateCapital d p).2 := by
  refine failsOnly_bind (p.allocator.timely_allocate p.strategies d p.base p.market p.fx)
    fun _ capital _ => failsOnly_forEach (fun e _ q => ?_) _
  refine failsOnly_onStrategy (fun _ => by simp) fun s _ => failsOnly_update ?_
  exact FailsOnly.bind (FailsOnly.bind e.2.timely_read fun _ _ => FailsOnly.ok _)
    fun _ _ => FailsOnly.ok _

theorem timely_recordEquity (h : p.equity.values.later? d = none) :
    Timely (recordEquity d p).2 := by
  refine failsOnly_bind (p.strategies.timely_totalValue d p.base p.market p.fx) fun q v hread => ?_
  obtain ⟨rfl, -⟩ := Action.read_eq_ok.mp hread
  refine failsOnly_bind (failsOnly_update ?_) fun _ _ _ => FailsOnly.ok v
  simp [EquityCurve.record, h, (Amount.gapless_read _).timely]

/-- A portfolio awaits a day where its bars do: they are the last to be overtaken. -/
theorem StoresInOrder.awaits (h : p.StoresInOrder) (hmarket : p.market.bars.later? d = none) :
    p.Awaits d where
  market := hmarket
  fx := Chronicle.later?_eq_none_of_subset h.traded hmarket
  equity := Chronicle.later?_eq_none_of_subset (fun e he => h.traded e (h.rated e he)) hmarket

/-- A day that is awaited never fails for its place among the days. -/
theorem Awaits.timely_handleMarket (hp : p.Awaits day.date) : Timely (handleMarket day p).2 := by
  refine failsOnly_bind (gapless_takeIn hp).timely fun p₁ _ htake => ?_
  obtain ⟨market, fx, hlater, -, -, rfl⟩ := takeIn_eq_ok.mp htake
  refine failsOnly_bind (gapless_applyCorporateActions day _).timely fun p₂ _ hactions => ?_
  have hacted := SameStores.of_applyCorporateActions hactions
  refine failsOnly_bind (timely_allocateCapital day.date p₂) fun p₃ _ hallocate => ?_
  obtain ⟨strategies, rfl, -⟩ := allocateCapital_eq_ok hallocate
  refine failsOnly_bind (FailsOnly.ok _) fun v w hget => ?_
  obtain ⟨rfl, rfl⟩ := Action.get_eq_ok.mp hget
  refine failsOnly_bind (failsOnly_forEach (fun n _ => timely_runStrategy day.date n) _)
    fun p₄ _ hrun => ?_
  have htraded := SameStores.of_runStrategies hrun
  refine failsOnly_bind (timely_recordEquity ?_) fun _ _ _ => FailsOnly.ok ()
  rw [htraded.equity, hacted.equity, hlater]

/-- A day before the last one that was valued is refused at once, and a day before the last one that
has bars when these are to be written. Nothing has been written by then. -/
theorem handleMarket_of_later {last : Date} (h : p.market.bars.later? day.date = some last) :
    ∃ what last', handleMarket day p = (p, .error (.outOfOrder what day.date last')) ∧
      (p.equity.values.later? day.date = some last' ∧ what = "market event" ∨
        p.equity.values.later? day.date = none ∧ last' = last ∧ what = "market data") := by
  cases hvalued : p.equity.values.later? day.date with
  | some last' =>
    have hrefused : takeIn day p = (p, .error (.outOfOrder "market event" day.date last')) :=
      bind_error (by simp [Action.update, hvalued])
    exact ⟨_, last', bind_error hrefused, Or.inl ⟨rfl, rfl⟩⟩
  | none =>
    have hrefused : takeIn day p = (p, .error (.outOfOrder "market data" day.date last)) := by
      refine (bind_ok (t := p) (a := ()) ?_).trans (bind_error ?_)
      · simp [Action.update, hvalued]
      · simp [Action.update, MarketHistory.append, h, bind, Except.bind]
    exact ⟨_, last, bind_error hrefused, Or.inr ⟨rfl, rfl, rfl⟩⟩

variable {name : String} {base : Document} {named : List (String × Strategy)}
  {allocator : Allocator} {commission : Commission} {fxBase : Option Currency}
  {explicit : List (Asset × Document)} {venue : Option MarketHistory} {fresh : Portfolio}

/-- A day is refused for its place among the days if and only if it is earlier than the last day of
the bars. Then the state is what it was: the day itself was refused where the curve has a later one,
and its bars where only they have. -/
theorem late_day_refused
    (hbuild : build name base named allocator commission fxBase explicit venue = .ok fresh)
    {events : List Event} (hp : p = after events fresh) (day : MarketDay) :
    ((∃ e, (handle (.market day) p).2 = .error e ∧ e.label? = some "TemporalOrderError") ↔
        ∃ last, p.market.lastDate? = some last ∧ day.date < last) ∧
      ∀ last, p.market.lastDate? = some last → day.date < last →
        ∃ what last', handle (.market day) p =
            (p, .error (.outOfOrder what day.date last')) ∧
          (p.equity.values.later? day.date = some last' ∧ what = "market event" ∨
            p.equity.values.later? day.date = none ∧ last' = last ∧ what = "market data") := by
  refine ⟨⟨?_, ?_⟩, fun last hlast hlt => ?_⟩
  · rintro ⟨e, he, hlabel⟩
    by_contra hnone
    have hinOrder : p.StoresInOrder :=
      hp ▸ (StoresGrow.after fresh events).inOrder (storesInOrder_of_build hbuild)
    have hawaits : p.Awaits day.date := by
      refine hinOrder.awaits (Option.eq_none_iff_forall_not_mem.mpr fun last hlast => hnone ?_)
      exact ⟨last, Chronicle.later?_eq_some_iff.mp hlast⟩
    exact e.isTimely_iff.mp (hawaits.timely_handleMarket e he) hlabel
  · rintro ⟨last, hlast⟩
    obtain ⟨what, last', hrefused, -⟩ :=
      handleMarket_of_later (Chronicle.later?_eq_some_iff.mpr hlast)
    exact ⟨.outOfOrder what day.date last', congrArg Prod.snd hrefused, rfl⟩
  · exact handleMarket_of_later (Chronicle.later?_eq_some_iff.mpr ⟨hlast, hlt⟩)

/-- A day fails once its bars are in. A day between it and the one before is refused by the bars, and
the first one once more by the curve. -/
theorem late_day_refused_after_failure :
    let first : MarketDay := .flat ⟨2024, 1, 3, by decide, by decide, by decide⟩ ["A", "B"]
    let failing : MarketDay :=
      { MarketDay.flat ⟨2024, 1, 5, by decide, by decide, by decide⟩ ["A", "B"] with
        rates := [("EUR", .known 0)] }
    let between : MarketDay := .flat ⟨2024, 1, 4, by decide, by decide, by decide⟩ ["A", "B"]
    let before : MarketDay := .flat ⟨2024, 1, 2, by decide, by decide, by decide⟩ ["A", "B"]
    let p := after [.market first, .market failing] (holding ["A", "B"])
    p.market.lastDate? = some failing.date ∧ p.equity.lastDate? = some first.date ∧
      handle (.market between) p =
        (p, .error (.outOfOrder "market data" between.date failing.date)) ∧
      handle (.market before) p =
        (p, .error (.outOfOrder "market event" before.date first.date)) := by
  intro first failing between before p
  have hbars : p.market.lastDate? = some failing.date := by decide +kernel
  have hvalued : p.equity.lastDate? = some first.date := by decide +kernel
  have hbefore : p.equity.values.later? before.date = some first.date := by decide +kernel
  have hbetween : p.equity.values.later? between.date = none := by decide +kernel
  have hp : p = after [.market first, .market failing] (holding ["A", "B"]) := rfl
  refine ⟨hbars, hvalued, ?_, ?_⟩
  · obtain ⟨what, last', hrefused, hwhat⟩ :=
      (late_day_refused build_holding hp between).2 failing.date hbars (by decide)
    simp only [hbetween, reduceCtorEq, false_and, true_and, false_or] at hwhat
    obtain ⟨rfl, rfl⟩ := hwhat
    exact hrefused
  · obtain ⟨what, last', hrefused, hwhat⟩ :=
      (late_day_refused build_holding hp before).2 failing.date hbars (by decide)
    simp only [hbefore, reduceCtorEq, false_and, or_false, Option.some.injEq] at hwhat
    obtain ⟨rfl, rfl⟩ := hwhat
    exact hrefused

end Portfolio
end Backtesting
