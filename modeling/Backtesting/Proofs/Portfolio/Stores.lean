import Backtesting.Proofs.Chronicle
import Backtesting.Proofs.Portfolio.Day
import Backtesting.Proofs.Portfolio.Setup

/-!
The three dated stores of a portfolio. A day is written into the bars first, then into the rates and
at last into the equity curve, and an event can fail after each of these writes. So what is valued
has rates and what has rates has bars, at every moment. Each store refuses the days before its own
last one, and nothing else is written to it, except that splits adjust bars: each store goes on
where it was, and the rates and the values of all days but the last are settled.
-/
namespace Backtesting

namespace MarketHistory

theorem append_eq_ok {h g : MarketHistory} {d : Date} {bars : Bars} :
    h.append d bars = .ok g ↔ h.bars.later? d = none ∧ g = ⟨h.bars.put d bars⟩ := by
  unfold append
  split
  · next hlater => simp [hlater]
  · next hnone => simp [hnone, eq_comm]

@[simp] theorem dates_split (h : MarketHistory) (a : Asset) (coefficient : Decimal) :
    (h.split a coefficient).1.dates = h.dates := Chronicle.dates_revise _ _

theorem dates_splitOn (h : MarketHistory) (day : MarketDay) : (h.splitOn day).dates = h.dates := by
  unfold splitOn
  induction day.bars.toList.filter (·.2.hasSplit) generalizing h with
  | nil => rfl
  | cons e l ih => rw [List.foldl_cons, ih, dates_split]

end MarketHistory

namespace Portfolio

open Backtesting.Action (IsPath Keeps bind_eq_ok)

/-- Every store is in the order of the days; what is valued has rates, what has rates has bars. -/
structure StoresInOrder (p : Portfolio) : Prop where
  market : p.market.dates.Pairwise (· < ·)
  fx : p.fx.rates.dates.Pairwise (· < ·)
  equity : p.equity.values.dates.Pairwise (· < ·)
  rated : ∀ d ∈ p.equity.values.dates, d ∈ p.fx.rates.dates
  traded : ∀ d ∈ p.fx.rates.dates, d ∈ p.market.dates

/-- Every store goes on where it was, and they stay in order. -/
structure StoresGrow (p q : Portfolio) : Prop where
  market : p.market.dates <+: q.market.dates
  fx : p.fx.rates.Continues q.fx.rates
  equity : p.equity.values.Continues q.equity.values
  inOrder : p.StoresInOrder → q.StoresInOrder

/-- Nothing is written to the stores; at most bars are adjusted. -/
structure StoresStand (p q : Portfolio) : Prop where
  market : q.market.dates = p.market.dates
  fx : q.fx = p.fx
  equity : q.equity = p.equity

/-- Once a day has rates, its stores grow and it keeps them. -/
def GrowsWith (d : Date) (p q : Portfolio) : Prop :=
  d ∈ p.fx.rates.dates → StoresGrow p q ∧ d ∈ q.fx.rates.dates

variable {d : Date} {p q : Portfolio}

theorem StoresGrow.isPath : IsPath StoresGrow where
  refl _ := ⟨List.prefix_rfl, .refl _, .refl _, id⟩
  trans h h' := ⟨h.market.trans h'.market, h.fx.trans h'.fx, h.equity.trans h'.equity,
    fun hp => h'.inOrder (h.inOrder hp)⟩

theorem GrowsWith.isPath : IsPath (GrowsWith d) where
  refl _ hd := ⟨StoresGrow.isPath.refl _, hd⟩
  trans h h' hd := ⟨StoresGrow.isPath.trans (h hd).1 (h' (h hd).2).1, (h' (h hd).2).2⟩

namespace StoresStand

theorem allowsFunding (n : String) : AllowsFunding n StoresStand where
  path := ⟨fun _ => ⟨rfl, rfl, rfl⟩, fun h h' =>
    ⟨h'.market.trans h.market, h'.fx.trans h.fx, h'.equity.trans h.equity⟩⟩
  strategy _ _ := ⟨rfl, rfl, rfl⟩
  target _ _ := ⟨rfl, rfl, rfl⟩
  fills _ _ _ := ⟨rfl, rfl, rfl⟩
  signalCount _ _ := ⟨rfl, rfl, rfl⟩
  orderCount _ := ⟨rfl, rfl, rfl⟩
  brokerage _ _ _ := ⟨rfl, rfl, rfl⟩
  journal _ _ := ⟨rfl, rfl, rfl⟩

theorem allowsActions : AllowsActions StoresStand where
  trading n := (allowsFunding n).toAllowsTrading
  split p a c := ⟨p.market.dates_split a c, rfl, rfl⟩

theorem grow (h : StoresStand p q) : StoresGrow p q where
  market := h.market ▸ List.prefix_rfl
  fx := h.fx ▸ .refl _
  equity := h.equity ▸ .refl _
  inOrder hp := by
    have hstores := And.intro h.market (And.intro h.fx h.equity)
    exact ⟨h.market ▸ hp.market, h.fx ▸ hp.fx, h.equity ▸ hp.equity,
      by simpa only [hstores] using hp.rated, by simpa only [hstores] using hp.traded⟩

theorem growsWith (h : StoresStand p q) : GrowsWith d p q := fun hd => ⟨h.grow, h.fx ▸ hd⟩

end StoresStand

namespace StoresGrow

/-- Bars are taken in where no later day has any. -/
theorem takeBars {market : MarketHistory} {bars : Bars}
    (h : p.market.append d bars = .ok market) : StoresGrow p { p with market } := by
  obtain ⟨hlater, rfl⟩ := MarketHistory.append_eq_ok.mp h
  have hgrow := (Chronicle.Continues.put hlater bars).dates
  exact ⟨hgrow, .refl _, .refl _, fun hp =>
    { hp with
      market := (p.market.bars.put d bars).ascending
      traded := fun e he => hgrow.subset (hp.traded e he) }⟩

/-- Rates are taken in once the day has bars. -/
theorem takeRates {fx : FxHistory} {rates : List (String × Amount)}
    (h : p.fx.append d rates = .ok fx) (hd : d ∈ p.market.dates) :
    StoresGrow p { p with fx } := by
  obtain ⟨read, -, hlater, rfl⟩ := FxHistory.append_eq_ok h
  have hgrow := Chronicle.Continues.put hlater (OrderedMap.ofList read)
  refine ⟨List.prefix_rfl, hgrow, .refl _, fun hp => { hp with
    fx := (p.fx.rates.put d (OrderedMap.ofList read)).ascending
    rated := fun e he => hgrow.dates.subset (hp.rated e he)
    traded := ?_ }⟩
  intro e he
  rcases Chronicle.eq_or_mem_of_mem_dates_put he with rfl | he
  · exact hd
  · exact hp.traded e he

/-- A day is valued once it has rates. -/
theorem value {equity : EquityCurve} {v : Amount} (h : p.equity.record d v = .ok equity)
    (hd : d ∈ p.fx.rates.dates) : StoresGrow p { p with equity } := by
  unfold EquityCurve.record at h
  split at h
  · simp at h
  next hlater =>
  obtain ⟨worth, -, h⟩ := Except.bind_eq_ok.mp h
  obtain rfl := Except.pure_eq_ok.mp h
  refine ⟨List.prefix_rfl, .refl _, Chronicle.Continues.put hlater worth, fun hp => { hp with
    equity := (p.equity.values.put d worth).ascending
    rated := ?_ }⟩
  intro e he
  rcases Chronicle.eq_or_mem_of_mem_dates_put he with rfl | he
  · exact hd
  · exact hp.rated e he

/-- Rates come after bars: where the bars are refused, no rates are taken in. -/
theorem takeIn (day : MarketDay) : Keeps StoresGrow (Portfolio.takeIn day) := by
  intro p
  refine isPath.bind (Keeps.update isPath (fun p q h => ?_) p) fun {t _} _ => ?_
  · split at h
    · simp at h
    · obtain rfl := Except.ok.inj h
      exact isPath.refl p
  refine isPath.bind (Keeps.update isPath (fun p q h => ?_) t) fun {u _} hbars => ?_
  · obtain ⟨market, hmarket, h⟩ := Except.bind_eq_ok.mp h
    obtain rfl := Except.pure_eq_ok.mp h
    exact takeBars hmarket
  have hday : day.date ∈ u.market.dates := by
    obtain ⟨market, hmarket, h⟩ := Except.bind_eq_ok.mp (Action.update_eq_ok.mp hbars)
    obtain rfl := Except.pure_eq_ok.mp h
    obtain ⟨-, rfl⟩ := MarketHistory.append_eq_ok.mp hmarket
    exact Chronicle.mem_dates_put_self ..
  rcases hfx : u.fx.append day.date day.rates with e | fx
  · have hstep := isPath.refl u
    simpa [Action.update, hfx, bind, Except.bind] using hstep
  · have hstep := takeRates hfx hday
    simpa [Action.update, hfx] using hstep

theorem mem_dates_of_takeIn {day : MarketDay} (h : Portfolio.takeIn day p = (q, .ok ())) :
    day.date ∈ q.fx.rates.dates := by
  obtain ⟨market, fx, -, -, hfx, rfl⟩ := takeIn_eq_ok.mp h
  obtain ⟨read, -, -, rfl⟩ := FxHistory.append_eq_ok hfx
  exact Chronicle.mem_dates_put_self ..

theorem recordEquity (d : Date) : Keeps (GrowsWith d) (Portfolio.recordEquity d) := by
  have hpath : IsPath (GrowsWith d) := GrowsWith.isPath
  refine Keeps.bind hpath (Keeps.read hpath _) fun value => ?_
  refine Keeps.bind hpath (Keeps.update hpath fun p q h hd => ?_) fun _ => ?_
  · obtain ⟨equity, hequity, h⟩ := Except.bind_eq_ok.mp h
    obtain rfl := Except.pure_eq_ok.mp h
    exact ⟨StoresGrow.value hequity hd, hd⟩
  refine Keeps.bind hpath (Keeps.get hpath) fun p => ?_
  refine Keeps.bind hpath (Keeps.modify fun p => ?_) fun _ => Keeps.pure hpath value
  exact StoresStand.growsWith ⟨rfl, rfl, rfl⟩

/-- A day fails before its rates are in, or its stores grow with it. -/
theorem handleMarket (day : MarketDay) : Keeps StoresGrow (Portfolio.handleMarket day) := by
  intro p
  refine isPath.bind (takeIn day p) fun {t _} htaken => ?_
  have hpath : IsPath (GrowsWith day.date) := GrowsWith.isPath
  have hstand := StoresStand.allowsActions
  have hrest : Keeps (GrowsWith day.date) (do
      applyCorporateActions day
      allocateCapital day.date
      let p ← Action.get
      Action.forEach p.strategies.keys (runStrategy day.date)
      let _ ← Portfolio.recordEquity day.date) := by
    refine Keeps.bind hpath
      ((hstand.applyCorporateActions day).imp fun _ _ => StoresStand.growsWith) fun _ => ?_
    refine Keeps.bind hpath
      ((AllowsFunding.allocateCapital StoresStand.allowsFunding day.date).imp
        fun _ _ => StoresStand.growsWith) fun _ => ?_
    refine Keeps.bind hpath (Keeps.get hpath) fun p => ?_
    refine Keeps.bind hpath
      ((AllowsTrading.runStrategies hstand.trading day.date _).imp
        fun _ _ => StoresStand.growsWith) fun _ => ?_
    exact Keeps.bind hpath (recordEquity day.date) fun _ => Keeps.pure hpath ()
  exact (hrest t (mem_dates_of_takeIn htaken)).1

theorem handle (e : Event) : Keeps StoresGrow (Portfolio.handle e) := by
  have hother (h : ∀ day, e ≠ .market day) : Keeps StoresGrow (Portfolio.handle e) :=
    (StoresStand.allowsActions.handle e h).imp fun _ _ => StoresStand.grow
  cases e with
  | market day => exact handleMarket day
  | _ => exact hother nofun

theorem after (p : Portfolio) (events : List Event) : StoresGrow p (Portfolio.after events p) := by
  induction events generalizing p with
  | nil => exact isPath.refl p
  | cons e events ih => exact isPath.trans (handle e p) (ih (Portfolio.handle e p).1)

end StoresGrow

/-- What a day leaves in the three stores. -/
theorem stores_of_handleMarket {day : MarketDay} (h : handleMarket day p = (q, .ok ())) :
    q.base = p.base ∧
      q.market = MarketHistory.splitOn ⟨p.market.bars.put day.date day.bars⟩ day ∧
      p.fx.append day.date day.rates = .ok q.fx ∧
      ∃ v, q.totalValue day.date = .ok v ∧ q.equity.values = p.equity.values.put day.date v := by
  obtain ⟨p₁, p₂, p₃, p₄, v, htake, hactions, hallocate, hrun, hrecord⟩ :=
    handleMarket_eq_ok.mp h
  obtain ⟨market, fx, -, hmarket, hfx, rfl⟩ := takeIn_eq_ok.mp htake
  have hacted := SameStores.of_applyCorporateActions hactions
  obtain ⟨strategies, rfl, -⟩ := allocateCapital_eq_ok hallocate
  have htraded := SameStores.of_runStrategies hrun
  obtain ⟨hvalue, -, rfl⟩ := recordEquity_eq_ok.mp hrecord
  obtain ⟨-, rfl⟩ := MarketHistory.append_eq_ok.mp hmarket
  refine ⟨htraded.base.trans hacted.base, htraded.market.trans hacted.market, ?_, v, hvalue, ?_⟩
  · rw [hfx]
    exact congrArg Except.ok (htraded.fx.trans hacted.fx).symm
  · dsimp only
    rw [htraded.equity.trans hacted.equity]

variable {name : String} {base : Document} {named : List (String × Strategy)}
  {allocator : Allocator} {commission : Commission} {fxBase : Option Currency}
  {explicit : List (Asset × Document)} {venue : Option MarketHistory} {fresh : Portfolio}

theorem storesInOrder_of_build
    (h : build name base named allocator commission fxBase explicit venue = .ok fresh) :
    fresh.StoresInOrder := by
  obtain ⟨-, hfx, hequity, -⟩ := history_of_build h
  have hvalued : fresh.equity.values.dates = [] := by
    rw [hequity]
    rfl
  have hrated : fresh.fx.rates.dates = [] := by
    rw [hfx]
    rfl
  exact ⟨fresh.market.bars.ascending, fresh.fx.rates.ascending, fresh.equity.values.ascending,
    by simp [hvalued], by simp [hrated]⟩

/-- The stores are in order after any events, whatever became of them, and what is in them before
their last days is there for good. -/
theorem stores_of_build
    (hbuild : build name base named allocator commission fxBase explicit venue = .ok fresh)
    {events later : List Event} (hp : p = after events fresh) (hq : q = after later p) :
    p.StoresInOrder ∧ p.market.dates <+: q.market.dates ∧
      p.fx.rates.dates <+: q.fx.rates.dates ∧
      p.equity.values.dates <+: q.equity.values.dates ∧
      (∀ d last, p.fx.rates.lastDate? = some last → d < last →
        q.fx.rates.get? d = p.fx.rates.get? d) ∧
      (∀ d last, p.equity.lastDate? = some last → d < last →
        q.equity.values.get? d = p.equity.values.get? d) ∧
      p.equity.points.dropLast <+: q.equity.points := by
  subst hp hq
  have hfresh := storesInOrder_of_build hbuild
  have hgrow := StoresGrow.after (after events fresh) later
  exact ⟨(StoresGrow.after fresh events).inOrder hfresh, hgrow.market, hgrow.fx.dates,
    hgrow.equity.dates, fun _ _ => hgrow.fx.get?_eq, fun _ _ => hgrow.equity.get?_eq,
    hgrow.equity.settled⟩

/-- A day that fails between its bars and its rates, the same day once more, an earlier day that is
refused, and the day after: no day is lost, and the value of the first one stands. -/
theorem stores_of_build_holding :
    let first : MarketDay := .flat ⟨2024, 1, 2, by decide, by decide, by decide⟩ ["A", "B"]
    let second : MarketDay := .flat ⟨2024, 1, 3, by decide, by decide, by decide⟩ ["A", "B"]
    let third : MarketDay := .flat ⟨2024, 1, 4, by decide, by decide, by decide⟩ ["A", "B"]
    let failing : MarketDay := { second with rates := [("EUR", .known 0)] }
    let p := after [.market first, .market failing, .market second] (holding ["A", "B"])
    let q := after [.market first, .market third] p
    (handleMarket failing (after [.market first] (holding ["A", "B"]))).2.toBool = false ∧
      (handleMarket first p).2.toBool = false ∧ p.StoresInOrder ∧
      q.equity.values.dates = [first.date, second.date, third.date] ∧
      q.equity.values.get? first.date = p.equity.values.get? first.date := by
  intro first second third failing p q
  have hfails : (handleMarket failing (after [.market first] (holding ["A", "B"]))).2.toBool =
      false := by decide +kernel
  have hrefused : (handleMarket first p).2.toBool = false := by decide +kernel
  have hdates : q.equity.values.dates = [first.date, second.date, third.date] := by
    decide +kernel
  have hlast : p.equity.lastDate? = some second.date := by decide +kernel
  have hp : p = after [.market first, .market failing, .market second] (holding ["A", "B"]) := rfl
  have hq : q = after [.market first, .market third] p := rfl
  obtain ⟨hinOrder, -, -, -, -, hsettled, -⟩ := stores_of_build build_holding hp hq
  exact ⟨hfails, hrefused, hinOrder, hdates, hsettled first.date second.date hlast (by decide)⟩

end Portfolio
end Backtesting
