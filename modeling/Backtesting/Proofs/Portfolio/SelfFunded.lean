import Backtesting.Proofs.Portfolio.Alone
import Backtesting.Proofs.Portfolio.Setup

/-!
Runs of a portfolio whose strategies fund themselves. Day by day every strategy comes to what it
comes to alone; the equity of a day is the sum of the single equities in the order of the strategies.
-/
namespace Backtesting.Portfolio

open Backtesting.Action (bind_eq_ok)

variable {d : Date} {n : String} {p q : Portfolio} {one two : String → Portfolio}

/-- A single portfolio records what its strategy is worth. -/
theorem Alone.recordEquity {r : Portfolio} (h : Alone n p r) {s : Strategy}
    (hs : p.strategies.get? n = some s) {x : Decimal}
    (hx : s.totalValue d p.base p.market p.fx = .ok x)
    (hlater : p.equity.values.later? d = none) :
    ∃ u journal, Decimal.SameNumber u x ∧
      Portfolio.recordEquity d r =
        ({ r with equity := ⟨r.equity.values.put d u⟩, journal }, .ok u) := by
  obtain ⟨u, hu, hsame⟩ := Decimal.zero_add_of_isResult (Book.isResult_totalValue hx)
  refine ⟨u, _, hsame, recordEquity_eq_ok.mpr ⟨?_, ?_, rfl⟩⟩
  · obtain ⟨s', hs', hlist⟩ := h.toList
    obtain rfl : s = s' := Option.some.inj (hs.symm.trans hs')
    rw [h.base, h.market, h.fx] at hx
    refine Strategies.totalValue_eq_ok.mpr ⟨[x], ?_, ?_⟩
    · rw [hlist]
      exact .cons hx .nil
    · exact Except.foldlM_cons_eq_ok.mpr ⟨u, hu, rfl⟩
  · rw [← Chronicle.later?_eq_of_dates_eq h.dates]
    exact hlater

/-- The equity of every day is the sum of the single equities of that day. -/
def SumsUp (p : Portfolio) (one : String → Portfolio) : Prop :=
  ∀ d v, p.equity.values.get? d = some v →
    ∃ us w, List.Forall₂ (fun n u => (one n).equity.values.get? d = some u) p.strategies.keys us ∧
      Decimal.sum us = .ok w ∧ Decimal.SameNumber w v

/-- The day is recorded everywhere, and the sum of what is recorded goes on to hold. -/
theorem Together.recordEquity {v : Decimal} (h : Together p one) (hsums : SumsUp p one)
    (hq : Portfolio.recordEquity d p = (q, .ok v)) :
    ∃ two, Together q two ∧ SumsUp q two ∧ q.strategies.keys = p.strategies.keys ∧
      ∀ n ∈ p.strategies.keys, ∃ u, Portfolio.recordEquity d (one n) = (two n, .ok u) := by
  obtain ⟨hvalue, hlater, rfl⟩ := recordEquity_eq_ok.mp hq
  obtain ⟨xs, hxs, hsum⟩ := Strategies.totalValue_eq_ok.mp hvalue
  have hone : ∀ n ∈ p.strategies.keys, ∃ u journal,
      (∀ s x, p.strategies.get? n = some s →
        s.totalValue d p.base p.market p.fx = .ok x → Decimal.SameNumber u x) ∧
      Portfolio.recordEquity d (one n) =
        ({ one n with equity := ⟨(one n).equity.values.put d u⟩, journal }, .ok u) := by
    intro n hn
    obtain ⟨s, hs⟩ := OrderedMap.mem_keys_iff.mp hn
    obtain ⟨x, hx⟩ := Strategies.exists_totalValue hvalue hs
    obtain ⟨u, journal, hsame, hrecord⟩ := (h.alone n hn).recordEquity hs hx hlater
    refine ⟨u, journal, fun t y ht hy => ?_, hrecord⟩
    obtain rfl : s = t := Option.some.inj (hs.symm.trans ht)
    rw [← Except.ok.inj (hx.symm.trans hy)]
    exact hsame
  choose! u journal hsame hrecord using hone
  refine ⟨fun n => { one n with equity := ⟨(one n).equity.values.put d (u n)⟩, journal := journal n },
    ⟨h.selfFunded, fun n hn => ?_, h.signals, h.orders⟩, ?_, rfl, fun n hn => ⟨u n, hrecord n hn⟩⟩
  · have hdates := (h.alone n hn).dates
    refine { h.alone n hn with dates := ?_ }
    rw [Chronicle.dates_put, Chronicle.dates_put, hdates]
  · intro e w hw
    rcases Chronicle.eq_or_of_get?_put hw with ⟨rfl, rfl⟩ | ⟨hlt, hold⟩
    · -- the recorded day: single values are the ones that were summed up, in the same order
      have hnumbers : List.Forall₂ Decimal.SameNumber (p.strategies.keys.map u) xs := by
        rw [OrderedMap.keys, List.map_map, List.forall₂_map_left_iff]
        have hmem := (List.forall₂_and_left _ _).mpr ⟨fun _ he => he, hxs⟩
        refine hmem.imp fun e x hex => ?_
        have he : p.strategies.get? e.1 = some e.2 := OrderedMap.get?_eq_some_iff.mpr hex.1
        exact hsame e.1 (OrderedMap.mem_keys_of_get? he) e.2 x he hex.2
      obtain ⟨w', hw', hsame'⟩ :=
        (Decimal.agree_symm (Decimal.agree_foldlM_add hnumbers (.refl Decimal.zero))).exists_ok hsum
      refine ⟨p.strategies.keys.map u, w', ?_, hw', hsame'.symm⟩
      rw [List.forall₂_map_right_iff, List.forall₂_same]
      exact fun n _ => Chronicle.get?_put_self _ _ _
    · obtain ⟨us, w', hus, hw', hsame'⟩ := hsums e w hold
      refine ⟨us, w', hus.imp fun n x hx => ?_, hw', hsame'⟩
      rw [Chronicle.get?_put_of_lt _ _ hlt]
      exact hx

theorem SumsUp.of_stays (h : SumsUp p one) (hstays : Stays p one q two) : SumsUp q two := by
  intro d v hv
  rw [hstays.equity] at hv
  obtain ⟨us, w, hus, hw, hsame⟩ := h d v hv
  refine ⟨us, w, ?_, hw, hsame⟩
  rw [hstays.keys]
  have hmem := (List.forall₂_and_left _ _).mpr ⟨fun _ hn => hn, hus⟩
  refine hmem.imp fun n u hnu => ?_
  rw [hstays.equities n hnu.1]
  exact hnu.2

/-- All portfolios go through a day together. -/
theorem Together.handleMarket {day : MarketDay} (h : Together p one) (hsums : SumsUp p one)
    (hq : Portfolio.handleMarket day p = (q, .ok ())) :
    ∃ two, Together q two ∧ SumsUp q two ∧ q.strategies.keys = p.strategies.keys ∧
      ∀ n ∈ p.strategies.keys, Portfolio.handleMarket day (one n) = (two n, .ok ()) := by
  obtain ⟨p₁, p₂, p₃, p₄, v, htake, hactions, hallocate, hrun, hrecord⟩ := handleMarket_eq_ok.mp hq
  obtain ⟨one₁, h₁, hstays₁, htaken⟩ := Parallel.takeIn day h htake
  obtain ⟨one₂, h₂, hstays₂, hacted⟩ := Parallel.applyCorporateActions day h₁ hactions
  obtain ⟨one₃, h₃, hstays₃, hallocated⟩ := Parallel.allocateCapital day.date h₂ hallocate
  obtain ⟨one₄, h₄, hstays₄, hran⟩ :=
    Parallel.runStrategies day.date h₃ (bind_eq_ok.mpr ⟨p₃, p₃, rfl, hrun⟩)
  have hstays := ((hstays₁.trans hstays₂).trans hstays₃).trans hstays₄
  obtain ⟨two, htwo, hsums', hkeys, hrecorded⟩ := h₄.recordEquity (hsums.of_stays hstays) hrecord
  refine ⟨two, htwo, hsums', hkeys.trans hstays.keys, fun n hn => ?_⟩
  have hn₁ : n ∈ p₁.strategies.keys := hstays₁.keys ▸ hn
  have hn₂ : n ∈ p₂.strategies.keys := hstays₂.keys ▸ hn₁
  have hn₃ : n ∈ p₃.strategies.keys := hstays₃.keys ▸ hn₂
  obtain ⟨r, r', hget, hown⟩ := bind_eq_ok.mp (hran n hn₃)
  obtain ⟨rfl, rfl⟩ := Action.get_eq_ok.mp hget
  obtain ⟨u, hu⟩ := hrecorded n (hstays₄.keys ▸ hn₃)
  exact handleMarket_eq_ok.mpr ⟨one₁ n, one₂ n, one₃ n, one₄ n, u, htaken n hn, hacted n hn₁,
    hallocated n hn₂, hown, hu⟩

theorem Together.run {days : List MarketDay} (h : Together p one) (hsums : SumsUp p one)
    (hq : Action.forEach days Portfolio.handleMarket p = (q, .ok ())) :
    ∃ two, Together q two ∧ SumsUp q two ∧ q.strategies.keys = p.strategies.keys ∧
      ∀ n ∈ p.strategies.keys,
        Action.forEach days Portfolio.handleMarket (one n) = (two n, .ok ()) := by
  induction days generalizing p one with
  | nil =>
    obtain rfl := Action.forEach_nil_eq_ok.mp hq
    exact ⟨one, h, hsums, rfl, fun n _ => rfl⟩
  | cons day days ih =>
    obtain ⟨u, hu, hrest⟩ := Action.forEach_cons_eq_ok.mp hq
    obtain ⟨two, htwo, hsums', hkeys, hfirst⟩ := h.handleMarket hsums hu
    obtain ⟨three, hthree, hsums'', hkeys', hlater⟩ := ih htwo hsums' hrest
    refine ⟨three, hthree, hsums'', hkeys'.trans hkeys, fun n hn => ?_⟩
    exact Action.forEach_cons_eq_ok.mpr ⟨two n, hfirst n hn, hlater n (hkeys ▸ hn)⟩

section Build

variable {name : String} {base : Document} {named : List (String × Strategy)}
  {allocator : Allocator} {commission : Commission} {fxBase : Option Currency}
  {explicit : List (Asset × Document)} {venue : Option MarketHistory} {fresh : Portfolio}

end Build

end Backtesting.Portfolio
