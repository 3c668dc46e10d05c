import Backtesting.Proofs.Chronicle
import Backtesting.Proofs.Portfolio.Audit
import Backtesting.Proofs.Portfolio.Stores
import Backtesting.Proofs.Strategy.Worth

/-!
A market event that is delivered once more. The three stores take the day again in place of what they
have of it, but its dividends and its splits are applied to books that have already seen them. So a
second delivery on which nothing is signaled takes every book through the corporate actions of the
day once more, splits all bars once more, and changes nothing only where there is nothing to apply.
-/
namespace Backtesting

/-- Strategies that hold the same are worth the same. -/
theorem Strategies.totalValue_congr {m m' : Strategies} {d : Date} {base : Currency}
    {market : MarketHistory} {fx : FxHistory} (hkeys : m'.keys = m.keys)
    (h : ∀ n s, m.get? n = some s → ∃ t, m'.get? n = some t ∧ t.assets = s.assets ∧
      s.book.SameHoldings t.book) :
    m'.totalValue d base market fx = m.totalValue d base market fx := by
  have hworth : m.values.map (·.totalValue d base market fx) =
      m'.values.map (·.totalValue d base market fx) := by
    apply OrderedMap.map_values_congr hkeys.symm
    intro n s hs
    obtain ⟨t, ht, hassets, hsame⟩ := h n s hs
    refine ⟨t, ht, ?_⟩
    rw [Strategy.totalValue, Strategy.totalValue, hassets, hsame.totalValue_eq]
  have hfold : ∀ m : Strategies, m.totalValue d base market fx =
      (m.values.map (·.totalValue d base market fx)).foldlM
        (fun total x => do Decimal.lift (total.add (← x))) Decimal.zero := by
    intro m
    rw [List.foldlM_map]
    rfl
  rw [hfold m, hfold m', hworth]

theorem MarketDay.splits_eq_nil {day : MarketDay}
    (h : ∀ e ∈ day.bars.toList, e.2.hasSplit = false) :
    day.bars.toList.filter (·.2.hasSplit) = [] := by
  apply List.filter_eq_nil_iff.mpr
  intro e he
  simp [h e he]

/-- Without splits, and with dividends on nothing that is held, a day leaves a book as it is. -/
theorem Book.applyCorporateActions_of_flat {day : MarketDay} {b : Book} (l : Listings)
    (hsplits : ∀ e ∈ day.bars.toList, e.2.hasSplit = false)
    (hflat : ∀ e ∈ day.bars.toList, e.2.hasDividend = true → b.position e.1 = 0) :
    Book.applyCorporateActions l day b = (b, .ok ()) := by
  have hpaid : ∀ es : List (Asset × Bar), (∀ e ∈ es, b.position e.1 = 0) →
      Action.forEach es (fun e => do let _ ← applyDividend l e.1 (.known e.2.dividend)) b =
        (b, .ok ()) := by
    intro es hes
    induction es with
    | nil => rfl
    | cons e es ih =>
      have hnothing : applyDividend l e.1 (.known e.2.dividend) b = (b, .ok 0) :=
        applyDividend_of_flat _ (hes e (by simp))
      refine Action.forEach_cons_eq_ok.mpr ⟨b, ?_, ih fun e' he' => hes e' (by simp [he'])⟩
      rw [Action.bind_ok hnothing]
      rfl
  refine Action.bind_eq_ok.mpr ⟨b, (), hpaid _ fun e he => ?_, ?_⟩
  · obtain ⟨hmem, hpays⟩ := List.mem_filter.mp he
    exact hflat e hmem hpays
  · rw [MarketDay.splits_eq_nil hsplits]
    rfl

theorem MarketHistory.splitOn_of_none {day : MarketDay} (h : MarketHistory)
    (hsplits : ∀ e ∈ day.bars.toList, e.2.hasSplit = false) : h.splitOn day = h := by
  rw [splitOn, MarketDay.splits_eq_nil hsplits, List.foldl_nil]

namespace Portfolio

open Backtesting.Action (bind_eq_ok)

variable {day : MarketDay} {d : Date} {p q r : Portfolio}

/-- A day on which nothing is signaled takes every book through its corporate actions. -/
theorem follows_of_quiet (h : handleMarket day p = (q, .ok ()))
    (hquiet : q.signalCount = p.signalCount) :
    Follows (fun _ l => Book.applyCorporateActions l day) p q [] := by
  obtain ⟨p₁, p₂, p₃, p₄, v, htake, hactions, hallocate, hrun, hrecord⟩ :=
    handleMarket_eq_ok.mp h
  have hbefore : p₁.signalCount ≤ p₃.signalCount := by
    have hacted := allowsActions_signalCount.applyCorporateActions day p₁
    have hfunded := AllowsFunding.allocateCapital allowsFunding_signalCount day.date p₂
    rw [hactions] at hacted
    rw [hallocate] at hfunded
    exact Nat.le_trans hacted hfunded
  have htraded : p₃.signalCount ≤ p₄.signalCount := by
    have hframe := AllowsTrading.runStrategies allowsActions_signalCount.trading day.date
      p₃.strategies.keys p₃
    rwa [hrun] at hframe
  have hsilent : p₄.signalCount = p₃.signalCount := by
    obtain ⟨market, fx, -, -, -, rfl⟩ := takeIn_eq_ok.mp htake
    obtain ⟨-, -, rfl⟩ := recordEquity_eq_ok.mp hrecord
    exact Nat.le_antisymm (hquiet.trans_le hbefore) htraded
  have hday := (trades_of_quiet hrun hsilent).follows_day htake hactions hallocate hrecord
  refine hday.congr fun n _ => ?_
  funext l b
  show (Book.applyCorporateActions l day >>= fun _ => pure ()) b = _
  rcases hb : Book.applyCorporateActions l day b with ⟨c, e | u⟩
  · rw [Action.bind_error hb]
  · rw [Action.bind_ok hb]
    rfl

section Build

variable {name : String} {base : Document} {named : List (String × Strategy)}
  {allocator : Allocator} {commission : Commission} {fxBase : Option Currency}
  {explicit : List (Asset × Document)} {venue : Option MarketHistory} {fresh : Portfolio}
  {events : List Event}

/-- Strategies that start without positions never hold anything that they do not list. -/
theorem holdsOnly_of_reached
    (hbuild : build name base named allocator commission fxBase explicit venue = .ok fresh)
    (hflat : ∀ e ∈ named, e.2.book.positions = OrderedMap.empty)
    (hreached : p = after events fresh) {n : String} {s : Strategy}
    (hs : p.strategies.get? n = some s) : s.book.HoldsOnly s.assets := by
  have hframe : AllowsEvents fun p q =>
      (∀ n s, p.strategies.get? n = some s → s.book.HoldsOnly s.assets) →
        ∀ n s, q.strategies.get? n = some s → s.book.HoldsOnly s.assets := by
    refine allowsEvents_all (fun {s t} he hholds => ?_) fun s target hholds => hholds
    rw [Strategy.assets_of_setup_eq he.setup]
    exact hholds.of_evolves he.book
  have hfresh : ∀ n s, fresh.strategies.get? n = some s → s.book.HoldsOnly s.assets := by
    intro n s hs a ha
    rw [OrderedMap.get?_eq_some_iff, (strategies_of_build hbuild).1] at hs
    rw [hflat (n, s) hs] at ha
    exact absurd ha List.not_mem_nil
  have hafter := hframe.after fresh events hfresh
  exact hafter n s (hreached ▸ hs)

/-- A second delivery of a day on which nothing is signaled. All bars go through the splits of the
day and all books through its corporate actions once more. Without splits, and with dividends on
nothing that is held, the bars, the books and the value of the day are as they were. -/
theorem redelivery_applies_again
    (hbuild : build name base named allocator commission fxBase explicit venue = .ok fresh)
    (hflat : ∀ e ∈ named, e.2.book.positions = OrderedMap.empty)
    (hreached : p = after events fresh) (hfirst : handleMarket day p = (q, .ok ()))
    (hsecond : handleMarket day q = (r, .ok ())) (hquiet : r.signalCount = q.signalCount) :
    r.market = MarketHistory.splitOn ⟨q.market.bars.put day.date day.bars⟩ day ∧
      (∀ n s, q.strategies.get? n = some s → ∃ t b, r.strategies.get? n = some t ∧
        Book.applyCorporateActions s.assets day s.book = (b, .ok ()) ∧
        b.SameHoldings t.book) ∧
      ((∀ e ∈ day.bars.toList, e.2.hasSplit = false) →
        (∀ n s, q.strategies.get? n = some s →
          ∀ e ∈ day.bars.toList, e.2.hasDividend = true → s.position e.1 = 0) →
        r.market = q.market ∧
          r.equity.values.get? day.date = q.equity.values.get? day.date ∧
          ∀ n s, q.strategies.get? n = some s → ∃ t, r.strategies.get? n = some t ∧
            s.book.SameHoldings t.book) := by
  have hreached' : q = after (events ++ [.market day]) fresh := by
    rw [after_append, ← hreached]
    show q = (handleMarket day p).1
    rw [hfirst]
  have hfollows := follows_of_quiet hsecond hquiet
  obtain ⟨-, hmarket, hfx, v, hv, hvalues⟩ := stores_of_handleMarket hfirst
  obtain ⟨hbase', hmarket', hfx', v', hv', hvalues'⟩ := stores_of_handleMarket hsecond
  have hbooks : ∀ n s, q.strategies.get? n = some s → ∃ t b, r.strategies.get? n = some t ∧
      t.assets = s.assets ∧ Book.applyCorporateActions s.assets day s.book = (b, .ok ()) ∧
      b.SameHoldings t.book := by
    intro n s hs
    obtain ⟨t, b, ht, hsetup, -, hb, hsame⟩ :=
      hfollows.books hs (holdsOnly_of_reached hbuild hflat hreached' hs)
    exact ⟨t, b, ht, Strategy.assets_of_setup_eq hsetup, hb, hsame⟩
  refine ⟨hmarket', fun n s hs => ?_, fun hsplits hdividends => ?_⟩
  · obtain ⟨t, b, ht, -, hb, hsame⟩ := hbooks n s hs
    exact ⟨t, b, ht, hb, hsame⟩
  have hheld : ∀ n s, q.strategies.get? n = some s → ∃ t, r.strategies.get? n = some t ∧
      t.assets = s.assets ∧ s.book.SameHoldings t.book := by
    intro n s hs
    obtain ⟨t, b, ht, hassets, hb, hsame⟩ := hbooks n s hs
    rw [Book.applyCorporateActions_of_flat s.assets hsplits (hdividends n s hs)] at hb
    obtain rfl := (Prod.mk.inj hb).1
    exact ⟨t, ht, hassets, hsame⟩
  -- the day stands in every store as it did, so the books are valued as they were
  have hbars : r.market = q.market := by
    rw [hmarket', hmarket, MarketHistory.splitOn_of_none _ hsplits,
      MarketHistory.splitOn_of_none _ hsplits, Chronicle.put_put]
  have hrates : r.fx = q.fx := by
    obtain ⟨read, hread, -, hq⟩ := FxHistory.append_eq_ok hfx
    obtain ⟨read', hread', -, hr⟩ := FxHistory.append_eq_ok hfx'
    obtain rfl := Except.ok.inj (hread.symm.trans hread')
    rw [hr, hq, Chronicle.put_put]
  have hvalue : v' = v := by
    rw [totalValue, Strategies.totalValue_congr hfollows.keys hheld, hbase', hbars, hrates] at hv'
    exact Except.ok.inj (hv'.symm.trans hv)
  refine ⟨hbars, ?_, fun n s hs => ?_⟩
  · rw [hvalues', hvalues, hvalue, Chronicle.put_put]
  · obtain ⟨t, ht, -, hsame⟩ := hheld n s hs
    exact ⟨t, ht, hsame⟩

end Build

/-- A day with a dividend on an asset that nobody holds, delivered twice. -/
theorem redelivery_applies_again_holding :
    let first : MarketDay := .flat ⟨2024, 1, 2, by decide, by decide, by decide⟩ ["A", "B"]
    let second : MarketDay := ⟨⟨2024, 1, 3, by decide, by decide, by decide⟩,
      OrderedMap.ofList [("A", Bar.flat), ("B", Bar.flat),
        ("C", ⟨⟨10, 10, 10, 10, 10, 100, 1, 1⟩, rfl⟩)], []⟩
    let q := (handleMarket second (after [.market first] (holding ["A", "B"]))).1
    let r := (handleMarket second q).1
    r.signalCount = q.signalCount ∧ q.fills.length = 2 ∧ r.market = q.market ∧
      r.equity.values.get? second.date = q.equity.values.get? second.date := by
  intro first second q r
  have hfirst : handleMarket second (after [.market first] (holding ["A", "B"])) = (q, .ok ()) :=
    Action.eq_ok_of_toBool (by decide +kernel)
  have hsecond : handleMarket second q = (r, .ok ()) :=
    Action.eq_ok_of_toBool (by decide +kernel)
  have hquiet : r.signalCount = q.signalCount := by decide +kernel
  have hflat : ∀ e ∈ [("A", Strategy.holder "A"), ("B", Strategy.holder "B")],
      e.2.book.positions = OrderedMap.empty := by decide
  have hdividends : ∀ e ∈ q.strategies.toList, ∀ b ∈ second.bars.toList,
      b.2.hasDividend = true → e.2.position b.1 = 0 := by decide +kernel
  obtain ⟨-, -, hsame⟩ :=
    redelivery_applies_again build_holding hflat rfl hfirst hsecond hquiet
  obtain ⟨hmarket, hvalue, -⟩ := hsame (by decide +kernel)
    fun n s hs => hdividends (n, s) (OrderedMap.get?_eq_some_iff.mp hs)
  exact ⟨hquiet, by decide +kernel, hmarket, hvalue⟩

/-- A day with a split of two for one, delivered twice: the position is doubled twice, the bars of the
day before are halved twice, and the portfolio is worth 1000 dollars more. -/
theorem redelivery_splits_twice :
    let first : MarketDay := .flat ⟨2024, 1, 2, by decide, by decide, by decide⟩ ["A"]
    let second : MarketDay := ⟨⟨2024, 1, 3, by decide, by decide, by decide⟩,
      OrderedMap.ofList [("A", ⟨⟨10, 10, 10, 10, 10, 100, 0, 2⟩, rfl⟩)], []⟩
    let p := after [.market first] (holding ["A"])
    let q := (handleMarket second p).1
    let r := (handleMarket second q).1
    (handleMarket second p).2.toBool = true ∧ (handleMarket second q).2.toBool = true ∧
      r.signalCount = q.signalCount ∧
      (q.strategies.get? "A").map (·.position "A") = some 200 ∧
      (r.strategies.get? "A").map (·.position "A") = some 400 ∧
      ((q.market.bar? first.date "A").map (·.close)) = some (.finite false 5 0) ∧
      ((r.market.bar? first.date "A").map (·.close)) = some (.finite false 25 (-1)) ∧
      q.equity.values.get? second.date = some (.finite false 999000 (-3)) ∧
      r.equity.values.get? second.date = some (.finite false 1999000 (-3)) := by
  decide +kernel

end Portfolio
end Backtesting
