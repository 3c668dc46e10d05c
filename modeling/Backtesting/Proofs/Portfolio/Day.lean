import Backtesting.Proofs.Except
import Backtesting.Proofs.Portfolio.Frame
import Backtesting.Proofs.Strategy.Book

/-!
A market event that succeeds, phase by phase: what is taken in, what dividends and splits do to one
strategy, what is handed to the strategies as capital, and what is recorded in the end.
-/
namespace Backtesting

/-- The bars after the splits of a day, one after the other. -/
def MarketHistory.splitOn (h : MarketHistory) (day : MarketDay) : MarketHistory :=
  (day.bars.toList.filter (·.2.hasSplit)).foldl (fun h e => (h.split e.1 e.2.split).1) h

namespace Portfolio

open Backtesting.Action (IsPath Keeps Moves bind_eq_ok)

variable {d : Date} {n : String} {p q : Portfolio}

/-- The phases of a market event that succeeds. -/
theorem handleMarket_eq_ok {day : MarketDay} :
    handleMarket day p = (q, .ok ()) ↔
      ∃ p₁ p₂ p₃ p₄ value, takeIn day p = (p₁, .ok ()) ∧
        applyCorporateActions day p₁ = (p₂, .ok ()) ∧
        allocateCapital day.date p₂ = (p₃, .ok ()) ∧
        Action.forEach p₃.strategies.keys (runStrategy day.date) p₃ = (p₄, .ok ()) ∧
        recordEquity day.date p₄ = (q, .ok value) := by
  constructor
  · intro h
    obtain ⟨p₁, _, htake, h₁⟩ := bind_eq_ok.mp h
    obtain ⟨p₂, _, hactions, h₂⟩ := bind_eq_ok.mp h₁
    obtain ⟨p₃, _, hallocate, h₃⟩ := bind_eq_ok.mp h₂
    obtain ⟨p₃', p', hget, h₄⟩ := bind_eq_ok.mp h₃
    obtain ⟨rfl, rfl⟩ := Action.get_eq_ok.mp hget
    obtain ⟨p₄, _, hrun, h₅⟩ := bind_eq_ok.mp h₄
    obtain ⟨p₅, value, hrecord, h₆⟩ := bind_eq_ok.mp h₅
    obtain ⟨rfl, -⟩ := Action.pure_eq_ok.mp h₆
    exact ⟨p₁, p₂, p', p₄, value, htake, hactions, hallocate, hrun, hrecord⟩
  · rintro ⟨p₁, p₂, p₃, p₄, value, htake, hactions, hallocate, hrun, hrecord⟩
    refine bind_eq_ok.mpr ⟨p₁, (), htake, bind_eq_ok.mpr ⟨p₂, (), hactions, ?_⟩⟩
    refine bind_eq_ok.mpr ⟨p₃, (), hallocate, bind_eq_ok.mpr ⟨p₃, p₃, rfl, ?_⟩⟩
    exact bind_eq_ok.mpr ⟨p₄, (), hrun, bind_eq_ok.mpr ⟨q, value, hrecord, rfl⟩⟩

theorem takeIn_eq_ok {day : MarketDay} :
    takeIn day p = (q, .ok ()) ↔
      ∃ market fx, p.equity.values.later? day.date = none ∧
        p.market.append day.date day.bars = .ok market ∧
        p.fx.append day.date day.rates = .ok fx ∧ q = { p with market, fx } := by
  constructor
  · intro h
    obtain ⟨u, _, hlater, h₁⟩ := bind_eq_ok.mp h
    rw [Action.update_eq_ok] at hlater
    split at hlater
    · simp at hlater
    · next hnone =>
      obtain rfl := Except.ok.inj hlater
      obtain ⟨v, _, hmarket, hfx⟩ := bind_eq_ok.mp h₁
      obtain ⟨market, happend, hv⟩ := Except.bind_eq_ok.mp (Action.update_eq_ok.mp hmarket)
      obtain rfl := Except.pure_eq_ok.mp hv
      obtain ⟨fx, happend', hq⟩ := Except.bind_eq_ok.mp (Action.update_eq_ok.mp hfx)
      exact ⟨market, fx, hnone, happend, happend', (Except.pure_eq_ok.mp hq).symm⟩
  · rintro ⟨market, fx, hlater, hmarket, hfx, rfl⟩
    refine bind_eq_ok.mpr ⟨p, (), ?_, bind_eq_ok.mpr ⟨{ p with market }, (), ?_, ?_⟩⟩
    · rw [Action.update_eq_ok, hlater]
    · rw [Action.update_eq_ok, hmarket]
      rfl
    · rw [Action.update_eq_ok, hfx]
      rfl

theorem recordEquity_eq_ok {value : Decimal} :
    recordEquity d p = (q, .ok value) ↔
      p.totalValue d = .ok value ∧ p.equity.values.later? d = none ∧
        q = { p with
          equity := ⟨p.equity.values.put d value⟩
          journal := p.journal ++
            [⟨.debug, s!"[Portfolio] {d.toText} equity={value.toText} {p.base.code}"⟩] } := by
  constructor
  · intro h
    obtain ⟨u, v, hread, h₁⟩ := bind_eq_ok.mp h
    obtain ⟨rfl, hvalue⟩ := Action.read_eq_ok.mp hread
    obtain ⟨w, _, hrecord, h₂⟩ := bind_eq_ok.mp h₁
    obtain ⟨equity, hequity, hw⟩ := Except.bind_eq_ok.mp (Action.update_eq_ok.mp hrecord)
    obtain rfl := Except.pure_eq_ok.mp hw
    obtain ⟨x, _, hget, h₃⟩ := bind_eq_ok.mp h₂
    obtain ⟨rfl, rfl⟩ := Action.get_eq_ok.mp hget
    obtain ⟨y, _, hlog, hpure⟩ := bind_eq_ok.mp h₃
    obtain rfl := Action.modify_eq_ok.mp hlog
    obtain ⟨rfl, rfl⟩ := Action.pure_eq_ok.mp hpure
    unfold EquityCurve.record at hequity
    split at hequity
    · simp at hequity
    · next hlater =>
      obtain rfl := Except.ok.inj hequity
      exact ⟨hvalue, hlater, rfl⟩
  · rintro ⟨hvalue, hlater, rfl⟩
    refine bind_eq_ok.mpr ⟨p, value, Action.read_eq_ok.mpr ⟨rfl, hvalue⟩, ?_⟩
    refine bind_eq_ok.mpr ⟨{ p with equity := ⟨p.equity.values.put d value⟩ }, (), ?_, rfl⟩
    rw [Action.update_eq_ok, EquityCurve.record, hlater]
    rfl

/-- A dividend reaches the strategies that list its asset. -/
theorem creditDividend_eq_ok {a : Asset} {perShare : Amount}
    (h : creditDividend d a perShare n p = (q, .ok ())) :
    ∃ s, p.strategies.get? n = some s ∧
      (s.assets.contains a = false ∧ q = p ∨
        s.assets.contains a = true ∧ ∃ b amount journal,
          Book.applyDividend s.assets a perShare s.book = (b, .ok amount) ∧
          q = { p with strategies := p.strategies.put n { s with book := b }, journal }) := by
  obtain ⟨p, s, hread, hrest⟩ := bind_eq_ok.mp h
  obtain ⟨rfl, hs⟩ := Action.read_eq_ok.mp hread
  refine ⟨s, strategy_eq_ok.mp hs, ?_⟩
  split at hrest
  · next hlisted =>
    obtain ⟨v, amount, hcredit, hlog⟩ := bind_eq_ok.mp hrest
    obtain ⟨s', t, hs', hbook, rfl⟩ := onStrategy_eq_ok hcredit
    obtain rfl : s = s' := Option.some.inj ((strategy_eq_ok.mp hs).symm.trans hs')
    obtain ⟨b, hpaid, rfl⟩ := Strategy.onBook_eq hbook
    refine Or.inr ⟨hlisted, b, amount, ?_⟩
    split at hlog
    · exact ⟨_, hpaid, Action.modify_eq_ok.mp hlog⟩
    · exact ⟨p.journal, hpaid, (Action.pure_eq_ok.mp hlog).1.symm⟩
  · next hlisted =>
    obtain ⟨rfl, -⟩ := Action.pure_eq_ok.mp hrest
    exact Or.inl ⟨by simpa using hlisted, rfl⟩

/-- A split reaches the strategies that list its asset. -/
theorem splitPosition_eq_ok {a : Asset} {ratio : Amount}
    (h : splitPosition a ratio n p = (q, .ok ())) :
    ∃ s, p.strategies.get? n = some s ∧
      (s.assets.contains a = false ∧ q = p ∨
        s.assets.contains a = true ∧ ∃ b, s.book.applySplit a ratio = .ok b ∧
          q = { p with strategies := p.strategies.put n { s with book := b } }) := by
  obtain ⟨p, s, hread, hrest⟩ := bind_eq_ok.mp h
  obtain ⟨rfl, hs⟩ := Action.read_eq_ok.mp hread
  refine ⟨s, strategy_eq_ok.mp hs, ?_⟩
  split at hrest
  · next hlisted =>
    obtain ⟨s', t, hs', hbook, rfl⟩ := onStrategy_eq_ok hrest
    obtain rfl : s = s' := Option.some.inj ((strategy_eq_ok.mp hs).symm.trans hs')
    obtain ⟨b, hb, ht⟩ := Except.bind_eq_ok.mp (Action.update_eq_ok.mp hbook)
    obtain rfl := Except.pure_eq_ok.mp ht
    exact Or.inr ⟨hlisted, b, hb, rfl⟩
  · next hlisted =>
    obtain ⟨rfl, -⟩ := Action.pure_eq_ok.mp hrest
    exact Or.inl ⟨by simpa using hlisted, rfl⟩

/-- A split reaches the strategies first and then the bars. -/
theorem handleSplit_eq_ok {a : Asset} {ratio : Amount} (h : handleSplit d a ratio p = (q, .ok ())) :
    ∃ u c n market journal,
      Action.forEach p.strategies.keys (splitPosition a ratio) p = (u, .ok ()) ∧
        ratio.read = .ok c ∧ u.market.split a c = (market, .ok n) ∧
        q = { u with market, journal } := by
  obtain ⟨u, p', hget, h₁⟩ := bind_eq_ok.mp h
  obtain ⟨rfl, rfl⟩ := Action.get_eq_ok.mp hget
  obtain ⟨v, _, hpositions, h₂⟩ := bind_eq_ok.mp h₁
  obtain ⟨w, coefficient, hratio, h₃⟩ := bind_eq_ok.mp h₂
  obtain ⟨rfl, hread⟩ := Action.ofExcept_eq_ok.mp hratio
  obtain ⟨x, count, hbars, hlog⟩ := bind_eq_ok.mp h₃
  obtain rfl := Action.modify_eq_ok.mp hlog
  rcases hsplit : w.market.split a coefficient with ⟨market, n⟩
  simp only [splitBars, hsplit, Prod.mk.injEq] at hbars
  obtain ⟨rfl, rfl⟩ := hbars
  exact ⟨w, coefficient, count, market, _, hpositions, hread, hsplit, rfl⟩

/-- Capital is handed out as a new target. -/
theorem setTarget_eq_ok {capital : BalanceSheet}
    (h : onStrategy n (Action.update (·.setTarget capital)) p = (q, .ok ())) :
    ∃ s target, p.strategies.get? n = some s ∧ capital.read = .ok target ∧
      q = { p with
        strategies := p.strategies.put n { s with book := { s.book with target } } } := by
  obtain ⟨s, t, hs, hbook, rfl⟩ := onStrategy_eq_ok h
  obtain ⟨b, hb, ht⟩ := Except.bind_eq_ok.mp (Action.update_eq_ok.mp hbook)
  obtain ⟨target, htarget, hb'⟩ := Except.bind_eq_ok.mp hb
  obtain rfl := Except.pure_eq_ok.mp hb'
  obtain rfl := Except.pure_eq_ok.mp ht
  exact ⟨s, target, hs, htarget, rfl⟩

/-- Capital changes nothing that is held. -/
theorem allocateCapital_eq_ok (h : allocateCapital d p = (q, .ok ())) :
    ∃ strategies, q = { p with strategies } ∧ strategies.keys = p.strategies.keys ∧
      ∀ n s, p.strategies.get? n = some s → ∃ t, strategies.get? n = some t ∧
        t.setup = s.setup ∧ s.book.SameHoldings t.book := by
  obtain ⟨u, capital, hread, hrest⟩ := bind_eq_ok.mp h
  obtain ⟨rfl, -⟩ := Action.read_eq_ok.mp hread
  have hpath : IsPath fun p q : Portfolio => ∃ strategies, q = { p with strategies } ∧
      strategies.keys = p.strategies.keys ∧
      ∀ n s, p.strategies.get? n = some s → ∃ t, strategies.get? n = some t ∧
        t.setup = s.setup ∧ s.book.SameHoldings t.book := by
    refine ⟨fun p => ⟨p.strategies, rfl, rfl, fun n s hs => ⟨s, hs, rfl, rfl, rfl⟩⟩, ?_⟩
    rintro p _ _ ⟨strategies, rfl, hkeys, hbooks⟩ ⟨strategies', rfl, hkeys', hbooks'⟩
    refine ⟨strategies', rfl, hkeys'.trans hkeys, fun n s hs => ?_⟩
    obtain ⟨t, ht, hsetup, hsame⟩ := hbooks n s hs
    obtain ⟨t', ht', hsetup', hsame'⟩ := hbooks' n t ht
    exact ⟨t', ht', hsetup'.trans hsetup, hsame.1.trans hsame'.1, hsame.2.trans hsame'.2⟩
  refine Moves.forEach hpath (fun e _ p q _ htarget => ?_) hrest
  obtain ⟨s, target, hs, -, rfl⟩ := setTarget_eq_ok htarget
  refine ⟨_, rfl, OrderedMap.keys_put_of_get? _ hs, fun m t ht => ?_⟩
  by_cases hm : m = e.1
  · subst hm
    obtain rfl : s = t := Option.some.inj (hs.symm.trans ht)
    exact ⟨{ s with book := { s.book with target } }, by simp, rfl, rfl, rfl⟩
  · exact ⟨t, by simpa [hm] using ht, rfl, rfl, rfl⟩

/-- Nothing is written to what a portfolio is valued by, nor to its values. -/
structure SameStores (p q : Portfolio) : Prop where
  base : q.base = p.base
  market : q.market = p.market
  fx : q.fx = p.fx
  equity : q.equity = p.equity

namespace SameStores

theorem isPath : IsPath SameStores where
  refl _ := ⟨rfl, rfl, rfl, rfl⟩
  trans h h' := ⟨h'.base.trans h.base, h'.market.trans h.market, h'.fx.trans h.fx,
    h'.equity.trans h.equity⟩

theorem allowsTrading (n : String) : AllowsTrading n SameStores where
  path := isPath
  strategy _ _ := ⟨rfl, rfl, rfl, rfl⟩
  fills _ _ _ := ⟨rfl, rfl, rfl, rfl⟩
  signalCount _ _ := ⟨rfl, rfl, rfl, rfl⟩
  orderCount _ := ⟨rfl, rfl, rfl, rfl⟩
  brokerage _ _ _ := ⟨rfl, rfl, rfl, rfl⟩
  journal _ _ := ⟨rfl, rfl, rfl, rfl⟩

theorem of_runStrategies {ns : List String}
    (h : Action.forEach ns (runStrategy d) p = (q, .ok ())) : SameStores p q := by
  have hframe := AllowsTrading.runStrategies allowsTrading d ns p
  rwa [h] at hframe

theorem of_handleDividend {a : Asset} {perShare : Amount}
    (h : handleDividend d a perShare p = (q, .ok ())) : SameStores p q := by
  have hframe := AllowsBooks.handleDividend (fun n => (allowsTrading n).books) d a perShare p
  rwa [h] at hframe

theorem of_splitPositions {a : Asset} {ratio : Amount} {ns : List String}
    (h : Action.forEach ns (splitPosition a ratio) p = (q, .ok ())) : SameStores p q := by
  have hframe := AllowsBooks.splitPositions (fun n => (allowsTrading n).books) a ratio ns p
  rwa [h] at hframe

/-- A split adjusts the bars. -/
theorem of_handleSplit {a : Asset} {c : Decimal} (h : handleSplit d a (.known c) p = (q, .ok ())) :
    SameStores { p with market := (p.market.split a c).1 } q := by
  obtain ⟨u, c', n, market, journal, hpositions, hread, hsplit, rfl⟩ := handleSplit_eq_ok h
  obtain rfl : c = c' := Except.ok.inj hread
  have hsame := of_splitPositions hpositions
  refine ⟨hsame.base, ?_, hsame.fx, hsame.equity⟩
  rw [← hsame.market, hsplit]

theorem of_splits {l : List (Asset × Bar)}
    (h : Action.forEach l (fun e => handleSplit d e.1 (.known e.2.split)) p = (q, .ok ())) :
    SameStores { p with market := l.foldl (fun h e => (h.split e.1 e.2.split).1) p.market } q := by
  induction l generalizing p with
  | nil =>
    obtain rfl := Action.forEach_nil_eq_ok.mp h
    exact isPath.refl q
  | cons e l ih =>
    obtain ⟨u, hu, hrest⟩ := Action.forEach_cons_eq_ok.mp h
    have hfirst := of_handleSplit hu
    have hlater := ih hrest
    rw [hfirst.market] at hlater
    exact ⟨hlater.base.trans hfirst.base, hlater.market, hlater.fx.trans hfirst.fx,
      hlater.equity.trans hfirst.equity⟩

theorem of_applyCorporateActions {day : MarketDay}
    (h : applyCorporateActions day p = (q, .ok ())) :
    SameStores { p with market := p.market.splitOn day } q := by
  obtain ⟨u, _, hdividends, hsplits⟩ := bind_eq_ok.mp h
  have hpaid : SameStores p u :=
    Moves.forEach isPath (fun e _ _ _ _ hpay => of_handleDividend hpay) hdividends
  have hsplit : SameStores { u with market := u.market.splitOn day } q := of_splits hsplits
  rw [hpaid.market] at hsplit
  exact ⟨hsplit.base.trans hpaid.base, hsplit.market, hsplit.fx.trans hpaid.fx,
    hsplit.equity.trans hpaid.equity⟩

end SameStores
end Portfolio
end Backtesting
