import Backtesting.Proofs.Portfolio.Day
import Backtesting.Proofs.Strategy.Alike
import Backtesting.Proofs.Strategy.Value

/-!
What the phases of a market event before trading do to the books. Dividends and splits are entered
asset by asset, each of them in all strategies; for one strategy this is one run over its own book.
Then every strategy is told the capital to work with, which is what it is worth or an equal share of
what all are worth.
-/
namespace Backtesting

/-- What a day does to a book before capital is handed out. -/
def Book.act (day : MarketDay) (l : Listings) : Action Book Unit := do
  Action.forEach day.dividends (receive l)
  Action.forEach day.splits (adjust l)

/-- Dividends and splits may be listed in any order. -/
theorem Book.Alike.act {day day' : MarketDay} {l : Listings} {b c b' c' : Book} (h : b.Alike c)
    (hday : day.Reorders day') (hb : Book.act day l b = (b', .ok ()))
    (hc : Book.act day' l c = (c', .ok ())) (hexact : ReceivesExactly l day.dividends b)
    (hexact' : ReceivesExactly l day'.dividends c) : b'.Alike c' := by
  obtain ⟨u, _, hpaid, hsplit⟩ := Action.bind_eq_ok.mp hb
  obtain ⟨v, _, hpaid', hsplit'⟩ := Action.bind_eq_ok.mp hc
  exact (h.receive hday.dividends hpaid hpaid' hexact hexact').adjust hday.splits day.nodup_splits
    hsplit hsplit'

namespace Portfolio

open Backtesting.Action (bind_eq_ok)

variable {d : Date} {n : String} {p q r : Portfolio}

/-- The step of one strategy gives it another book. -/
def Rebooks (n : String) (step : Strategy → Book → Prop) (p q : Portfolio) : Prop :=
  ∃ s b journal, p.strategies.get? n = some s ∧ step s b ∧
    q = { p with strategies := p.strategies.put n { s with book := b }, journal }

/-- Books of different strategies, one after the other. -/
theorem forEach_rebooks {α : Type} {name : α → String} {f : α → Action Portfolio Unit}
    {step : α → Strategy → Book → Prop}
    (hf : ∀ {a p q}, f a p = (q, .ok ()) → Rebooks (name a) (step a) p q) {as : List α}
    (has : (as.map name).Nodup) (h : Action.forEach as f p = (q, .ok ())) :
    (∃ strategies journal, q = { p with strategies, journal }) ∧
      q.strategies.keys = p.strategies.keys ∧
      (∀ n ∉ as.map name, q.strategies.get? n = p.strategies.get? n) ∧
      ∀ a ∈ as, ∃ s b, p.strategies.get? (name a) = some s ∧ step a s b ∧
        q.strategies.get? (name a) = some { s with book := b } := by
  induction as generalizing p with
  | nil =>
    obtain rfl := Action.forEach_nil_eq_ok.mp h
    exact ⟨⟨_, _, rfl⟩, rfl, fun _ _ => rfl, fun a ha => absurd ha List.not_mem_nil⟩
  | cons a as ih =>
    rw [List.map_cons, List.nodup_cons] at has
    obtain ⟨hfresh, has⟩ := has
    obtain ⟨u, hu, hrest⟩ := Action.forEach_cons_eq_ok.mp h
    obtain ⟨s, b, journal, hs, hstep, rfl⟩ := hf hu
    obtain ⟨⟨strategies, journal', rfl⟩, hkeys, hothers, hsteps⟩ := ih has hrest
    refine ⟨⟨_, _, rfl⟩, hkeys.trans (OrderedMap.keys_put_of_get? _ hs), fun n hn => ?_, ?_⟩
    · rw [List.map_cons, List.mem_cons, not_or] at hn
      rw [hothers n hn.2, OrderedMap.get?_put, if_neg hn.1]
    · intro c hc
      rcases List.mem_cons.mp hc with rfl | hc
      · exact ⟨s, b, hs, hstep, by rw [hothers _ hfresh, OrderedMap.get?_put, if_pos rfl]⟩
      · have hne : name c ≠ name a := fun heq => hfresh (heq ▸ List.mem_map_of_mem hc)
        obtain ⟨t, c', ht, hmade, hq⟩ := hsteps c hc
        rw [OrderedMap.get?_put, if_neg hne] at ht
        exact ⟨t, c', ht, hmade, hq⟩

theorem rebooks_creditDividend {e : Asset × Bar}
    (h : creditDividend d e.1 (.known e.2.dividend) n p = (q, .ok ())) :
    Rebooks n (fun s b => Book.receive s.assets e s.book = (b, .ok ())) p q := by
  obtain ⟨s, hs, ⟨hlisted, rfl⟩ | ⟨hlisted, b, amount, journal, hpaid, rfl⟩⟩ :=
    creditDividend_eq_ok h
  · refine ⟨s, s.book, q.journal, hs, ?_, by rw [OrderedMap.put_of_get? hs]⟩
    have hnothing : Book.receive s.assets e = pure () := by simp [Book.receive, hlisted]
    exact congrFun hnothing s.book
  · refine ⟨s, b, journal, hs, ?_, rfl⟩
    show Book.receive s.assets e s.book = _
    rw [Book.receive, if_pos hlisted]
    exact bind_eq_ok.mpr ⟨b, amount, hpaid, rfl⟩

theorem rebooks_splitPosition {e : Asset × Bar}
    (h : splitPosition e.1 (.known e.2.split) n p = (q, .ok ())) :
    Rebooks n (fun s b => Book.adjust s.assets e s.book = (b, .ok ())) p q := by
  obtain ⟨s, hs, ⟨hlisted, rfl⟩ | ⟨hlisted, b, hb, rfl⟩⟩ := splitPosition_eq_ok h
  · refine ⟨s, s.book, q.journal, hs, ?_, by rw [OrderedMap.put_of_get? hs]⟩
    have hnothing : Book.adjust s.assets e = pure () := by simp [Book.adjust, hlisted]
    exact congrFun hnothing s.book
  · refine ⟨s, b, p.journal, hs, ?_, rfl⟩
    show Book.adjust s.assets e s.book = _
    rw [Book.adjust, if_pos hlisted]
    exact Action.update_eq_ok.mpr hb

/-- What an event does to the books of all strategies; besides, bars may be adjusted. -/
structure RebooksAll (x : Listings → Action Book Unit) (p q : Portfolio) : Prop where
  same : ∃ strategies market journal, q = { p with strategies, market, journal }
  keys : q.strategies.keys = p.strategies.keys
  books : ∀ {n s}, p.strategies.get? n = some s →
    ∃ b, x s.assets s.book = (b, .ok ()) ∧ q.strategies.get? n = some { s with book := b }

theorem RebooksAll.of_keys {f : String → Action Portfolio Unit} {x : Listings → Action Book Unit}
    (hf : ∀ {n p q}, f n p = (q, .ok ()) →
      Rebooks n (fun s b => x s.assets s.book = (b, .ok ())) p q)
    (h : Action.forEach p.strategies.keys f p = (q, .ok ())) : RebooksAll x p q := by
  have hnodup : (p.strategies.keys.map id).Nodup := by
    rw [List.map_id]
    exact p.strategies.nodup
  have hown : ∀ {n p q}, f n p = (q, .ok ()) →
      Rebooks (id n) (fun s b => x s.assets s.book = (b, .ok ())) p q := hf
  obtain ⟨⟨strategies, journal, hq⟩, hkeys, -, hsteps⟩ := forEach_rebooks (f := f) hown hnodup h
  refine ⟨⟨strategies, p.market, journal, hq⟩, hkeys, fun {n s} hs => ?_⟩
  obtain ⟨s', b, hs', hb, hq⟩ := hsteps n (OrderedMap.mem_keys_of_get? hs)
  obtain rfl : s = s' := Option.some.inj (hs.symm.trans hs')
  exact ⟨b, hb, hq⟩

theorem RebooksAll.forEach {α : Type} {f : α → Action Portfolio Unit}
    {x : Listings → α → Action Book Unit}
    (hf : ∀ {a p q}, f a p = (q, .ok ()) → RebooksAll (x · a) p q) {as : List α}
    (h : Action.forEach as f p = (q, .ok ())) :
    RebooksAll (fun l => Action.forEach as (x l)) p q := by
  induction as generalizing p with
  | nil =>
    obtain rfl := Action.forEach_nil_eq_ok.mp h
    exact ⟨⟨_, _, _, rfl⟩, rfl, fun {n s} hs => ⟨s.book, rfl, hs⟩⟩
  | cons a as ih =>
    obtain ⟨u, hu, hrest⟩ := Action.forEach_cons_eq_ok.mp h
    obtain ⟨⟨strategies, market, journal, rfl⟩, hkeys, hfirst⟩ := hf hu
    obtain ⟨⟨strategies', market', journal', rfl⟩, hkeys', hlater⟩ := ih hrest
    refine ⟨⟨_, _, _, rfl⟩, hkeys'.trans hkeys, fun {n s} hs => ?_⟩
    obtain ⟨b, hb, ht⟩ := hfirst hs
    obtain ⟨b', hb', ht'⟩ := hlater ht
    exact ⟨b', Action.forEach_cons_eq_ok.mpr ⟨b, hb, hb'⟩, ht'⟩

theorem rebooksAll_applyCorporateActions {day : MarketDay}
    (h : applyCorporateActions day p = (q, .ok ())) :
    RebooksAll (Book.act day) p q := by
  obtain ⟨u, _, hdividends, hsplits⟩ := bind_eq_ok.mp h
  have hpaid : RebooksAll (fun l => Action.forEach day.dividends (Book.receive l)) p u := by
    refine RebooksAll.forEach (fun {e p q} hpay => ?_) hdividends
    obtain ⟨v, p', hget, hcredits⟩ := bind_eq_ok.mp hpay
    obtain ⟨rfl, rfl⟩ := Action.get_eq_ok.mp hget
    exact RebooksAll.of_keys rebooks_creditDividend hcredits
  have hsplit : RebooksAll (fun l => Action.forEach day.splits (Book.adjust l)) u q := by
    refine RebooksAll.forEach (fun {e p q} hsplit => ?_) hsplits
    obtain ⟨v, c, k, market, journal, hpositions, -, -, rfl⟩ := handleSplit_eq_ok hsplit
    obtain ⟨⟨strategies, market', journal', rfl⟩, hkeys, hbooks⟩ :=
      RebooksAll.of_keys (x := (Book.adjust · e)) rebooks_splitPosition hpositions
    exact ⟨⟨_, _, _, rfl⟩, hkeys, hbooks⟩
  obtain ⟨⟨strategies, market, journal, rfl⟩, hkeys, hfirst⟩ := hpaid
  obtain ⟨⟨strategies', market', journal', rfl⟩, hkeys', hsecond⟩ := hsplit
  refine ⟨⟨_, _, _, rfl⟩, hkeys'.trans hkeys, fun {n s} hs => ?_⟩
  obtain ⟨b, hb, ht⟩ := hfirst hs
  obtain ⟨b', hb', ht'⟩ := hsecond ht
  exact ⟨b', bind_eq_ok.mpr ⟨b, (), hb, hb'⟩, ht'⟩

section Capital

variable {strategies : Strategies} {base : Currency} {market : MarketHistory} {fx : FxHistory}

/-- The capital of one strategy: its worth, or an equal share of what all are worth. -/
def Shares (a : Allocator) (strategies : Strategies) (d : Date) (base : Currency)
    (market : MarketHistory) (fx : FxHistory) (n : String) (x : Decimal) : Prop :=
  match a with
  | .selfFunded => ∃ s, strategies.get? n = some s ∧ s.totalValue d base market fx = .ok x
  | .equalWeight => ∃ total, strategies.totalValue d base market fx = .ok total ∧
      total.div (Decimal.ofInt strategies.size) = .ok x
  | .fixed _ => False

theorem shares_of_allocate {a : Allocator} (ha : a = .selfFunded ∨ a = .equalWeight)
    {capital : List (String × BalanceSheet)}
    (h : a.allocate strategies d base market fx = .ok capital) :
    capital.map Prod.fst = strategies.keys ∧ ∀ e ∈ capital, ∃ x,
      e.2 = Allocator.inBase base x ∧ Shares a strategies d base market fx e.1 x := by
  rcases ha with rfl | rfl
  · obtain ⟨worth, hworth, hcapital⟩ := Except.bind_eq_ok.mp h
    obtain rfl := Except.pure_eq_ok.mp hcapital
    obtain ⟨hkeys, htotals⟩ := Allocator.values_eq_ok hworth
    refine ⟨?_, fun e he => ?_⟩
    · rw [List.map_map, ← hkeys]
      rfl
    · obtain ⟨w, hw, rfl⟩ := List.mem_map.mp he
      exact ⟨w.2, rfl, htotals w hw⟩
  · unfold Allocator.allocate at h
    dsimp only at h
    split at h
    · next hempty =>
      obtain rfl := Except.ok.inj h
      have hnone : strategies.toList = [] := List.isEmpty_iff.mp hempty
      refine ⟨?_, fun e he => absurd he List.not_mem_nil⟩
      rw [OrderedMap.keys, hnone]
      rfl
    · obtain ⟨total, htotal, h⟩ := Except.bind_eq_ok.mp h
      obtain ⟨share, hshare, hcapital⟩ := Except.bind_eq_ok.mp h
      obtain rfl := Except.pure_eq_ok.mp hcapital
      refine ⟨?_, fun e he => ?_⟩
      · rw [List.map_map]
        exact List.map_id _
      · obtain ⟨n, hn, rfl⟩ := List.mem_map.mp he
        exact ⟨share, rfl, total, htotal, Decimal.lift_eq_ok.mp hshare⟩

theorem rebooks_setTarget {e : String × BalanceSheet}
    (h : onStrategy e.1 (Action.update (·.setTarget e.2)) p = (q, .ok ())) :
    Rebooks e.1 (fun s b => ∃ target, e.2.read = .ok target ∧ b = { s.book with target }) p q := by
  obtain ⟨s, target, hs, htarget, rfl⟩ := setTarget_eq_ok h
  exact ⟨s, _, p.journal, hs, ⟨target, htarget, rfl⟩, rfl⟩

/-- Every strategy is told its share in the base currency. -/
theorem target_of_allocateCapital (ha : p.allocator = .selfFunded ∨ p.allocator = .equalWeight)
    (h : allocateCapital d p = (q, .ok ())) {s : Strategy} (hs : p.strategies.get? n = some s) :
    ∃ x, Shares p.allocator p.strategies d p.base p.market p.fx n x ∧
      q.strategies.get? n = some { s with
        book := { s.book with target := OrderedMap.empty.put p.base x } } := by
  obtain ⟨u, capital, hread, hrest⟩ := bind_eq_ok.mp h
  obtain ⟨rfl, hcapital⟩ := Action.read_eq_ok.mp hread
  obtain ⟨hkeys, hshares⟩ := shares_of_allocate ha hcapital
  have hnodup : (capital.map Prod.fst).Nodup := by
    rw [hkeys]
    exact u.strategies.nodup
  obtain ⟨-, -, -, hsteps⟩ := forEach_rebooks
    (f := fun e => onStrategy e.1 (Action.update (·.setTarget e.2))) rebooks_setTarget hnodup hrest
  have hn : n ∈ capital.map Prod.fst := hkeys ▸ OrderedMap.mem_keys_of_get? hs
  obtain ⟨e, he, rfl⟩ := List.mem_map.mp hn
  obtain ⟨x, hx, hshare⟩ := hshares e he
  obtain ⟨s', b, hs', ⟨target, htarget, rfl⟩, hq⟩ := hsteps e he
  obtain rfl : s = s' := Option.some.inj (hs.symm.trans hs')
  rw [hx] at htarget
  obtain rfl := Except.ok.inj htarget
  exact ⟨x, hshare, hq⟩

end Capital
end Portfolio
end Backtesting
