import Backtesting.Proofs.Portfolio.Apart
import Backtesting.Proofs.Strategy.Alike

/-!
One strategy that trades in two portfolios. Its books hold the same on both sides, though the digits
and the order of the balances may differ, and the bars and the rates are the same. Where it trades
without error on both sides it ends with books that hold the same, after the same fills, signals and
orders.
-/
namespace Backtesting.Portfolio

open Backtesting.Action (Meets)

variable {n : String} {g : Int × Int} {d : Date} {p q : Portfolio}

/-- Strategies that hold the same and have been told what to work with. -/
def FundedAlike (s t : Strategy) : Prop := s.Alike t ∧ s.book.target.isEmpty = false

/-- The portfolios look the same to one strategy, and their counts are some numbers apart. -/
structure TradeAlike (n : String) (g : Int × Int) (p q : Portfolio) : Prop where
  strategy : ∃ s t, p.strategies.get? n = some s ∧ q.strategies.get? n = some t ∧ FundedAlike s t
  market : p.market.SameBars q.market
  fx : p.fx.SameRates q.fx
  venue : p.venue = q.venue
  commission : p.brokerage.commission = q.brokerage.commission
  fills : fillsOf n p.fills = fillsOf n q.fills
  counts : p.counts - q.counts = g

namespace TradeAlike

theorem put (h : TradeAlike n g p q) {s t : Strategy} (hst : FundedAlike s t) :
    TradeAlike n g { p with strategies := p.strategies.put n s }
      { q with strategies := q.strategies.put n t } :=
  { h with strategy := ⟨s, t, by simp, by simp, hst⟩ }

/-- Orders are matched against the same bars. -/
theorem bar?_eq (h : TradeAlike n g p q) (d : Date) (a : Asset) :
    (p.venue.getD p.market).bar? d a = (q.venue.getD q.market).bar? d a := by
  rw [h.venue]
  cases q.venue with
  | none => exact h.market.bar?_eq trivial d
  | some venue => rfl

end TradeAlike

theorem meets_log (level level' : Level) (text text' : String) :
    Meets (TradeAlike n g) Eq (log level text) (log level' text') :=
  Meets.modify fun _ _ h => { h with }

theorem meets_strategy (n : String) (g : Int × Int) :
    Meets (TradeAlike n g) FundedAlike (Action.read (·.strategy n))
      (Action.read (·.strategy n)) := by
  refine Meets.read fun p q h s t hs ht => ?_
  obtain ⟨s', t', hs', ht', hst⟩ := h.strategy
  obtain rfl : s = s' := Option.some.inj ((strategy_eq_ok.mp hs).symm.trans hs')
  obtain rfl : t = t' := Option.some.inj ((strategy_eq_ok.mp ht).symm.trans ht')
  exact hst

/-- A step of the strategy that leads books that hold the same to such books. -/
theorem meets_onStrategy {α : Type} {S : α → α → Prop} {x y : Action Strategy α}
    (hxy : Meets FundedAlike S x y) :
    Meets (TradeAlike n g) S (onStrategy n x) (onStrategy n y) := by
  intro p q p' q' a b h hp hq
  obtain ⟨s, s', hs, hx, rfl⟩ := onStrategy_eq_ok hp
  obtain ⟨t, t', ht, hy, rfl⟩ := onStrategy_eq_ok hq
  obtain ⟨s₁, t₁, hs₁, ht₁, hst⟩ := h.strategy
  obtain rfl : s = s₁ := Option.some.inj (hs.symm.trans hs₁)
  obtain rfl : t = t₁ := Option.some.inj (ht.symm.trans ht₁)
  obtain ⟨hst', hab⟩ := hxy hst hx hy
  exact ⟨h.put hst', hab⟩

theorem meets_applyFill (f : Fill) :
    Meets FundedAlike Eq (Strategy.applyFill f) (Strategy.applyFill f) := by
  rintro s t s' t' _ _ ⟨hst, hfunded⟩ hs ht
  obtain ⟨b, hb, rfl⟩ := Strategy.onBook_eq hs
  obtain ⟨c, hc, rfl⟩ := Strategy.onBook_eq ht
  have hkept : b.target = s.book.target := by
    simpa [hb] using (Book.Evolves.applyFill s.assets f s.book).target
  rw [hst.assets_eq] at hc
  obtain ⟨hbook, -⟩ := Book.meets_applyFill s.assets f hst.book hb hc
  refine ⟨⟨⟨?_, hbook⟩, ?_⟩, rfl⟩
  · rw [hst.same]
  · rw [hkept]
    exact hfunded

theorem meets_handleFill {f : Fill} (hf : f.strategy = n) :
    Meets (TradeAlike n g) Eq (handleFill f) (handleFill f) := by
  unfold handleFill
  rw [hf]
  refine Meets.bind (meets_onStrategy (meets_applyFill f)) fun _ _ _ => ?_
  refine Meets.bind (Meets.modify fun p q h => ?_) fun _ _ _ => meets_log _ _ _ _
  exact { h with fills := by rw [fillsOf_append, fillsOf_append, h.fills] }

theorem meets_submit (o : Order) :
    Meets (TradeAlike n g) (fun a b => a = b ∧ ∀ f, a = .filled f → f.strategy = o.strategy)
      (submit o) (submit o) := by
  intro p q p' q' a b h hp hq
  have hsame := submit_outcome (h.bar?_eq o.date o.asset) h.commission
  have hkept := (commission_submit p.brokerage (p.venue.getD p.market) o).trans
    (h.commission.trans (commission_submit q.brokerage (q.venue.getD q.market) o).symm)
  rw [hp, hq] at hsame
  obtain rfl : a = b := Except.ok.inj hsame
  refine ⟨?_, rfl, ?_⟩
  · obtain rfl := (congrArg Prod.fst hp).symm
    obtain rfl := (congrArg Prod.fst hq).symm
    exact { h with commission := hkept }
  · rintro f rfl
    exact (execute_filled (submit_filled hp).1).2.1

theorem meets_handleOrder {r : OrderRequest} (hr : r.strategy = n) :
    Meets (TradeAlike n g) Eq (handleOrder r) (handleOrder r) := by
  refine Meets.bind (by rw [hr]; exact meets_strategy n g) fun _ _ _ => ?_
  refine Meets.bind (S := fun a b => a = b ∧ a.strategy = n) (Meets.ofExcept ?_) ?_
  · intro o o' ho ho'
    exact ⟨Except.ok.inj (ho.symm.trans ho'), (validate_eq_ok ho).2.1.trans hr⟩
  rintro o _ ⟨rfl, horder⟩
  refine Meets.bind (Meets.modify fun p q h => ?_) fun _ _ _ => ?_
  · exact { h with counts := (counts_sub p q 0).2.trans h.counts }
  refine Meets.bind (meets_submit o) ?_
  rintro outcome _ ⟨rfl, hfill⟩
  cases outcome with
  | noBar => exact meets_log _ _ _ _
  | unmatched close => exact meets_log _ _ _ _
  | filled f =>
    exact Meets.bind (meets_log _ _ _ _) fun _ _ _ => meets_handleFill ((hfill f rfl).trans horder)

theorem meets_submitTarget (d : Date) (e : Asset × Int) :
    Meets (TradeAlike n g) Eq (submitTarget n d e) (submitTarget n d e) := by
  refine Meets.bind (meets_strategy n g) fun s t hst => ?_
  have hposition : t.position e.1 = s.position e.1 := congrFun hst.1.book.position_eq.symm e.1
  have hpricing : t.pricing = s.pricing := by rw [hst.1.same]
  rw [hposition, hpricing]
  dsimp only
  split
  · exact Meets.pure rfl
  · refine Meets.bind (Meets.read fun _ _ h =>
      .of_eq (s.pricing.prices_agree h.market trivial d _)) ?_
    rintro prices _ rfl
    exact meets_handleOrder rfl

theorem meets_handleSignal (d : Date) (signals : Signals) :
    Meets (TradeAlike n g) Eq (handleSignal d n signals) (handleSignal d n signals) := by
  refine Meets.bind (meets_strategy n g) fun s t hst => ?_
  refine Meets.bind (Meets.modify fun p q h => ?_) fun _ _ _ => ?_
  · exact { h with counts := (counts_sub p q signals.size).1.trans h.counts }
  refine Meets.bind (Meets.read fun _ _ h =>
    hst.1.meets_sizesFor h.market h.fx hst.2 d signals) ?_
  rintro sizes _ rfl
  exact Meets.forEach fun e _ => meets_submitTarget d e

/-- Signals are the same on both sides and leave the capital as it is. -/
theorem meets_signals {d : Date} {market market' : MarketHistory}
    (hmarket : market.SameBars market') :
    Meets (TradeAlike n g) Eq
      (onStrategy n fun s =>
        match s.signals d market with
        | .ok (s, signals) => (s, .ok signals)
        | .error e => (s, .error e))
      (onStrategy n fun s =>
        match s.signals d market' with
        | .ok (s, signals) => (s, .ok signals)
        | .error e => (s, .error e)) := by
  intro p q p' q' signals signals' h hp hq
  obtain ⟨s, t, hs, hfound, rfl⟩ := signals_eq_ok hp
  obtain ⟨s', t', hs', hfound', rfl⟩ := signals_eq_ok hq
  obtain ⟨s₁, s₁', hs₁, hs₁', hss, hfunded⟩ := h.strategy
  obtain rfl : s = s₁ := Option.some.inj (hs.symm.trans hs₁)
  obtain rfl : s' = s₁' := Option.some.inj (hs'.symm.trans hs₁')
  obtain ⟨htt, hsame⟩ := hss.meets_signals hmarket d _ _ hfound hfound'
  refine ⟨h.put ⟨htt, ?_⟩, hsame⟩
  rw [(Strategy.evolves_signals hfound).book.target]
  exact hfunded

/-- What a strategy does on a day, from its signals to its fills. -/
theorem meets_runStrategy (d : Date) (n : String) (g : Int × Int) :
    Meets (TradeAlike n g) Eq (runStrategy d n) (runStrategy d n) := by
  refine Meets.bind Meets.get fun p q h => ?_
  refine Meets.bind (meets_signals h.market) ?_
  rintro signals _ rfl
  split
  · exact meets_handleSignal d signals
  · exact Meets.pure rfl

end Backtesting.Portfolio
