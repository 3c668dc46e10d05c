import Backtesting.Proofs.Portfolio.Rebook
import Backtesting.Proofs.Portfolio.Twin
import Backtesting.Proofs.Portfolio.Worth

/-!
Order does not matter. Two portfolios whose strategies were registered in different orders go
through days whose bars and rates are listed in different orders. Each phase of a day leads
portfolios that hold the same to such portfolios, as long as no sum is rounded whose order of
summands differs: what is credited to a balance by dividends, and what balances and strategies are
worth together.
-/
namespace Backtesting

theorem Strategy.Alike.rebook {s t : Strategy} {b c : Book} (h : s.Alike t) (hb : b.Alike c) :
    Strategy.Alike { s with book := b } { t with book := c } := ⟨by rw [h.same], hb⟩

namespace Portfolio

variable {d : Date} {n : String} {p q p' q' : Portfolio} {day day' : MarketDay}

/-- The portfolios are the same in everything but the order of their strategies, the order and the
digits of balances, and what is written to the journal. -/
structure Reordered (p q : Portfolio) : Prop where
  base : p.base = q.base
  allocator : p.allocator = q.allocator
  venue : p.venue = q.venue
  commission : p.brokerage.commission = q.brokerage.commission
  keys : p.strategies.keys.Perm q.strategies.keys
  strategies : ∀ {n s t}, p.strategies.get? n = some s → q.strategies.get? n = some t → s.Alike t
  market : p.market.SameBars q.market
  fx : p.fx.SameRates q.fx
  equity : Chronicle.Rel Decimal.Alike p.equity.values q.equity.values
  fills : ∀ n, fillsOf n p.fills = fillsOf n q.fills
  brokered : ∀ n, fillsOf n p.brokerage.fills = fillsOf n q.brokerage.fills
  signalCount : p.signalCount = q.signalCount
  orderCount : p.orderCount = q.orderCount
  submitted : p.brokerage.submitted = q.brokerage.submitted
  rejected : p.brokerage.rejected = q.brokerage.rejected

namespace Reordered

theorem exists_strategy (h : Reordered p q) {s : Strategy} (hs : p.strategies.get? n = some s) :
    ∃ t, q.strategies.get? n = some t ∧ s.Alike t := by
  obtain ⟨t, ht⟩ := OrderedMap.mem_keys_iff.mp (h.keys.mem_iff.mp (OrderedMap.mem_keys_of_get? hs))
  exact ⟨t, ht, h.strategies hs ht⟩

/-- Strategies stay alike where their books become alike. -/
theorem rebook (h : Reordered p q) {X Y : String → Strategy → Book → Prop}
    (hkeys : p'.strategies.keys = p.strategies.keys)
    (hp : ∀ {n s}, p.strategies.get? n = some s → ∃ b, X n s b ∧
      p'.strategies.get? n = some { s with book := b })
    (hq : ∀ {n t}, q.strategies.get? n = some t → ∃ c, Y n t c ∧
      q'.strategies.get? n = some { t with book := c })
    (hXY : ∀ {n s t b c}, p.strategies.get? n = some s → q.strategies.get? n = some t →
      s.Alike t → X n s b → Y n t c → b.Alike c) {s t : Strategy}
    (hs : p'.strategies.get? n = some s) (ht : q'.strategies.get? n = some t) : s.Alike t := by
  obtain ⟨s₀, hs₀⟩ := OrderedMap.mem_keys_iff.mp (hkeys ▸ OrderedMap.mem_keys_of_get? hs)
  obtain ⟨t₀, ht₀, hst⟩ := h.exists_strategy hs₀
  obtain ⟨b, hb, hs'⟩ := hp hs₀
  obtain ⟨c, hc, ht'⟩ := hq ht₀
  obtain rfl : s = _ := Option.some.inj (hs.symm.trans hs')
  obtain rfl : t = _ := Option.some.inj (ht.symm.trans ht')
  exact hst.rebook (hXY hs₀ ht₀ hst hb hc)

theorem takeIn (h : Reordered p q) (hday : day.Reorders day')
    (hp : Portfolio.takeIn day p = (p', .ok ())) (hq : Portfolio.takeIn day' q = (q', .ok ())) :
    Reordered p' q' := by
  obtain ⟨market, fx, -, hmarket, hfx, rfl⟩ := takeIn_eq_ok.mp hp
  obtain ⟨market', fx', -, hmarket', hfx', rfl⟩ := takeIn_eq_ok.mp hq
  rw [hday.date] at hmarket' hfx'
  exact { h with
    market := h.market.append hday.bars _ _ hmarket hmarket'
    fx := h.fx.append hday.rates hday.codes _ _ hfx hfx' }

end Reordered

/-- No dividend of the day is rounded off where it is credited. -/
def ReceivesExactly (p : Portfolio) (day : MarketDay) : Prop :=
  ∀ s ∈ p.strategies.values, s.book.ReceivesExactly s.assets day.dividends

instance (p : Portfolio) (day : MarketDay) : Decidable (p.ReceivesExactly day) := by
  delta ReceivesExactly
  infer_instance

theorem Reordered.applyCorporateActions (h : Reordered p q) (hday : day.Reorders day')
    (hp : Portfolio.applyCorporateActions day p = (p', .ok ()))
    (hq : Portfolio.applyCorporateActions day' q = (q', .ok ())) (hexact : p.ReceivesExactly day)
    (hexact' : q.ReceivesExactly day') : Reordered p' q' := by
  have hmarket := (SameStores.of_applyCorporateActions hp).market
  have hmarket' := (SameStores.of_applyCorporateActions hq).market
  obtain ⟨⟨strategies, market, journal, rfl⟩, hkeys, hbooks⟩ := rebooksAll_applyCorporateActions hp
  obtain ⟨⟨strategies', market', journal', rfl⟩, hkeys', hbooks'⟩ :=
    rebooksAll_applyCorporateActions hq
  refine { h with
    keys := ?_
    strategies := h.rebook hkeys hbooks hbooks' fun {n s t b c} hs ht hst hb hc => ?_
    market := ?_ }
  · rw [hkeys, hkeys']
    exact h.keys
  · have hreceives := hexact' t (OrderedMap.mem_values_of_get? ht)
    rw [hst.assets_eq] at hc hreceives
    exact hst.book.act hday hb hc (hexact s (OrderedMap.mem_values_of_get? hs)) hreceives
  · rw [hmarket, hmarket']
    exact h.market.splits hday.splits day.nodup_splits

section Worth

/-- Nothing is rounded where balances are added to what the positions of a strategy are worth. -/
def AddsBalancesExactly (p : Portfolio) (d : Date) : Prop :=
  ∀ s ∈ p.strategies.values, s.book.AddsBalancesExactly s.assets d p.base p.market p.fx

instance (p : Portfolio) (d : Date) : Decidable (p.AddsBalancesExactly d) := by
  delta AddsBalancesExactly
  infer_instance

/-- Nothing is rounded where the strategies are added up. -/
def AddsStrategiesExactly (p : Portfolio) (d : Date) : Prop :=
  Decimal.Along
    (fun total (s : Strategy) => do
      Decimal.lift (total.add (← s.totalValue d p.base p.market p.fx)))
    (fun total s => ∀ x, s.totalValue d p.base p.market p.fx = .ok x → Decimal.Unrounded total x)
    p.strategies.values Decimal.zero

instance (p : Portfolio) (d : Date) : Decidable (p.AddsStrategiesExactly d) := by
  delta AddsStrategiesExactly
  infer_instance

/-- What a strategy adds to what the portfolio is worth. -/
def share (p : Portfolio) (d : Date) (s : Strategy) : Decimal.Extended :=
  (s.totalValue d p.base p.market p.fx).toOption.elim 0 Decimal.extended

theorem extended_totalValue {x : Decimal} (hexact : p.AddsStrategiesExactly d)
    (h : p.totalValue d = .ok x) :
    x.extended = (p.strategies.toList.map fun e => p.share d e.2).sum := by
  have hsum := hexact.extended_eq (g := p.share d) h fun {total s next} _ hfirst hnext => ?_
  · have hzero : Decimal.zero.extended = 0 := congrArg Decimal.Extended.number Decimal.value_zero
    rw [hsum, hzero, zero_add, OrderedMap.values, List.map_map]
    rfl
  · obtain ⟨y, hy, hadd⟩ := Except.bind_eq_ok.mp hnext
    rw [(hfirst y hy).extended_eq (Decimal.lift_eq_ok.mp hadd), share, hy]
    rfl

namespace Reordered

/-- A strategy is worth the same on both sides. -/
theorem meets_strategyValue (h : Reordered p q) (hp : p.AddsBalancesExactly d)
    (hq : q.AddsBalancesExactly d) {s t : Strategy} (hs : p.strategies.get? n = some s)
    (ht : q.strategies.get? n = some t) :
    Except.Meets Decimal.Alike (s.totalValue d p.base p.market p.fx)
      (t.totalValue d q.base q.market q.fx) := by
  have hst := h.strategies hs ht
  have hexact := hq t (OrderedMap.mem_values_of_get? ht)
  rw [hst.assets_eq, ← h.base] at hexact
  unfold Strategy.totalValue
  rw [hst.assets_eq, ← h.base]
  exact hst.book.meets_totalValue h.market h.fx (hp s (OrderedMap.mem_values_of_get? hs)) hexact

/-- The portfolios are worth the same, in whatever order their strategies are added up. -/
theorem meets_totalValue (h : Reordered p q) (hp : p.AddsBalancesExactly d)
    (hq : q.AddsBalancesExactly d) (hp' : p.AddsStrategiesExactly d)
    (hq' : q.AddsStrategiesExactly d) :
    Except.Meets Decimal.Alike (p.totalValue d) (q.totalValue d) := by
  intro x y hx hy
  rw [Decimal.Alike, extended_totalValue hp' hx, extended_totalValue hq' hy]
  refine OrderedMap.sum_eq (f := fun _ s => p.share d s) (g := fun _ s => q.share d s) h.keys ?_
  intro n s t hs ht
  obtain ⟨v, hv⟩ := Strategies.exists_totalValue hx hs
  obtain ⟨w, hw⟩ := Strategies.exists_totalValue hy ht
  rw [share, share, hv, hw]
  exact h.meets_strategyValue hp hq hs ht v w hv hw

/-- Every strategy has the same share of the capital. -/
theorem alike_shares (h : Reordered p q) (hp : p.AddsBalancesExactly d)
    (hq : q.AddsBalancesExactly d)
    (hp' : p.allocator = .equalWeight → p.AddsStrategiesExactly d)
    (hq' : q.allocator = .equalWeight → q.AddsStrategiesExactly d) {x y : Decimal}
    (hx : Shares p.allocator p.strategies d p.base p.market p.fx n x)
    (hy : Shares q.allocator q.strategies d q.base q.market q.fx n y) : x.Alike y := by
  rw [← h.allocator] at hy hq'
  cases ha : p.allocator with
  | selfFunded =>
    rw [ha] at hx hy
    obtain ⟨s, hs, hx⟩ := hx
    obtain ⟨t, ht, hy⟩ := hy
    exact h.meets_strategyValue hp hq hs ht x y hx hy
  | equalWeight =>
    rw [ha] at hx hy
    obtain ⟨total, htotal, hx⟩ := hx
    obtain ⟨total', htotal', hy⟩ := hy
    have hsize : p.strategies.size = q.strategies.size := by
      simpa [OrderedMap.keys, OrderedMap.size] using h.keys.length_eq
    rw [← hsize] at hy
    have htotals := h.meets_totalValue hp hq (hp' ha) (hq' ha) total total' htotal htotal'
    exact Decimal.alike_div htotals hx hy
  | fixed capital =>
    rw [ha] at hx
    exact absurd hx id

theorem allocateCapital (h : Reordered p q)
    (ha : p.allocator = .selfFunded ∨ p.allocator = .equalWeight)
    (hp : Portfolio.allocateCapital d p = (p', .ok ()))
    (hq : Portfolio.allocateCapital d q = (q', .ok ())) (hexact : p.AddsBalancesExactly d)
    (hexact' : q.AddsBalancesExactly d)
    (hsum : p.allocator = .equalWeight → p.AddsStrategiesExactly d)
    (hsum' : q.allocator = .equalWeight → q.AddsStrategiesExactly d) :
    Reordered p' q' ∧
      ∀ {n s}, p'.strategies.get? n = some s → s.book.target.isEmpty = false := by
  obtain ⟨strategies, rfl, hkeys, -⟩ := allocateCapital_eq_ok hp
  obtain ⟨strategies', rfl, hkeys', -⟩ := allocateCapital_eq_ok hq
  have htold : ∀ {n s}, p.strategies.get? n = some s → ∃ b,
      (∃ x, Shares p.allocator p.strategies d p.base p.market p.fx n x ∧
        b = { s.book with target := OrderedMap.empty.put p.base x }) ∧
      strategies.get? n = some { s with book := b } := fun hs => by
    obtain ⟨x, hx, hs'⟩ := target_of_allocateCapital ha hp hs
    exact ⟨_, ⟨x, hx, rfl⟩, hs'⟩
  have htold' : ∀ {n t}, q.strategies.get? n = some t → ∃ c,
      (∃ y, Shares q.allocator q.strategies d q.base q.market q.fx n y ∧
        c = { t.book with target := OrderedMap.empty.put q.base y }) ∧
      strategies'.get? n = some { t with book := c } := fun ht => by
    obtain ⟨y, hy, ht'⟩ := target_of_allocateCapital (h.allocator ▸ ha) hq ht
    exact ⟨_, ⟨y, hy, rfl⟩, ht'⟩
  refine ⟨{ h with
    keys := ?_
    strategies := h.rebook hkeys htold htold' fun {n s t b c} hs ht hst hb hc => ?_ }, ?_⟩
  · rw [hkeys, hkeys']
    exact h.keys
  · obtain ⟨x, hx, rfl⟩ := hb
    obtain ⟨y, hy, rfl⟩ := hc
    have hxy := h.alike_shares hexact hexact' hsum hsum' hx hy
    exact ⟨hst.book.positions, hst.book.cash, .cons ⟨h.base, hxy⟩ .nil⟩
  · intro n s hs
    obtain ⟨s₀, hs₀⟩ := OrderedMap.mem_keys_iff.mp (hkeys ▸ OrderedMap.mem_keys_of_get? hs)
    obtain ⟨b, ⟨x, -, rfl⟩, hs'⟩ := htold hs₀
    obtain rfl : s = _ := Option.some.inj (hs.symm.trans hs')
    rfl

theorem recordEquity (h : Reordered p q) {v w : Decimal}
    (hp : Portfolio.recordEquity d p = (p', .ok v)) (hq : Portfolio.recordEquity d q = (q', .ok w))
    (hexact : p.AddsBalancesExactly d) (hexact' : q.AddsBalancesExactly d)
    (hsum : p.AddsStrategiesExactly d) (hsum' : q.AddsStrategiesExactly d) : Reordered p' q' := by
  obtain ⟨hv, -, rfl⟩ := recordEquity_eq_ok.mp hp
  obtain ⟨hw, -, rfl⟩ := recordEquity_eq_ok.mp hq
  exact { h with
    equity := h.equity.put d (h.meets_totalValue hexact hexact' hsum hsum' v w hv hw) }

end Reordered
end Worth

section Trading

/-- Fills that are the same for every strategy are as many. -/
theorem length_eq_of_fillsOf {fs gs : List Fill} (h : ∀ n, fillsOf n fs = fillsOf n gs) :
    fs.length = gs.length := by
  refine (List.perm_iff_count.mpr fun f => ?_).length_eq
  have hcount : ∀ l : List Fill, l.count f = (fillsOf f.strategy l).count f := fun l =>
    (List.count_filter (by simp)).symm
  rw [hcount fs, hcount gs, h]

theorem Reordered.tradeAlike (h : Reordered p q) {s : Strategy} (hs : p.strategies.get? n = some s)
    (hfunded : s.book.target.isEmpty = false) : TradeAlike n (p.counts - q.counts) p q := by
  obtain ⟨t, ht, hst⟩ := h.exists_strategy hs
  exact ⟨⟨s, t, hs, ht, hst, hfunded⟩, h.market, h.fx, h.venue, h.commission, h.fills n, rfl⟩

/-- What a strategy does on the day it does on both sides. -/
theorem Reordered.ran (h : Reordered p q)
    (hfunded : ∀ {n s}, p.strategies.get? n = some s → s.book.target.isEmpty = false)
    (hsteps : ∀ n ∈ p.strategies.keys, ∃ r, runStrategy d n p = (r, .ok ()) ∧ SamePart n r p')
    (hsteps' : ∀ n ∈ q.strategies.keys, ∃ r, runStrategy d n q = (r, .ok ()) ∧ SamePart n r q') :
    ∀ n ∈ p.strategies.keys, fillsOf n p'.fills = fillsOf n q'.fills ∧
      (∀ {s t}, p'.strategies.get? n = some s → q'.strategies.get? n = some t → s.Alike t) ∧
      counts (runStrategy d n p).1 - counts p = counts (runStrategy d n q).1 - counts q := by
  intro n hn
  obtain ⟨r, hr, hpart⟩ := hsteps n hn
  obtain ⟨r', hr', hpart'⟩ := hsteps' n (h.keys.mem_iff.mp hn)
  obtain ⟨s, hs⟩ := OrderedMap.mem_keys_iff.mp hn
  obtain ⟨htrade, -⟩ := meets_runStrategy d n _ (h.tradeAlike hs (hfunded hs)) hr hr'
  obtain ⟨s', t', hs', ht', hst, -⟩ := htrade.strategy
  refine ⟨?_, fun hs ht => ?_, ?_⟩
  · rw [hpart.2, hpart'.2, htrade.fills]
  · rw [hpart.1, hs'] at hs
    rw [hpart'.1, ht'] at ht
    rw [← Option.some.inj hs, ← Option.some.inj ht]
    exact hst
  · rw [hr, hr', sub_eq_sub_iff_sub_eq_sub]
    exact htrade.counts

/-- The same fills for every strategy and as many orders leave the same accounts. -/
theorem Reordered.accounts (h : Reordered p q) {fs gs : List Fill} (hp : Accounts p p' fs)
    (hq : Accounts q q' gs) (hfills : ∀ n, fillsOf n p'.fills = fillsOf n q'.fills)
    (horders : p'.orderCount = q'.orderCount) :
    (∀ n, fillsOf n p'.brokerage.fills = fillsOf n q'.brokerage.fills) ∧
      p'.brokerage.submitted = q'.brokerage.submitted ∧
      p'.brokerage.rejected = q'.brokerage.rejected := by
  -- only the fills of this day are sought, so those before it are cancelled
  have hnew : ∀ n, fillsOf n fs = fillsOf n gs := by
    intro n
    have hall := hfills n
    rw [hp.fills, hq.fills, fillsOf_append, fillsOf_append, h.fills] at hall
    exact List.append_cancel_left hall
  have hlength := length_eq_of_fillsOf hnew
  have hbefore := h.orderCount
  have hsubmitted := h.submitted
  have hrejected := h.rejected
  have hcounted := hp.submitted
  have hcounted' := hq.submitted
  have hsettled := hp.settled
  have hsettled' := hq.settled
  refine ⟨fun n => ?_, by omega, by omega⟩
  rw [hp.brokered, hq.brokered, fillsOf_append, fillsOf_append, h.brokered, hnew]

/-- The strategies may trade in any order. -/
theorem Reordered.runStrategies (h : Reordered p q)
    (hfunded : ∀ {n s}, p.strategies.get? n = some s → s.book.target.isEmpty = false)
    (hp : Action.forEach p.strategies.keys (runStrategy d) p = (p', .ok ()))
    (hq : Action.forEach q.strategies.keys (runStrategy d) q = (q', .ok ())) :
    Reordered p' q' := by
  have hown : ∀ n, IsOwn (id n) (runStrategy d n) :=
    fun n => ⟨fun hr => hr.runStrategy d, fun hR => hR.runStrategy d⟩
  have hnodup : ∀ p : Portfolio, (p.strategies.keys.map id).Nodup := fun p => by
    rw [List.map_id]
    exact p.strategies.nodup
  obtain ⟨hstage, hcounts, hothers, hsteps⟩ := apart hown (hnodup p) hp
  obtain ⟨hstage', hcounts', hothers', hsteps'⟩ := apart hown (hnodup q) hq
  rw [List.map_id] at hothers hothers'
  have hran := h.ran hfunded hsteps hsteps'
  have hfills : ∀ n, fillsOf n p'.fills = fillsOf n q'.fills := by
    intro n
    by_cases hn : n ∈ p.strategies.keys
    · exact (hran n hn).1
    · rw [(hothers n hn).2, (hothers' n (hn ∘ h.keys.mem_iff.mpr)).2, h.fills]
  -- the gains of the single strategies are the same numbers in another order
  have hsame : p'.counts = q'.counts := by
    have hbefore : p.counts = q.counts := by
      rw [counts, counts, h.signalCount, h.orderCount]
    rw [hcounts, hcounts', hbefore,
      ← (h.keys.map fun n => counts (runStrategy d n q).1 - counts q).sum_eq]
    congr 2
    apply List.map_congr_left
    intro n hn
    rw [← (hran n hn).2.2, hbefore]
  have hsignals : p'.signalCount = q'.signalCount := Int.ofNat.inj (congrArg Prod.fst hsame)
  have horders : p'.orderCount = q'.orderCount := Int.ofNat.inj (congrArg Prod.snd hsame)
  obtain ⟨fs, htrades, -⟩ := forEach_runStrategy p.strategies.nodup hp
  obtain ⟨gs, htrades', -⟩ := forEach_runStrategy q.strategies.nodup hq
  obtain ⟨hbrokered, hsubmitted, hrejected⟩ :=
    h.accounts htrades.toAccounts htrades'.toAccounts hfills horders
  exact {
    base := by rw [hstage.base, hstage'.base, h.base]
    allocator := by rw [hstage.allocator, hstage'.allocator, h.allocator]
    venue := by rw [hstage.venue, hstage'.venue, h.venue]
    commission := by rw [hstage.commission, hstage'.commission, h.commission]
    keys := by
      rw [hstage.keys, hstage'.keys]
      exact h.keys
    strategies := fun hs ht =>
      (hran _ (hstage.keys ▸ OrderedMap.mem_keys_of_get? hs)).2.1 hs ht
    market := by
      rw [hstage.market, hstage'.market]
      exact h.market
    fx := by
      rw [hstage.fx, hstage'.fx]
      exact h.fx
    equity := by
      rw [hstage.equity, hstage'.equity]
      exact h.equity
    fills := hfills
    brokered := hbrokered
    signalCount := hsignals
    orderCount := horders
    submitted := hsubmitted
    rejected := hrejected }

end Trading

section Run

/-- Nothing is rounded on a day in the sums whose summands may come in another order. -/
@[mk_iff]
structure SumsExactly (day : MarketDay) (p : Portfolio) : Prop where
  dividends : p.ReceivesExactly day
  capital : (beforeTrading day p).AddsBalancesExactly day.date
  shares : p.allocator = .equalWeight → (beforeTrading day p).AddsStrategiesExactly day.date
  balances : (handleMarket day p).1.AddsBalancesExactly day.date
  equity : (handleMarket day p).1.AddsStrategiesExactly day.date

instance : ∀ a : Allocator, Decidable (a = .equalWeight)
  | .equalWeight => isTrue rfl
  | .selfFunded => isFalse nofun
  | .fixed _ => isFalse nofun

instance (day : MarketDay) (p : Portfolio) : Decidable (SumsExactly day p) :=
  decidable_of_iff _ (sumsExactly_iff day p).symm

/-- Nothing is rounded in such sums on any day of a run. -/
def RunsExactly : List MarketDay → Portfolio → Prop
  | [], _ => True
  | day :: days, p => SumsExactly day p ∧ RunsExactly days (handleMarket day p).1

instance decidableRunsExactly : ∀ days p, Decidable (RunsExactly days p)
  | [], _ => isTrue trivial
  | day :: days, p =>
      have := decidableRunsExactly days (handleMarket day p).1
      inferInstanceAs (Decidable (SumsExactly day p ∧ RunsExactly days (handleMarket day p).1))

theorem allocator_of_setup_eq (h : p'.setup = p.setup) : p'.allocator = p.allocator :=
  (config_of_setup_eq h).2.2.2.1

theorem allocator_beforeTrading {p₁ p₂ : Portfolio} (htake : takeIn day p = (p₁, .ok ()))
    (hact : applyCorporateActions day p₁ = (p₂, .ok ())) : p₂.allocator = p.allocator :=
  allocator_of_setup_eq (beforeTrading_eq htake hact ▸ setup_beforeTrading day p)

/-- What is asked of a day, in the states where the sums are taken. -/
theorem SumsExactly.phases {p₁ p₂ p₄ : Portfolio} {v : Decimal} (h : SumsExactly day p)
    (htake : takeIn day p = (p₁, .ok ())) (hact : applyCorporateActions day p₁ = (p₂, .ok ()))
    (hrecord : recordEquity day.date p₄ = (p', .ok v)) (hp : handleMarket day p = (p', .ok ())) :
    p₁.ReceivesExactly day ∧ p₂.AddsBalancesExactly day.date ∧
      (p₂.allocator = .equalWeight → p₂.AddsStrategiesExactly day.date) ∧
      p₄.AddsBalancesExactly day.date ∧ p₄.AddsStrategiesExactly day.date := by
  obtain ⟨hdividends, hcapital, hshares, hbalances, hequity⟩ := h
  have hallocator := allocator_beforeTrading htake hact
  rw [beforeTrading_eq htake hact] at hcapital hshares
  rw [hp] at hbalances hequity
  obtain ⟨market, fx, -, -, -, rfl⟩ := takeIn_eq_ok.mp htake
  obtain ⟨-, -, rfl⟩ := recordEquity_eq_ok.mp hrecord
  exact ⟨hdividends, hcapital, fun ha => hshares (hallocator ▸ ha), hbalances, hequity⟩

/-- One day keeps the portfolios the same. -/
theorem Reordered.handleMarket (h : Reordered p q)
    (ha : p.allocator = .selfFunded ∨ p.allocator = .equalWeight) (hday : day.Reorders day')
    (hp : Portfolio.handleMarket day p = (p', .ok ()))
    (hq : Portfolio.handleMarket day' q = (q', .ok ())) (hexact : SumsExactly day p)
    (hexact' : SumsExactly day' q) : Reordered p' q' := by
  obtain ⟨p₁, p₂, p₃, p₄, v, htake, hact, hallocate, hrun, hrecord⟩ := handleMarket_eq_ok.mp hp
  obtain ⟨q₁, q₂, q₃, q₄, w, htake', hact', hallocate', hrun', hrecord'⟩ :=
    handleMarket_eq_ok.mp hq
  obtain ⟨hdividends, hcapital, hshares, hbalances, hequity⟩ :=
    hexact.phases htake hact hrecord hp
  obtain ⟨hdividends', hcapital', hshares', hbalances', hequity'⟩ :=
    hexact'.phases htake' hact' hrecord' hq
  rw [hday.date] at hallocate' hrun' hrecord' hcapital' hshares' hbalances' hequity'
  have h₁ := h.takeIn hday htake htake'
  have h₂ := h₁.applyCorporateActions hday hact hact' hdividends hdividends'
  have hallocator := allocator_beforeTrading htake hact
  obtain ⟨h₃, hfunded⟩ := h₂.allocateCapital (hallocator ▸ ha) hallocate hallocate' hcapital
    hcapital' hshares hshares'
  have h₄ := h₃.runStrategies hfunded hrun hrun'
  exact h₄.recordEquity hrecord hrecord' hbalances hbalances' hequity hequity'

theorem Reordered.run {days days' : List MarketDay} (h : Reordered p q)
    (ha : p.allocator = .selfFunded ∨ p.allocator = .equalWeight)
    (hdays : List.Forall₂ MarketDay.Reorders days days')
    (hp : Action.forEach days Portfolio.handleMarket p = (p', .ok ()))
    (hq : Action.forEach days' Portfolio.handleMarket q = (q', .ok ()))
    (hexact : RunsExactly days p) (hexact' : RunsExactly days' q) : Reordered p' q' := by
  induction hdays generalizing p q with
  | nil =>
    obtain rfl := Action.forEach_nil_eq_ok.mp hp
    obtain rfl := Action.forEach_nil_eq_ok.mp hq
    exact h
  | @cons day day' days days' hday _ ih =>
    obtain ⟨u, hu, hrest⟩ := Action.forEach_cons_eq_ok.mp hp
    obtain ⟨v, hv, hrest'⟩ := Action.forEach_cons_eq_ok.mp hq
    obtain ⟨hfirst, hlater⟩ := hexact
    obtain ⟨hfirst', hlater'⟩ := hexact'
    rw [hu] at hlater
    rw [hv] at hlater'
    have hsetup : u.setup = p.setup := by
      simpa [hu] using allowsEvents_setup.handleMarket day p
    exact ih (h.handleMarket ha hday hu hv hfirst hfirst') (allocator_of_setup_eq hsetup ▸ ha)
      hrest hrest' hlater hlater'

section Build

variable {name : String} {base : Document} {named named' : List (String × Strategy)}
  {allocator : Allocator} {commission : Commission} {fxBase : Option Currency}
  {explicit : List (Asset × Document)} {venue : Option MarketHistory}

/-- Strategies may be registered in any order. -/
theorem reordered_of_build (hnamed : named.Perm named')
    (h : build name base named allocator commission fxBase explicit venue = .ok p)
    (h' : build name base named' allocator commission fxBase explicit venue = .ok q) :
    Reordered p q := by
  obtain ⟨hbase, -, -, -, hfresh⟩ := build_eq_ok.mp h
  obtain ⟨hbase', -, -, -, hfresh'⟩ := build_eq_ok.mp h'
  have hsame : p.base = q.base := Except.ok.inj (hbase.symm.trans hbase')
  obtain ⟨hlist, hallocator⟩ := strategies_of_build h
  obtain ⟨hlist', hallocator'⟩ := strategies_of_build h'
  obtain ⟨hmarket, hfx, hequity, hfills, hsignals, horders, hbrokerage⟩ := history_of_build h
  obtain ⟨hmarket', hfx', hequity', hfills', hsignals', horders', hbrokerage'⟩ :=
    history_of_build h'
  have hperm : p.strategies.toList.Perm q.strategies.toList := by rwa [hlist, hlist']
  exact {
    base := hsame
    allocator := hallocator.trans hallocator'.symm
    venue := by rw [hfresh, hfresh']
    commission := by rw [hbrokerage, hbrokerage']
    keys := hperm.map Prod.fst
    strategies := by
      intro n s t hs ht
      rw [OrderedMap.get?_of_perm hperm, ht] at hs
      rw [← Option.some.inj hs]
      exact .of_book (.refl t.book)
    market := by
      rw [hmarket, hmarket']
      exact .refl _
    fx := by
      rw [hfx, hfx', hsame]
      exact .refl _
    equity := by
      rw [hequity, hequity']
      exact .nil
    fills := by
      rw [hfills, hfills']
      exact fun _ => rfl
    brokered := by
      rw [hbrokerage, hbrokerage']
      exact fun _ => rfl
    signalCount := hsignals.trans hsignals'.symm
    orderCount := horders.trans horders'.symm
    submitted := by rw [hbrokerage, hbrokerage']
    rejected := by rw [hbrokerage, hbrokerage'] }

/-- Order does not matter. Where strategies are registered in another order and the bars and the
rates of the days are listed in another order, and both runs go through without error and without
rounding a sum whose order may differ, every strategy ends with the same positions, cash, capital
and memory after the same fills; the counts are the same, and so is the equity of every day. -/
theorem order_irrelevant {days days' : List MarketDay}
    (hallocator : allocator = .selfFunded ∨ allocator = .equalWeight)
    (hnamed : named.Perm named') (hdays : List.Forall₂ MarketDay.Reorders days days')
    (hbuild : build name base named allocator commission fxBase explicit venue = .ok p)
    (hbuild' : build name base named' allocator commission fxBase explicit venue = .ok q)
    (hp : Action.forEach days Portfolio.handleMarket p = (p', .ok ()))
    (hq : Action.forEach days' Portfolio.handleMarket q = (q', .ok ()))
    (hexact : RunsExactly days p) (hexact' : RunsExactly days' q) : Reordered p' q' :=
  (reordered_of_build hnamed hbuild hbuild').run ((strategies_of_build hbuild).2 ▸ hallocator)
    hdays hp hq hexact hexact'

end Build

/-- Two strategies that share their capital, over two days of which the second one brings dividends
and splits, with everything listed the other way round. -/
theorem order_irrelevant_holding :
    let paying : Bar := ⟨⟨10, 10, 10, 10, 10, 100, 1, 2⟩, rfl⟩
    let days (assets : List Asset) (rates : List (String × Amount)) : List MarketDay :=
      [⟨⟨2024, 1, 2, by decide, by decide, by decide⟩,
          OrderedMap.ofList (assets.map (·, Bar.flat)), rates⟩,
        ⟨⟨2024, 1, 3, by decide, by decide, by decide⟩,
          OrderedMap.ofList (assets.map (·, paying)), rates⟩]
    let eur : String × Amount := ("EUR", .known (.finite false 11 (-1)))
    let gbp : String × Amount := ("GBP", .known (.finite false 125 (-2)))
    let p : Portfolio := { holding ["A", "B"] with allocator := .equalWeight }
    let q : Portfolio := { holding ["B", "A"] with allocator := .equalWeight }
    ∃ p' q', Action.forEach (days ["A", "B"] [eur, gbp]) handleMarket p = (p', .ok ()) ∧
      Action.forEach (days ["B", "A"] [gbp, eur]) handleMarket q = (q', .ok ()) ∧
      Reordered p' q' ∧ p'.fills.map (·.strategy) = ["A", "B"] ∧
      q'.fills.map (·.strategy) = ["B", "A"] := by
  intro paying days eur gbp p q
  have hok : (Action.forEach (days ["A", "B"] [eur, gbp]) handleMarket p).2.toBool = true := by
    decide +kernel
  have hok' : (Action.forEach (days ["B", "A"] [gbp, eur]) handleMarket q).2.toBool = true := by
    decide +kernel
  have hcodes : ([eur, gbp].map Prod.fst).Nodup := by decide
  have hday : ∀ d bar, MarketDay.Reorders
      ⟨d, OrderedMap.ofList (["A", "B"].map (·, bar)), [eur, gbp]⟩
      ⟨d, OrderedMap.ofList (["B", "A"].map (·, bar)), [gbp, eur]⟩ := fun d bar =>
    ⟨rfl, .swap .., .swap .., hcodes⟩
  have hbuild : build "holding" (.text "USD")
      [("A", Strategy.holder "A"), ("B", Strategy.holder "B")]
      .equalWeight Commission.standard none [] none = .ok p := rfl
  have hbuild' : build "holding" (.text "USD")
      [("B", Strategy.holder "B"), ("A", Strategy.holder "A")]
      .equalWeight Commission.standard none [] none = .ok q := rfl
  refine ⟨_, _, Action.eq_ok_of_toBool hok, Action.eq_ok_of_toBool hok', ?_, by decide +kernel,
    by decide +kernel⟩
  exact order_irrelevant (Or.inr rfl) (.swap ..) (.cons (hday _ _) (.cons (hday _ _) .nil)) hbuild
    hbuild' (Action.eq_ok_of_toBool hok) (Action.eq_ok_of_toBool hok') (by decide +kernel)
    (by decide +kernel)

end Run
end Portfolio
end Backtesting
