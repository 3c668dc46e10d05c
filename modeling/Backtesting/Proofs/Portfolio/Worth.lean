import Backtesting.Proofs.Chronicle
import Backtesting.Proofs.Portfolio.Audit
import Backtesting.Proofs.Strategy.Worth

/-!
What a portfolio is exactly worth. Trading moves it from money into positions and back; all that is
lost on the way is what the fills cost, the commissions and the distances of their prices from the
closes of the day.
-/
namespace Backtesting

namespace Portfolio

open Backtesting.Action (Keeps bind_eq_ok)

variable {d : Date} {n : String} {p q : Portfolio} {f : Fill} {fs : List Fill}

/-- Every fill belongs to one strategy. -/
theorem sum_fillsOf {ns : List String} (hns : ns.Nodup) (h : ∀ f ∈ fs, f.strategy ∈ ns)
    (g : Fill → ℚ) : (ns.map fun n => ((fillsOf n fs).map g).sum).sum = (fs.map g).sum := by
  induction fs with
  | nil => simp [fillsOf]
  | cons f fs ih =>
    have hsplit : ∀ n, ((fillsOf n (f :: fs)).map g).sum =
        if n = f.strategy then g f + ((fillsOf n fs).map g).sum
        else ((fillsOf n fs).map g).sum := by
      intro n
      by_cases hn : n = f.strategy
      · simp [fillsOf, hn]
      · simp [fillsOf, hn, Ne.symm hn]
    have hcount : ns.count f.strategy = 1 :=
      List.count_eq_one_of_mem hns (h f List.mem_cons_self)
    have hrest := ih fun f' hf' => h f' (List.mem_cons_of_mem f hf')
    simp only [hsplit]
    rw [List.sum_map_ite_eq, hcount, one_nsmul, hrest, List.map_cons, List.sum_cons]
    ring

def worth (p : Portfolio) (d : Date) : ℚ :=
  (p.strategies.values.map fun s => s.book.worth s.assets d p.market p.fx).sum

/-- Nothing is rounded where a strategy is valued and added to a total. -/
def ExactShare (p : Portfolio) (d : Date) (total : Decimal) (s : Strategy) : Prop :=
  s.book.ValuedExactly s.assets d p.base p.market p.fx ∧
    ∀ x, s.totalValue d p.base p.market p.fx = .ok x → Decimal.ExactSum total x

instance (p : Portfolio) (d : Date) (total : Decimal) (s : Strategy) :
    Decidable (p.ExactShare d total s) := by
  delta ExactShare
  infer_instance

/-- Nothing is rounded where the portfolio is valued. -/
def ValuedExactly (p : Portfolio) (d : Date) : Prop :=
  Decimal.Along
    (fun total (s : Strategy) => do
      Decimal.lift (total.add (← s.totalValue d p.base p.market p.fx)))
    (p.ExactShare d) p.strategies.values Decimal.zero

instance (p : Portfolio) (d : Date) : Decidable (p.ValuedExactly d) := by
  delta ValuedExactly
  infer_instance

theorem value_totalValue (hbase : p.fx.base = p.base) (h : p.ValuedExactly d) {x : Decimal}
    (hx : p.totalValue d = .ok x) : x.IsFinite ∧ x.value = p.worth d := by
  have hzero : Decimal.zero.IsFinite := trivial
  have hsum := h.value_eq (g := fun s => s.book.worth s.assets d p.market p.fx) hzero hx
    fun {total s next} hexact _ hnext => by
      obtain ⟨y, hy, hadd⟩ := Except.bind_eq_ok.mp hnext
      obtain ⟨hfinite, hvalue⟩ := hexact.2 y hy next (Decimal.lift_eq_ok.mp hadd)
      exact ⟨hfinite, by rw [hvalue, (Book.value_totalValue hbase hexact.1 hy).2]⟩
  rw [Decimal.value_zero, zero_add] at hsum
  exact hsum

/-- What a fill costs the portfolio, nothing where its strategy is unknown. -/
def costOf (p : Portfolio) (d : Date) (f : Fill) : ℚ :=
  ((p.strategies.get? f.strategy).map fun s => f.cost s.assets d p.market p.fx).getD 0

theorem costOf_fillsOf {s : Strategy} (hs : p.strategies.get? n = some s) :
    ((fillsOf n fs).map (p.costOf d)).sum =
      ((fillsOf n fs).map fun f => f.cost s.assets d p.market p.fx).sum := by
  congr 1
  apply List.map_congr_left
  intro f hf
  have hname : f.strategy = n := by simpa [fillsOf] using (List.mem_filter.mp hf).2
  simp [costOf, hname, hs]

/-- Trading takes away what the fills cost, and nothing else. -/
theorem Trades.worth_eq (h : Trades d p q fs) (hmarket : q.market = p.market) (hfx : q.fx = p.fx)
    (hexact : ∀ n s, p.strategies.get? n = some s →
      Book.CreditedExactly s.assets (fillsOf n fs) s.book) :
    q.worth d = p.worth d - (fs.map (p.costOf d)).sum := by
  have hnodup : p.strategies.keys.Nodup := p.strategies.nodup
  unfold worth
  rw [eq_sub_iff_add_eq, OrderedMap.sum_values, OrderedMap.sum_values, h.keys,
    ← sum_fillsOf hnodup h.known, ← List.sum_map_add]
  congr 1
  apply List.map_congr_left
  intro n hn
  obtain ⟨s, hs⟩ := OrderedMap.mem_keys_iff.mp hn
  obtain ⟨t, ht, hsetup, hbook⟩ := h.books hs
  have hworth : t.book.worth s.assets d p.market p.fx = s.book.worth s.assets d p.market p.fx -
      ((fillsOf n fs).map fun f => f.cost s.assets d p.market p.fx).sum :=
    Book.worth_applyFills hbook (hexact n s hs)
  rw [costOf_fillsOf hs, hs, ht, Option.map_some, Option.map_some, Option.getD_some,
    Option.getD_some, Strategy.assets_of_setup_eq hsetup, hmarket, hfx, hworth]
  ring

/-- `x` is what the fill costs: its commission and the distance of its price from the close of the
day, in the base currency. -/
def Costs (p : Portfolio) (d : Date) (f : Fill) (x : ℚ) : Prop :=
  ∃ s c bar r, p.strategies.get? f.strategy = some s ∧ s.assets.get? f.asset = some c ∧
    p.market.bar? d f.asset = some bar ∧ p.fx.rate d c = .ok r ∧
    x = (f.commission.value + f.signedQuantity * (f.price.value - bar.close.value)) * r.value

theorem pairwise_fillsOf (h : OncePerAsset fs) (n : String) :
    (fillsOf n fs).Pairwise fun f g => f.asset ≠ g.asset := by
  refine (List.Pairwise.filter _ h).imp_of_mem fun {f g} hf hg hne hsame => ?_
  have hname : f.strategy = n := by simpa using (List.mem_filter.mp hf).2
  have hname' : g.strategy = n := by simpa using (List.mem_filter.mp hg).2
  exact hne ⟨hname.trans hname'.symm, hsame⟩

theorem signedQuantity_ne_zero (h : 0 < f.quantity) : f.signedQuantity ≠ 0 := by
  unfold Fill.signedQuantity
  cases f.action <;> simp [TradeAction.sign] <;> omega

/-- What is traded is held before or after, and what is held has been valued at a close and a rate
of the day. -/
theorem Trades.costs_costOf (h : Trades d p q fs) (honce : OncePerAsset fs)
    (hmarket : q.market = p.market) (hfx : q.fx = p.fx) (hbase : p.fx.base = p.base)
    (hp : ∀ n s, p.strategies.get? n = some s →
      ∃ x, s.totalValue d p.base p.market p.fx = .ok x)
    (hq : ∀ n t, q.strategies.get? n = some t →
      ∃ x, t.totalValue d p.base p.market p.fx = .ok x) (hf : f ∈ fs) :
    q.Costs d f (p.costOf d f) := by
  obtain ⟨s, hs⟩ := OrderedMap.mem_keys_iff.mp (h.known f hf)
  obtain ⟨t, ht, hsetup, hbook⟩ := h.books hs
  have hassets := Strategy.assets_of_setup_eq hsetup
  have hown : f ∈ fillsOf f.strategy fs := List.mem_filter.mpr ⟨hf, by simp⟩
  have hmoved := Book.position_of_mem hbook (pairwise_fillsOf honce f.strategy) hown
  have hquantity := signedQuantity_ne_zero (h.positive f hf)
  have hlisted : ∃ c bar r, s.assets.get? f.asset = some c ∧
      p.market.bar? d f.asset = some bar ∧ p.fx.rate d c = .ok r := by
    by_cases hheld : s.book.position f.asset = 0
    · have hheld' : t.book.position f.asset ≠ 0 := by
        rw [hmoved, hheld, zero_add]
        exact hquantity
      obtain ⟨x, hx⟩ := hq f.strategy t ht
      rw [← hassets]
      exact Book.listed_of_position_ne_zero hbase hx hheld'
    · obtain ⟨x, hx⟩ := hp f.strategy s hs
      exact Book.listed_of_position_ne_zero hbase hx hheld
  obtain ⟨c, bar, r, hc, hbar, hr⟩ := hlisted
  refine ⟨t, c, bar, r, ht, by rwa [hassets], by rwa [hmarket], by rwa [hfx], ?_⟩
  simp [costOf, hs, Fill.cost, MarketHistory.closeOn, hbar, Listings.rateOn, hc,
    FxHistory.rateOn, hr]

theorem worth_allocateCapital (h : allocateCapital d p = (q, .ok ())) :
    q.worth d = p.worth d := by
  obtain ⟨strategies, rfl, hkeys, hbooks⟩ := allocateCapital_eq_ok h
  unfold worth
  dsimp only
  rw [OrderedMap.sum_values, OrderedMap.sum_values, hkeys]
  congr 1
  apply List.map_congr_left
  intro n hn
  obtain ⟨s, hs⟩ := OrderedMap.mem_keys_iff.mp hn
  obtain ⟨t, ht, hsetup, hsame⟩ := hbooks n s hs
  rw [hs, ht, Option.map_some, Option.map_some, Strategy.assets_of_setup_eq hsetup,
    hsame.worth_eq]

/-- What is held when capital has been handed out was held before. -/
theorem held_before_allocateCapital (h : allocateCapital d p = (q, .ok ())) {t : Strategy}
    (ht : q.strategies.get? n = some t) :
    ∃ s, p.strategies.get? n = some s ∧ t.assets = s.assets ∧ s.book.SameHoldings t.book := by
  obtain ⟨strategies, rfl, hkeys, hbooks⟩ := allocateCapital_eq_ok h
  have hn : n ∈ p.strategies.keys := hkeys ▸ OrderedMap.mem_keys_of_get? ht
  obtain ⟨s, hs⟩ := OrderedMap.mem_keys_iff.mp hn
  obtain ⟨t', ht', hsetup, hsame⟩ := hbooks n s hs
  obtain rfl : t = t' := Option.some.inj (ht.symm.trans ht')
  exact ⟨s, hs, Strategy.assets_of_setup_eq hsetup, hsame⟩

/-- Rates are in the base currency of the portfolio from the start. -/
theorem fxBase_of_setup_eq {name : String} {base : Document} {named : List (String × Strategy)}
    {allocator : Allocator} {commission : Commission} {fxBase : Option Currency}
    {explicit : List (Asset × Document)} {venue : Option MarketHistory} {fresh : Portfolio}
    (hbuild : build name base named allocator commission fxBase explicit venue = .ok fresh)
    (h : p.setup = fresh.setup) : p.fx.base = p.base := by
  obtain ⟨-, hbase, -, -, -, hfx, -⟩ := config_of_setup_eq h
  obtain ⟨-, hempty, -⟩ := history_of_build hbuild
  rw [hbase, hfx, hempty]
  rfl

/-- The state on a market day after its dividends and splits, before anything is traded. -/
def beforeTrading (day : MarketDay) (p : Portfolio) : Portfolio :=
  ((do takeIn day; applyCorporateActions day : Action Portfolio Unit) p).1

theorem setup_beforeTrading (day : MarketDay) (p : Portfolio) :
    (beforeTrading day p).setup = p.setup :=
  Keeps.bind allowsEvents_setup.path (allowsEvents_setup.takeIn day)
    (fun _ => allowsEvents_setup.actions.applyCorporateActions day) p

theorem beforeTrading_eq {day : MarketDay} {p p₁ p₂ : Portfolio}
    (htake : takeIn day p = (p₁, .ok ())) (hact : applyCorporateActions day p₁ = (p₂, .ok ())) :
    beforeTrading day p = p₂ := by
  unfold beforeTrading
  rw [Action.bind_ok htake, hact]

/-- Trading creates and destroys no value. In exact arithmetic the equity of a day is what everything
was worth in total after dividends and splits, less what the fills of the day cost. -/
theorem trading_conserves_value {name : String} {base : Document}
    {named : List (String × Strategy)} {allocator : Allocator} {commission : Commission}
    {fxBase : Option Currency} {explicit : List (Asset × Document)} {venue : Option MarketHistory}
    {fresh p q : Portfolio} {events : List Event} {day : MarketDay} {fs : List Fill} {v₀ : Decimal}
    (hbuild : build name base named allocator commission fxBase explicit venue = .ok fresh)
    (hreached : p = after events fresh) (hday : handleMarket day p = (q, .ok ()))
    (hfills : q.fills = p.fills ++ fs)
    (hvalue : (beforeTrading day p).totalValue day.date = .ok v₀)
    (hbefore : (beforeTrading day p).ValuedExactly day.date) (hafter : q.ValuedExactly day.date)
    (hcredited : ∀ n s, (beforeTrading day p).strategies.get? n = some s →
      Book.CreditedExactly s.assets (fillsOf n fs) s.book) :
    ∃ v costs, q.equity.values.get? day.date = some v ∧ v.IsFinite ∧ v₀.IsFinite ∧
      List.Forall₂ (q.Costs day.date) fs costs ∧ v.value = v₀.value - costs.sum := by
  obtain ⟨p₁, p₂, p₃, p₄, v, htake, hactions, hallocate, hrun, hrecord⟩ :=
    handleMarket_eq_ok.mp hday
  have hopened : beforeTrading day p = p₂ := by
    unfold beforeTrading
    rw [Action.bind_ok htake, hactions]
  rw [hopened] at hvalue hbefore hcredited
  have hsetup : p₂.setup = fresh.setup := by
    rw [← hopened, setup_beforeTrading, hreached, setup_after]
  have hbase := fxBase_of_setup_eq hbuild hsetup
  obtain ⟨hfinite₀, hvalue₀⟩ := value_totalValue hbase hbefore hvalue
  have hkept := follows_applyCorporateActions hactions
  have hworth := worth_allocateCapital hallocate
  have hgiven : ∀ {n t}, p₃.strategies.get? n = some t → ∃ s, p₂.strategies.get? n = some s ∧
      t.assets = s.assets ∧ s.book.SameHoldings t.book := held_before_allocateCapital hallocate
  obtain ⟨strategies, rfl, -, -⟩ := allocateCapital_eq_ok hallocate
  obtain ⟨hbase', hmarket, hfx, -⟩ := SameStores.of_runStrategies hrun
  obtain ⟨gs, htrades, honce, -⟩ := forEach_runStrategy strategies.nodup hrun
  obtain ⟨hvalue₄, -, rfl⟩ := recordEquity_eq_ok.mp hrecord
  obtain ⟨market, fx, -, -, -, rfl⟩ := takeIn_eq_ok.mp htake
  have hbrought : gs = fs := by
    have hall : p₄.fills = p.fills ++ gs := by
      rw [htrades.fills, hkept.fills, List.append_nil]
    exact List.append_cancel_left (hall.symm.trans hfills)
  subst hbrought
  have hexact : ∀ n t, strategies.get? n = some t →
      Book.CreditedExactly t.assets (fillsOf n gs) t.book := by
    intro n t ht
    obtain ⟨s, hs, hassets, hsame⟩ := hgiven ht
    rw [hassets]
    exact (hcredited n s hs).of_sameHoldings hsame
  have hvalued : ∀ n t, strategies.get? n = some t →
      ∃ x, t.totalValue day.date p₂.base p₂.market p₂.fx = .ok x := by
    intro n t ht
    obtain ⟨s, hs, hassets, hsame⟩ := hgiven ht
    obtain ⟨x, hx⟩ := Strategies.exists_totalValue hvalue hs
    refine ⟨x, ?_⟩
    rw [Strategy.totalValue, hassets, ← hsame.totalValue_eq]
    exact hx
  have hvalued' : ∀ n t, p₄.strategies.get? n = some t →
      ∃ x, t.totalValue day.date p₂.base p₂.market p₂.fx = .ok x := by
    intro n t ht
    have htotal : p₄.strategies.totalValue day.date p₂.base p₂.market p₂.fx = .ok v := by
      rw [← hbase', ← hmarket, ← hfx]
      exact hvalue₄
    exact Strategies.exists_totalValue htotal ht
  have hbase₄ : p₄.fx.base = p₄.base := by
    rw [hfx, hbase']
    exact hbase
  obtain ⟨hfinite, hvalue'⟩ := value_totalValue hbase₄ hafter hvalue₄
  refine ⟨v, gs.map (costOf { p₂ with strategies } day.date), Chronicle.get?_put_self .., hfinite,
    hfinite₀, ?_, ?_⟩
  · rw [List.forall₂_map_right_iff, List.forall₂_same]
    intro f hf
    exact htrades.costs_costOf honce hmarket hfx hbase hvalued hvalued' hf
  · rw [hvalue', htrades.worth_eq hmarket hfx hexact, hworth, hvalue₀]

/-- Two strategies that buy on the only day, for 2000 dollars together. -/
theorem trading_conserves_value_holding :
    let day : MarketDay := .flat ⟨2024, 1, 2, by decide, by decide, by decide⟩ ["A", "B"]
    let q := (handleMarket day (Portfolio.holding ["A", "B"])).1
    q.fills.length = 2 ∧ ∃ v costs, q.equity.values.get? day.date = some v ∧ v.IsFinite ∧
      List.Forall₂ (q.Costs day.date) q.fills costs ∧ v.value = 2000 - costs.sum := by
  intro day q
  have hok : (handleMarket day (Portfolio.holding ["A", "B"])).2.toBool = true := by
    decide +kernel
  have hday : handleMarket day (Portfolio.holding ["A", "B"]) = (q, .ok ()) :=
    Action.eq_ok_of_toBool hok
  have hlength : q.fills.length = 2 := by decide +kernel
  have hread : ((beforeTrading day (Portfolio.holding ["A", "B"])).totalValue day.date).toOption =
      some (.finite false 2000 0) := by decide +kernel
  have hvalue := Except.eq_ok_of_toOption hread
  have hcredited : ∀ e ∈ (beforeTrading day (Portfolio.holding ["A", "B"])).strategies.toList,
      Book.CreditedExactly e.2.assets (fillsOf e.1 q.fills) e.2.book := by decide +kernel
  have hreached : Portfolio.holding ["A", "B"] = after [] (Portfolio.holding ["A", "B"]) := rfl
  have hfills : q.fills = (Portfolio.holding ["A", "B"]).fills ++ q.fills :=
    (List.nil_append q.fills).symm
  obtain ⟨v, costs, hv, hfinite, -, hcosts, hconserved⟩ :=
    trading_conserves_value build_holding hreached hday hfills hvalue (by decide +kernel)
      (by decide +kernel) fun n s hs => hcredited (n, s) (OrderedMap.get?_eq_some_iff.mp hs)
  have hstart : (Decimal.finite false 2000 0).value = 2000 := by decide +kernel
  rw [hstart] at hconserved
  exact ⟨hlength, v, costs, hv, hfinite, hcosts, hconserved⟩

end Portfolio
end Backtesting
