import Backtesting.Proofs.Portfolio.Memory
import Backtesting.Proofs.Portfolio.Par
import Backtesting.Proofs.Portfolio.Rebook
import Backtesting.Proofs.Strategy.Shift

/-!
A day after which nobody wants anything else. A strategy that rebalances daily by fixed weights holds
in the evening what its capital pays for at the closes. Trading at par leaves it its worth, so where
closes and rates stay the same it is told to work with the same capital on the next day, and it is
asked for the holdings that it has. Then nothing is ordered, and the day is worth what the last one
was.
-/
namespace Backtesting

open Backtesting.Except (Matches)
open Backtesting.Decimal (SameNumber)

section Worth

variable {d d' : Date} {base : Currency} {market market' : MarketHistory} {fx fx' : FxHistory}
  {strategies strategies' : Strategies}

/-- Strategies under the same names, each of which is worth the same number on a day of its own. -/
structure SameWorths (d d' : Date) (base : Currency) (market market' : MarketHistory)
    (fx fx' : FxHistory) (strategies strategies' : Strategies) : Prop where
  keys : strategies'.keys = strategies.keys
  worth : ∀ {n s t}, strategies.get? n = some s → strategies'.get? n = some t →
    ∃ x y, s.totalValue d base market fx = .ok x ∧ t.totalValue d' base market' fx' = .ok y ∧
      SameNumber x y

namespace SameWorths

theorem matches_totalValue (h : SameWorths d d' base market market' fx fx' strategies strategies') :
    Matches AnyError SameNumber (strategies.totalValue d base market fx)
      (strategies'.totalValue d' base market' fx') := by
  refine Matches.foldlM_forall₂ (OrderedMap.forall₂_values h.keys fun _ _ _ hs ht => h.worth hs ht)
    ?_ (SameNumber.refl _)
  rintro total total' s t htotal ⟨x, y, hx, hy, hxy⟩
  rw [hx, hy]
  exact Decimal.matches_lift (Decimal.agree_add htotal hxy)

theorem size_eq (h : SameWorths d d' base market market' fx fx' strategies strategies') :
    strategies'.size = strategies.size := by
  simpa [OrderedMap.size, OrderedMap.keys] using congrArg List.length h.keys

/-- The capital of a strategy is the same number. -/
theorem sameNumber (h : SameWorths d d' base market market' fx fx' strategies strategies')
    {a : Allocator} {n : String} {x y : Decimal}
    (hx : Portfolio.Shares a strategies d base market fx n x)
    (hy : Portfolio.Shares a strategies' d' base market' fx' n y) : SameNumber x y := by
  cases a with
  | selfFunded =>
    obtain ⟨s, hs, hx⟩ := hx
    obtain ⟨t, ht, hy⟩ := hy
    obtain ⟨x', y', hx', hy', hsame⟩ := h.worth hs ht
    obtain rfl := Except.ok.inj (hx.symm.trans hx')
    obtain rfl := Except.ok.inj (hy.symm.trans hy')
    exact hsame
  | equalWeight =>
    obtain ⟨total, htotal, hx⟩ := hx
    obtain ⟨total', htotal', hy⟩ := hy
    obtain ⟨total'', htotal'', hsame⟩ := h.matches_totalValue.exists_ok htotal
    obtain rfl := Except.ok.inj (htotal'.symm.trans htotal'')
    rw [h.size_eq] at hy
    obtain ⟨y', hy', hquotient⟩ := (Decimal.agree_div hsame _).exists_ok hx
    obtain rfl := Except.ok.inj (hy.symm.trans hy')
    exact hquotient
  | fixed capital => exact hx.elim

/-- Where capital can be handed out once, it can be handed out again. -/
theorem exists_allocate (h : SameWorths d d' base market market' fx fx' strategies strategies')
    {a : Allocator} {capital : List (String × BalanceSheet)}
    (hcapital : a.allocate strategies d base market fx = .ok capital) :
    ∃ capital', a.allocate strategies' d' base market' fx' = .ok capital' := by
  cases a with
  | selfFunded =>
    have hvalues : ∃ worth, Allocator.values strategies' d' base market' fx' = .ok worth := by
      refine Except.exists_mapM fun e he => ?_
      have ht : strategies'.get? e.1 = some e.2 := OrderedMap.get?_eq_some_iff.mpr he
      obtain ⟨s, hs⟩ := OrderedMap.mem_keys_iff.mp (h.keys ▸ OrderedMap.mem_keys_of_get? ht)
      obtain ⟨x, y, -, hy, -⟩ := h.worth hs ht
      exact ⟨(e.1, y), Except.bind_eq_ok.mpr ⟨y, hy, rfl⟩⟩
    obtain ⟨worth, hworth⟩ := hvalues
    exact ⟨_, Except.bind_eq_ok.mpr ⟨worth, hworth, rfl⟩⟩
  | equalWeight =>
    unfold Allocator.allocate at hcapital ⊢
    dsimp only at hcapital ⊢
    rw [OrderedMap.isEmpty_eq_of_size_eq h.size_eq]
    split
    · exact ⟨[], rfl⟩
    · next hsome =>
      rw [if_neg hsome] at hcapital
      obtain ⟨total, htotal, hcapital⟩ := Except.bind_eq_ok.mp hcapital
      obtain ⟨share, hshare, -⟩ := Except.bind_eq_ok.mp hcapital
      obtain ⟨total', htotal', hsame⟩ := h.matches_totalValue.exists_ok htotal
      obtain ⟨share', hshare', -⟩ :=
        (Decimal.agree_div hsame _).exists_ok (Decimal.lift_eq_ok.mp hshare)
      rw [h.size_eq]
      exact ⟨_, Except.bind_eq_ok.mpr ⟨total', htotal',
        Except.bind_eq_ok.mpr ⟨share', Decimal.lift_eq_ok.mpr hshare', rfl⟩⟩⟩
  | fixed capital => exact ⟨_, rfl⟩

/-- What is worth the same on one day is worth the same on another one with the same quotes. -/
theorem shift {d'' : Date} {market'' : MarketHistory} {fx'' : FxHistory}
    (h : SameWorths d d' base market market' fx fx' strategies strategies')
    (hquotes : SameQuotes d' d'' market' market'' fx' fx'') :
    SameWorths d d'' base market market'' fx fx'' strategies strategies' where
  keys := h.keys
  worth hs ht := by
    obtain ⟨x, y, hx, hy, hsame⟩ := h.worth hs ht
    obtain ⟨y', hy', rfl⟩ := (hquotes.matches_totalValue base).exists_ok hy
    exact ⟨x, y, hx, hy', hsame⟩

end SameWorths

/-- Strategies that hold the same are worth the same on a day with the same quotes. -/
theorem SameQuotes.matches_strategies (h : SameQuotes d d' market market' fx fx')
    (hkeys : strategies'.keys = strategies.keys)
    (hbooks : ∀ n s t, strategies.get? n = some s → strategies'.get? n = some t →
      t.assets = s.assets ∧ s.book.SameHoldings t.book) :
    Matches AnyError Eq (strategies.totalValue d base market fx)
      (strategies'.totalValue d' base market' fx') := by
  refine Matches.foldlM_forall₂ (OrderedMap.forall₂_values hkeys hbooks) ?_ rfl
  rintro total _ s t rfl ⟨hassets, hsame⟩
  have hworth : t.totalValue d' base market' fx' =
      s.book.totalValue s.assets d' base market' fx' := by
    rw [Strategy.totalValue, hassets, hsame.totalValue_eq]
  rw [hworth]
  refine (h.matches_totalValue base).bind ?_
  rintro worth _ rfl
  exact .of_eq rfl

end Worth

namespace Strategy

/-- A strategy as it is set up to rebalance daily by fixed weights at the close. -/
structure RebalancesDaily (s : Strategy) : Prop where
  rule : s.rule = .rebalancing .daily none
  sizer : ∃ weights, s.sizer = .fixedWeight weights
  pricing : s.pricing = .closePrice

/-- What such a strategy stays, whatever happens to it. -/
theorem RebalancesDaily.of_setup {s t : Strategy} (h : t.RebalancesDaily)
    (hsetup : s.setup = t.setup) :
    (∃ last, s.rule = .rebalancing .daily last) ∧ (∃ weights, s.sizer = .fixedWeight weights) ∧
      s.pricing = .closePrice := by
  obtain ⟨-, hsizer, hpricing, hrule, -⟩ : _ ∧ s.sizer = t.sizer ∧ s.pricing = t.pricing ∧
    s.rule.unused = t.rule.unused ∧ _ := Strategy.mk.inj hsetup
  rw [h.rule] at hrule
  rw [hsizer, hpricing]
  exact ⟨Rule.eq_of_unused hrule, h.sizer, h.pricing⟩

end Strategy

namespace Portfolio

open Backtesting.Action (Keeps bind_eq_ok)

variable {d d' : Date} {n : String} {p q r : Portfolio} {s t : Strategy}

/-- Who has a share in what all are worth can be valued. -/
theorem Shares.exists_totalValue {a : Allocator} {strategies : Strategies} {base : Currency}
    {market : MarketHistory} {fx : FxHistory} {x : Decimal}
    (h : Shares a strategies d base market fx n x) (hs : strategies.get? n = some s) :
    ∃ y, s.totalValue d base market fx = .ok y := by
  cases a with
  | selfFunded =>
    obtain ⟨s', hs', hx⟩ := h
    obtain rfl : s = s' := Option.some.inj (hs.symm.trans hs')
    exact ⟨x, hx⟩
  | equalWeight =>
    obtain ⟨total, htotal, -⟩ := h
    exact Strategies.exists_totalValue htotal hs
  | fixed capital => exact h.elim

/-- Targets that can be read are set, one strategy after the other. -/
theorem setTargets_ok {capital : List (String × BalanceSheet)}
    (h : ∀ e ∈ capital, e.1 ∈ p.strategies.keys ∧ ∃ target, e.2.read = .ok target) :
    ∃ q, Action.forEach capital (fun e => onStrategy e.1 (Action.update (·.setTarget e.2))) p =
      (q, .ok ()) := by
  induction capital generalizing p with
  | nil => exact ⟨p, rfl⟩
  | cons e l ih =>
    obtain ⟨hname, target, htarget⟩ := h e (by simp)
    obtain ⟨s, hs⟩ := OrderedMap.mem_keys_iff.mp hname
    have hset : s.setTarget e.2 = .ok { s with book := { s.book with target } } :=
      Except.bind_eq_ok.mpr ⟨_, Except.bind_eq_ok.mpr ⟨target, htarget, rfl⟩, rfl⟩
    have hstep := onStrategy_ok (x := Action.update (·.setTarget e.2)) (a := ()) hs
      (Action.update_eq_ok.mpr hset)
    obtain ⟨q, hq⟩ := ih (p := { p with
        strategies := p.strategies.put e.1 { s with book := { s.book with target } } }) fun e' he' => by
      rw [OrderedMap.keys_put_of_get? _ hs]
      exact h e' (by simp [he'])
    exact ⟨q, Action.forEach_cons_eq_ok.mpr ⟨_, hstep, hq⟩⟩

/-- Capital that can be computed is handed out. -/
theorem allocateCapital_ok (ha : p.allocator = .selfFunded ∨ p.allocator = .equalWeight)
    {capital : List (String × BalanceSheet)}
    (hcapital : p.allocator.allocate p.strategies d p.base p.market p.fx = .ok capital) :
    ∃ q, allocateCapital d p = (q, .ok ()) := by
  obtain ⟨hkeys, hshares⟩ := shares_of_allocate ha hcapital
  obtain ⟨q, hq⟩ := setTargets_ok (p := p) fun e (he : e ∈ capital) => by
    obtain ⟨x, hx, -⟩ := hshares e he
    exact ⟨hkeys ▸ List.mem_map_of_mem he, _, by rw [hx]; rfl⟩
  exact ⟨q, bind_eq_ok.mpr ⟨p, capital, Action.read_eq_ok.mpr ⟨rfl, hcapital⟩, hq⟩⟩

/-- A strategy that would be asked for the holdings that it has. -/
def Rests (p : Portfolio) (d : Date) (n : String) : Prop :=
  ∃ s rule signals sizes, p.Runs d n s rule signals sizes ∧ ∀ e ∈ sizes.toList, s.position e.1 = e.2

theorem Rests.congr (h : p.Rests d n) (hstrategy : q.strategies.get? n = p.strategies.get? n)
    (hmarket : q.market = p.market) (hfx : q.fx = p.fx) : q.Rests d n := by
  obtain ⟨s, rule, signals, sizes, hruns, hheld⟩ := h
  refine ⟨s, rule, signals, sizes, ⟨?_, ?_, ?_⟩, hheld⟩
  · rw [hstrategy, hruns.get?]
  · rw [hmarket, hruns.found]
  · rw [hmarket, hfx, hruns.sized]

/-- It signals, and that is all. -/
theorem Rests.runStrategy (h : p.Rests d n) :
    ∃ s rule k, p.strategies.get? n = some s ∧ Portfolio.runStrategy d n p =
      ({ p with strategies := p.strategies.put n { s with rule }, signalCount := k }, .ok ()) := by
  obtain ⟨s, rule, signals, sizes, hruns, hheld⟩ := h
  have hs : (p.signaling d n s rule signals).strategies.get? n = some { s with rule } := by
    simp [signaling, counting]
  refine ⟨s, rule, p.signalCount + signals.size, hruns.get?, ?_⟩
  rw [hruns.eq, Action.forEach_of_id fun e he => (submitTarget_eq hs e).1 (hheld e he)]
  rfl

theorem runStrategies_of_rests {ns : List String} (hns : ns.Nodup) (h : ∀ n ∈ ns, p.Rests d n) :
    ∃ strategies k, Action.forEach ns (runStrategy d) p =
        ({ p with strategies, signalCount := k }, .ok ()) ∧ strategies.keys = p.strategies.keys ∧
      ∀ n s, p.strategies.get? n = some s → ∃ rule, strategies.get? n = some { s with rule } := by
  induction ns generalizing p with
  | nil => exact ⟨p.strategies, p.signalCount, rfl, rfl, fun n s hs => ⟨s.rule, hs⟩⟩
  | cons n ns ih =>
    obtain ⟨hfresh, hns⟩ := List.nodup_cons.mp hns
    obtain ⟨s, rule, k, hs, hrun⟩ := (h n (by simp)).runStrategy
    obtain ⟨strategies, k', hruns, hkeys, hkept⟩ :=
      ih (p := { p with strategies := p.strategies.put n { s with rule }, signalCount := k }) hns
        fun m hm => (h m (by simp [hm])).congr
          (by simp [show m ≠ n from fun hmn => hfresh (hmn ▸ hm)]) rfl rfl
    refine ⟨strategies, k', Action.forEach_cons_eq_ok.mpr ⟨_, hrun, hruns⟩,
      hkeys.trans (OrderedMap.keys_put_of_get? _ hs), fun m t ht => ?_⟩
    by_cases hm : m = n
    · subst hm
      obtain rfl : s = t := Option.some.inj (hs.symm.trans ht)
      obtain ⟨rule', hrule'⟩ := hkept m { s with rule } (by simp)
      exact ⟨rule', hrule'⟩
    · exact hkept m t (by simpa [hm] using ht)

/-- In the evening of a day: a strategy that was told to work with `x` and holds what it was asked for
by this. -/
structure Rested (market : MarketHistory) (fx : FxHistory) (d : Date) (x : Decimal)
    (t : Strategy) : Prop where
  rule : t.rule = .rebalancing .daily (some d)
  held : ∃ weights b sizes, t.sizer = .fixedWeight weights ∧
    b.target = OrderedMap.empty.put fx.base x ∧
    t.sizer.sizesFor b t.assets d (Signals.same .rebalance t.assets.keys) market fx = .ok sizes ∧
    ∀ e ∈ sizes.toList, t.position e.1 = e.2

/-- With the same capital at the same quotes it rests on a later day. -/
theorem Rested.rests {market : MarketHistory} {fx : FxHistory} {x x' : Decimal}
    (h : Rested market fx d x t) (hquotes : SameQuotes d d' market p.market fx p.fx) (hd : d < d')
    (hx : SameNumber x x') (ht : p.strategies.get? n = some { t with
      book := { t.book with target := OrderedMap.empty.put p.fx.base x' } }) : p.Rests d' n := by
  obtain ⟨weights, b, sizes, hsizer, htarget, hsizes, hheld⟩ := h.held
  let funded : Book := { t.book with target := OrderedMap.empty.put p.fx.base x' }
  have hcapital : Matches AnyError SameNumber (Sizer.capital b t.assets d market fx)
      (Sizer.capital funded t.assets d' p.market p.fx) := by
    rw [Sizer.capital_of_target htarget, Sizer.capital_of_target (b := funded) rfl]
    exact Decimal.matches_lift (Decimal.agree_add (.refl _) hx)
  rw [hsizer] at hsizes
  obtain ⟨sizes', hsizes', rfl⟩ :=
    (hquotes.matches_sizesFor hcapital weights _).exists_ok hsizes
  refine ⟨{ t with book := funded }, .rebalancing .daily (some d'),
    Signals.same .rebalance t.assets.keys, sizes, ⟨ht, ?_, ?_⟩, hheld⟩
  · rw [h.rule]
    exact Rule.signals_daily (fun e he => Option.some.inj he ▸ hd) ..
  · rw [← hsizer] at hsizes'
    exact hsizes'

/-- At the close no order is rejected where the brokerage sees the closes of the portfolio. -/
theorem Fair.not_rejects {e : Asset × Int} (h : p.Fair d) (hs : s.pricing = .closePrice) :
    ¬ p.Rejects n d s e := by
  intro hrejects
  have ⟨prices, order, outcome, hprices, hvalid, _⟩ := hrejects
  rw [hs] at hprices
  obtain ⟨⟨bar, hbar⟩, -⟩ := terms_at_close hprices hvalid
  obtain ⟨matched, hmatched, -⟩ := h.matched e.1 bar hbar
  exact not_rejects_of_closePrice hs
    (Or.inr (Option.isSome_iff_exists.mpr ⟨matched, hmatched⟩)) hrejects

/-- A strategy that has run has reached what it was asked for. -/
theorem rested_of_runStrategies {ns : List String} {x : Decimal} {weights : Weights}
    {last : Option Date} (hns : ns.Nodup)
    (h : Action.forEach ns (runStrategy d) p = (q, .ok ())) (hn : n ∈ ns) (hfair : p.Fair d)
    (hs : p.strategies.get? n = some s) (hrule : s.rule = .rebalancing .daily last)
    (hlast : ∀ e, last = some e → e < d) (hsizer : s.sizer = .fixedWeight weights)
    (htarget : s.book.target = OrderedMap.empty.put p.fx.base x) :
    ∃ t, q.strategies.get? n = some t ∧ Rested p.market p.fx d x t := by
  have hown : ∀ n, IsOwn (id n) (runStrategy d n) :=
    fun n => ⟨fun hr => hr.runStrategy d, fun hR => hR.runStrategy d⟩
  obtain ⟨-, -, -, hsteps⟩ := apart hown (by rwa [List.map_id]) h
  obtain ⟨r, hr, hsame, -⟩ := hsteps n hn
  obtain ⟨s', rule, signals, sizes, hruns⟩ := exists_runs hr
  obtain rfl : s = s' := Option.some.inj (hs.symm.trans hruns.get?)
  have hfound := hruns.found
  rw [hrule, Rule.signals_daily hlast] at hfound
  obtain ⟨rfl, rfl⟩ := Prod.mk.inj (Except.ok.inj hfound)
  rw [hruns.eq] at hr
  have hstart : (p.signaling d n s (.rebalancing .daily (some d))
      (Signals.same .rebalance s.assets.keys)).strategies.get? n =
        some { s with rule := .rebalancing .daily (some d) } := by
    simp [signaling, counting]
  obtain ⟨t, orders, hreaches, -⟩ := reaches_of_forEach sizes.nodup hstart hr
  obtain ⟨hassets, hkept, -⟩ : t.assets = s.assets ∧ t.sizer = s.sizer ∧ _ :=
    Strategy.mk.inj hreaches.setup
  have hunsignaled := (Unsignaled.allowsBooks n).submitTargets d sizes (p.signaling d n s
    (.rebalancing .daily (some d)) (Signals.same .rebalance s.assets.keys))
  rw [show submitTargets n d sizes = Action.forEach sizes.toList (submitTarget n d) from rfl, hr]
    at hunsignaled
  refine ⟨t, hsame.trans hreaches.get?, ?_, weights, s.book, sizes, hkept.trans hsizer, htarget, ?_,
    fun e he => ?_⟩
  · obtain ⟨s', hs', hrule'⟩ := hunsignaled.rule hreaches.get?
    obtain rfl := Option.some.inj (hstart.symm.trans hs')
    exact hrule'
  · rw [hkept, hassets]
    exact hruns.sized
  · refine (hreaches.each e he).resolve_right fun hrejected => ?_
    exact (hfair.congr (sameTerms_signaling hruns)).not_rejects (hfair.pricing n s hs) hrejected.2

/-- Nothing is rounded where the strategies are valued one by one. -/
def BooksValuedExactly (p : Portfolio) (d : Date) : Prop :=
  ∀ s ∈ p.strategies.values, s.book.ValuedExactly s.assets d p.base p.market p.fx

instance (p : Portfolio) (d : Date) : Decidable (p.BooksValuedExactly d) := by
  delta BooksValuedExactly
  infer_instance

/-- The evening `q` of a day that was traded at par, from `p` on: every strategy is worth what it was
worth, and it holds what its share of that asks for. -/
structure Evening (d : Date) (p q : Portfolio) : Prop where
  worths : SameWorths d d q.base p.market q.market p.fx q.fx p.strategies q.strategies
  rested : ∀ {n t}, q.strategies.get? n = some t → ∃ x,
    Shares q.allocator p.strategies d q.base p.market p.fx n x ∧ Rested q.market q.fx d x t

theorem sameTerms_allocateCapital (h : allocateCapital d p = (q, .ok ())) : SameTerms p q := by
  have hframe := keeps_allocateCapital SameTerms.isPath
    (fun n {_ _} target hs => ⟨(SameStage.allowsFunding n).target target hs, setup_put hs rfl⟩) d p
  rwa [h] at hframe

theorem stage_of_runStrategies {ns : List String}
    (h : Action.forEach ns (runStrategy d) p = (q, .ok ())) : SameStage p q := by
  have hframe := AllowsTrading.runStrategies
    (fun n => (SameStage.allowsFunding n).toAllowsTrading) d ns p
  rwa [h] at hframe

section Trading

variable {fs : List Fill} {v : Decimal}

/-- Free trading at the closes leaves every strategy its worth. -/
theorem sameWorths_of_trading (hallocate : allocateCapital d p = (q, .ok ()))
    (hrun : Action.forEach q.strategies.keys (runStrategy d) q = (r, .ok ()))
    (ha : p.allocator = .selfFunded ∨ p.allocator = .equalWeight) (hbase : p.fx.base = p.base)
    (hfair : p.Fair d) (hvalue : r.totalValue d = .ok v) (hfills : r.fills = p.fills ++ fs)
    (hbefore : p.BooksValuedExactly d) (hafter : r.BooksValuedExactly d)
    (hcredited : ∀ n s, p.strategies.get? n = some s →
      Book.CreditedExactly s.assets (fillsOf n fs) s.book) :
    SameWorths d d p.base p.market p.market p.fx p.fx p.strategies r.strategies := by
  have hfunded := sameTerms_allocateCapital hallocate
  have hstage : SameStage p r :=
    SameStage.isPath.trans hfunded.toSameStage (stage_of_runStrategies hrun)
  have hfills' : r.fills = q.fills ++ fs := by
    obtain ⟨strategies, rfl, -⟩ := allocateCapital_eq_ok hallocate
    exact hfills
  unfold totalValue at hvalue
  unfold BooksValuedExactly at hafter
  rw [hstage.base, hstage.market, hstage.fx] at hvalue hafter
  refine ⟨hstage.keys, fun {n s t} hs ht => ?_⟩
  obtain ⟨x, hshare, hq⟩ := target_of_allocateCapital ha hallocate hs
  obtain ⟨y, hy⟩ := hshare.exists_totalValue hs
  obtain ⟨z, hz⟩ := Strategies.exists_totalValue hvalue ht
  obtain ⟨t', ht', hsetup, hworth⟩ := worth_of_runStrategies q.strategies.nodup hrun
    (hfair.congr hfunded) hfills' hq ((hcredited n s hs).of_sameHoldings ⟨rfl, rfl⟩)
  obtain rfl : t = t' := Option.some.inj (ht.symm.trans ht')
  obtain ⟨hassets, -⟩ : t.assets = s.assets ∧ _ := Strategy.mk.inj hsetup
  obtain ⟨hfinite, hbook⟩ :=
    Book.value_totalValue hbase (hbefore s (OrderedMap.mem_values_of_get? hs)) hy
  obtain ⟨hfinite', hbook'⟩ :=
    Book.value_totalValue hbase (hafter t (OrderedMap.mem_values_of_get? ht)) hz
  refine ⟨y, z, hy, hz, Or.inr ⟨hfinite, hfinite', ?_⟩⟩
  rw [hbook, hbook', hassets]
  rw [hfunded.market, hfunded.fx] at hworth
  exact hworth.symm

theorem evening_of_trading (hallocate : allocateCapital d p = (q, .ok ()))
    (hrun : Action.forEach q.strategies.keys (runStrategy d) q = (r, .ok ()))
    (ha : p.allocator = .selfFunded ∨ p.allocator = .equalWeight) (hbase : p.fx.base = p.base)
    (hfair : p.Fair d)
    (hdaily : ∀ n s, p.strategies.get? n = some s → ∃ last weights,
      s.rule = .rebalancing .daily last ∧ (∀ e, last = some e → e < d) ∧
        s.sizer = .fixedWeight weights)
    (hvalue : r.totalValue d = .ok v) (hfills : r.fills = p.fills ++ fs)
    (hbefore : p.BooksValuedExactly d) (hafter : r.BooksValuedExactly d)
    (hcredited : ∀ n s, p.strategies.get? n = some s →
      Book.CreditedExactly s.assets (fillsOf n fs) s.book) : Evening d p r := by
  have hworths := sameWorths_of_trading hallocate hrun ha hbase hfair hvalue hfills hbefore hafter
    hcredited
  have hfunded := sameTerms_allocateCapital hallocate
  have hran := stage_of_runStrategies hrun
  have hstage : SameStage p r := SameStage.isPath.trans hfunded.toSameStage hran
  refine ⟨by rwa [hstage.base, hstage.market, hstage.fx], fun {n t} ht => ?_⟩
  obtain ⟨s, hs⟩ := OrderedMap.mem_keys_iff.mp (hstage.keys ▸ OrderedMap.mem_keys_of_get? ht)
  obtain ⟨x, hshare, hq⟩ := target_of_allocateCapital ha hallocate hs
  obtain ⟨last, weights, hrule, hlast, hsizer⟩ := hdaily n s hs
  obtain ⟨t', ht', hrested⟩ := rested_of_runStrategies q.strategies.nodup hrun
    (OrderedMap.mem_keys_of_get? hq) (hfair.congr hfunded) hq hrule hlast hsizer
    (by rw [hfunded.fx, hbase])
  obtain rfl : t = t' := Option.some.inj (ht.symm.trans ht')
  refine ⟨x, ?_, ?_⟩
  · rw [hstage.allocator, hstage.base]
    exact hshare
  · rw [hran.market, hran.fx]
    exact hrested

end Trading

theorem applyCorporateActions_of_plain {day : MarketDay}
    (h : ∀ e ∈ day.bars.toList, e.2.hasDividend = false ∧ e.2.hasSplit = false) :
    applyCorporateActions day p = (p, .ok ()) := by
  have hdividends : day.bars.toList.filter (·.2.hasDividend) = [] :=
    List.filter_eq_nil_iff.mpr fun e he => by simp [(h e he).1]
  have hsplits : day.bars.toList.filter (·.2.hasSplit) = [] :=
    List.filter_eq_nil_iff.mpr fun e he => by simp [(h e he).2]
  unfold applyCorporateActions
  rw [hdividends, hsplits]
  rfl

/-- A later day with the closes and the rates of the last one can be taken in. -/
theorem takeIn_again {day day' : MarketDay} (h : handleMarket day p = (q, .ok ()))
    (hd : day.date < day'.date) (hrates : day'.rates = day.rates)
    (hcloses : ∀ a, (day'.bars.get? a).map (·.close) = (q.market.bar? day.date a).map (·.close)) :
    ∃ market fx, takeIn day' q = ({ q with market, fx }, .ok ()) ∧
      SameQuotes day.date day'.date q.market market q.fx fx := by
  obtain ⟨-, hmarket, hfx, v, -, hequity⟩ := stores_of_handleMarket h
  obtain ⟨fx, happend, hquotes⟩ := SameQuotes.of_append hfx hd hcloses
  have hnot : ¬ day'.date < day.date := fun hd' => Date.lt_irrefl _ (Date.lt_trans hd hd')
  have hdates : q.market.bars.dates = (p.market.bars.put day.date day.bars).dates := by
    rw [hmarket]
    exact MarketHistory.dates_splitOn ..
  refine ⟨_, fx, takeIn_eq_ok.mpr ⟨_, fx, ?_, MarketHistory.append_eq_ok.mpr ⟨?_, rfl⟩,
    hrates ▸ happend, rfl⟩, hquotes⟩
  · rw [hequity]
    exact Chronicle.later?_put _ _ hnot
  · rw [Chronicle.later?_eq_of_dates_eq hdates]
    exact Chronicle.later?_put _ _ hnot

/-- The day after: the same capital is handed out, everybody rests, and the value is the same. -/
theorem Evening.next {day : MarketDay} {market : MarketHistory} {fx : FxHistory} {v : Decimal}
    (h : Evening d p q) (ha : q.allocator = .selfFunded ∨ q.allocator = .equalWeight)
    (hbase : q.fx.base = q.base)
    (hcapital : ∃ capital, q.allocator.allocate p.strategies d q.base p.market p.fx = .ok capital)
    (hvalue : q.totalValue d = .ok v) (hd : d < day.date)
    (htake : takeIn day q = ({ q with market, fx }, .ok ()))
    (hquotes : SameQuotes d day.date q.market market q.fx fx)
    (hplain : ∀ e ∈ day.bars.toList, e.2.hasDividend = false ∧ e.2.hasSplit = false) :
    ∃ r, handleMarket day q = (r, .ok ()) ∧ r.orderCount = q.orderCount ∧
      r.brokerage = q.brokerage ∧ r.fills = q.fills ∧
      (∀ n s, q.strategies.get? n = some s → ∃ t, r.strategies.get? n = some t ∧
        s.book.SameHoldings t.book) ∧ r.equity.values.get? day.date = some v := by
  have hworths := h.worths.shift hquotes
  obtain ⟨capital, hcapital⟩ := hcapital
  obtain ⟨capital', hcapital'⟩ := hworths.exists_allocate hcapital
  let q₁ : Portfolio := { q with market, fx }
  obtain ⟨q₂, hallocate⟩ := allocateCapital_ok (p := q₁) ha hcapital'
  have hgiven : ∀ n t, q.strategies.get? n = some t → ∃ x,
      Shares q.allocator q.strategies day.date q.base market fx n x ∧
        q₂.strategies.get? n = some { t with
          book := { t.book with target := OrderedMap.empty.put fx.base x } } := by
    rw [hquotes.base, hbase]
    exact fun n t ht => target_of_allocateCapital (p := q₁) ha hallocate ht
  obtain ⟨strategies, rfl, hkeys, -⟩ := allocateCapital_eq_ok hallocate
  have hrests : ∀ n ∈ strategies.keys, Rests { q₁ with strategies } day.date n := by
    intro n hn
    obtain ⟨t, ht⟩ := OrderedMap.mem_keys_iff.mp (hkeys ▸ hn : n ∈ q.strategies.keys)
    obtain ⟨x, hshare, hrested⟩ := h.rested ht
    obtain ⟨x', hshare', ht'⟩ := hgiven n t ht
    exact hrested.rests hquotes hd (hworths.sameNumber hshare hshare') ht'
  obtain ⟨strategies', k, hrun, hkeys', hkept⟩ :=
    runStrategies_of_rests (p := { q₁ with strategies }) strategies.nodup hrests
  have hbooks : ∀ n t, q.strategies.get? n = some t → ∃ t', strategies'.get? n = some t' ∧
      t'.assets = t.assets ∧ t.book.SameHoldings t'.book := by
    intro n t ht
    obtain ⟨x, -, ht'⟩ := hgiven n t ht
    obtain ⟨rule, hrule⟩ := hkept n _ ht'
    exact ⟨_, hrule, rfl, rfl, rfl⟩
  have hvalue' : strategies'.totalValue day.date q.base market fx = .ok v := by
    obtain ⟨v', hv', rfl⟩ := (hquotes.matches_strategies (hkeys'.trans hkeys) fun n s t hs ht => by
      obtain ⟨t', ht', hsame⟩ := hbooks n s hs
      obtain rfl : t = t' := Option.some.inj (ht.symm.trans ht')
      exact hsame).exists_ok hvalue
    exact hv'
  obtain ⟨_, _, hlater, -⟩ := takeIn_eq_ok.mp htake
  refine ⟨_, handleMarket_eq_ok.mpr ⟨q₁, q₁, { q₁ with strategies },
    { q₁ with strategies := strategies', signalCount := k }, v, htake,
    applyCorporateActions_of_plain hplain, hallocate, hrun,
    recordEquity_eq_ok.mpr ⟨hvalue', hlater, rfl⟩⟩, rfl, rfl, rfl, fun n t ht => ?_,
    Chronicle.get?_put_self ..⟩
  obtain ⟨t', ht', -, hsame⟩ := hbooks n t ht
  exact ⟨t', ht', hsame⟩

section Build

variable {name : String} {base : Document} {named : List (String × Strategy)}
  {allocator : Allocator} {commission : Commission} {fxBase : Option Currency}
  {explicit : List (Asset × Document)} {venue : Option MarketHistory} {fresh : Portfolio}
  {events : List Event}

theorem rebalancesDaily_of_setup
    (hbuild : build name base named allocator commission fxBase explicit venue = .ok fresh)
    (hdaily : ∀ e ∈ named, e.2.RebalancesDaily) (h : p.setup = fresh.setup)
    (hs : p.strategies.get? n = some s) :
    ∃ t : Strategy, t.RebalancesDaily ∧ s.setup = t.setup := by
  obtain ⟨t, ht, hsetup⟩ := setup_of_get? h hs
  have hmem := OrderedMap.get?_eq_some_iff.mp ht
  rw [(strategies_of_build hbuild).1] at hmem
  exact ⟨t, hdaily _ hmem, hsetup⟩

/-- Before it has traded, a strategy that rebalances daily remembers nothing. -/
theorem remembers_of_build
    (hbuild : build name base named allocator commission fxBase explicit venue = .ok fresh)
    (hdaily : ∀ e ∈ named, e.2.RebalancesDaily) : fresh.Remembers := by
  intro n s e hs he
  have hmem := OrderedMap.get?_eq_some_iff.mp hs
  rw [(strategies_of_build hbuild).1] at hmem
  rw [(hdaily _ hmem).rule] at he
  exact nomatch he

/-- Free trading at the close is fair where the brokerage sees the closes of the portfolio. -/
theorem fair_of_setup
    (hbuild : build name base named allocator commission fxBase explicit venue = .ok fresh)
    (hdaily : ∀ e ∈ named, e.2.RebalancesDaily) (hfree : commission.rate.isZero = true)
    (h : p.setup = fresh.setup)
    (hvenue : venue = none ∨ ∀ a bar, p.market.bar? d a = some bar →
      ∃ matched, p.matchedBar d a = some matched ∧ matched.close = bar.close) : p.Fair d := by
  obtain ⟨-, -, -, -, hsame, -, hcommission⟩ := config_of_setup_eq h
  refine ⟨?_, ?_, fun n s hs => ?_⟩
  · obtain ⟨-, -, -, -, -, -, hbrokerage⟩ := history_of_build hbuild
    rw [hcommission, hbrokerage]
    exact hfree
  · refine hvenue.elim (fun hown a bar hbar => ?_) id
    obtain ⟨-, -, -, -, hfresh⟩ := build_eq_ok.mp hbuild
    have hnone : p.venue = none := hsame.trans ((congrArg Portfolio.venue hfresh).trans hown)
    refine ⟨bar, ?_, rfl⟩
    rw [matchedBar, hnone]
    exact hbar
  · obtain ⟨t, ht, hsetup⟩ := rebalancesDaily_of_setup hbuild hdaily h hs
    exact (ht.of_setup hsetup).2.2

theorem unsignaled_beforeTrading (day : MarketDay) (p : Portfolio) :
    Unsignaled p (beforeTrading day p) :=
  Keeps.bind Unsignaled.isPath (Unsignaled.takeIn day)
    (fun _ => Unsignaled.applyCorporateActions day) p

/-- When trading begins on a new day, whatever is remembered lies before it. -/
theorem due_beforeTrading {day : MarketDay}
    (hbuild : build name base named allocator commission fxBase explicit venue = .ok fresh)
    (hdaily : ∀ e ∈ named, e.2.RebalancesDaily) (hreached : p = after events fresh)
    (hnew : day.date ∉ p.market.dates) (htake : takeIn day p = (q, .ok ()))
    (hs : (beforeTrading day p).strategies.get? n = some s) : ∃ last weights,
      s.rule = .rebalancing .daily last ∧ (∀ e, last = some e → e < day.date) ∧
        s.sizer = .fixedWeight weights := by
  have hsetup : (beforeTrading day p).setup = fresh.setup := by
    rw [setup_beforeTrading, hreached, setup_after]
  have hremembers : p.Remembers := hreached ▸ remembers_after (remembers_of_build hbuild hdaily) events
  obtain ⟨t, ht, hsame⟩ := rebalancesDaily_of_setup hbuild hdaily hsetup hs
  obtain ⟨⟨last, hrule⟩, ⟨weights, hsizer⟩, -⟩ := ht.of_setup hsame
  refine ⟨last, weights, hrule, ?_, hsizer⟩
  rintro e rfl
  obtain ⟨market, fx, -, happend, -⟩ := takeIn_eq_ok.mp htake
  obtain ⟨hlater, -⟩ := MarketHistory.append_eq_ok.mp happend
  obtain ⟨t', ht', hkept⟩ := (unsignaled_beforeTrading day p).rule hs
  refine Chronicle.lt_of_later? hlater hnew (hremembers n t' e ht' ?_)
  rw [← hkept, hrule]
  rfl

/-- No churn. Strategies that rebalance daily by fixed weights at the close, that fund themselves or
share evenly and that trade for free, have done on a new day all there is to do: where nothing is
rounded in what they are worth and in their cash, a later day with the same closes and the same rates
submits no order, leaves every position and all cash, and records the same equity. The brokerage has
to match the orders of the day against the closes of the portfolio, as it does unless it looks at
other bars. -/
theorem no_churn {day day' : MarketDay} {fs : List Fill}
    (hbuild : build name base named allocator commission fxBase explicit venue = .ok fresh)
    (hdaily : ∀ e ∈ named, e.2.RebalancesDaily)
    (hallocator : allocator = .selfFunded ∨ allocator = .equalWeight)
    (hfree : commission.rate.isZero = true) (hreached : p = after events fresh)
    (hnew : day.date ∉ p.market.dates) (hday : handle (.market day) p = (q, .ok ()))
    (hvenue : venue = none ∨ ∀ a bar, q.market.bar? day.date a = some bar →
      ∃ matched, q.matchedBar day.date a = some matched ∧ matched.close = bar.close)
    (hbefore : (beforeTrading day p).BooksValuedExactly day.date)
    (hafter : q.BooksValuedExactly day.date) (hfills : q.fills = p.fills ++ fs)
    (hcredited : ∀ n s, (beforeTrading day p).strategies.get? n = some s →
      Book.CreditedExactly s.assets (fillsOf n fs) s.book)
    (hlater : day.date < day'.date)
    (hcloses : ∀ a, (day'.bars.get? a).map (·.close) = (q.market.bar? day.date a).map (·.close))
    (hrates : day'.rates = day.rates)
    (hplain : ∀ e ∈ day'.bars.toList, e.2.hasDividend = false ∧ e.2.hasSplit = false) :
    ∃ r v, handle (.market day') q = (r, .ok ()) ∧ r.orderCount = q.orderCount ∧
      r.brokerage = q.brokerage ∧ r.fills = q.fills ∧
      (∀ n s, q.strategies.get? n = some s → ∃ t, r.strategies.get? n = some t ∧
        s.book.SameHoldings t.book) ∧
      q.equity.values.get? day.date = some v ∧ r.equity.values.get? day'.date = some v := by
  obtain ⟨p₁, p₂, p₃, p₄, v, htake, hactions, hallocate, hrun, hrecord⟩ :=
    handleMarket_eq_ok.mp hday
  have hopened := beforeTrading_eq htake hactions
  rw [hopened] at hbefore hcredited
  have hsetup : p₂.setup = fresh.setup := by
    rw [← hopened, setup_beforeTrading, hreached, setup_after]
  obtain ⟨-, -, -, hallocator', -⟩ := config_of_setup_eq hsetup
  have ha : p₂.allocator = .selfFunded ∨ p₂.allocator = .equalWeight := by
    rw [hallocator', (strategies_of_build hbuild).2]
    exact hallocator
  have hbase := fxBase_of_setup_eq hbuild hsetup
  have hdaily' : ∀ n s, p₂.strategies.get? n = some s → ∃ last weights,
      s.rule = .rebalancing .daily last ∧ (∀ e, last = some e → e < day.date) ∧
        s.sizer = .fixedWeight weights := by
    rw [← hopened]
    exact fun n s hs => due_beforeTrading hbuild hdaily hreached hnew htake hs
  have hagain := takeIn_again hday hlater hrates hcloses
  obtain ⟨hvalue, -, rfl⟩ := recordEquity_eq_ok.mp hrecord
  have hstage : SameStage p₂ p₄ := SameStage.isPath.trans
    (sameTerms_allocateCapital hallocate).toSameStage (stage_of_runStrategies hrun)
  have hfair : p₂.Fair day.date := by
    refine fair_of_setup hbuild hdaily hfree hsetup (hvenue.imp id fun hvenue a bar hbar => ?_)
    rw [← hstage.market] at hbar
    rw [matchedBar, ← hstage.venue, ← hstage.market]
    exact hvenue a bar hbar
  have hkept := (follows_applyCorporateActions hactions).fills
  obtain ⟨market, fx, -, -, -, rfl⟩ := takeIn_eq_ok.mp htake
  rw [List.append_nil] at hkept
  have hevening := evening_of_trading hallocate hrun ha hbase hfair hdaily' hvalue
    (by rw [hkept]; exact hfills) hbefore hafter hcredited
  obtain ⟨_, capital, hcapital, -⟩ := bind_eq_ok.mp hallocate
  obtain ⟨market', fx', htake', hquotes⟩ := hagain
  obtain ⟨r, hr, horders, hbrokerage, hfills', hbooks, hrecorded⟩ := Evening.next
    (q := { p₄ with
      equity := ⟨p₄.equity.values.put day.date v⟩
      journal := _ }) ⟨hevening.worths, hevening.rested⟩ (hstage.allocator ▸ ha)
    (by rw [hstage.fx, hstage.base, hbase])
    ⟨capital, by rw [hstage.allocator, hstage.base]; exact (Action.read_eq_ok.mp hcapital).2⟩ hvalue
    hlater htake' hquotes hplain
  exact ⟨r, v, hr, horders, hbrokerage, hfills', hbooks, Chronicle.get?_put_self .., hrecorded⟩

/-- Two strategies that share evenly and hold assets of two currencies: four orders on the first day,
none on the second. -/
theorem no_churn_two_currencies :
    let half : Decimal := .finite false 5 (-1)
    let both (cash : Decimal) : Strategy := {
      assets := OrderedMap.ofList [("A", .usd), ("B", .eur)]
      sizer := .fixedWeight (OrderedMap.ofList [("A", half), ("B", half)])
      pricing := .closePrice
      rule := .rebalancing .daily none
      book := Book.start (OrderedMap.ofList [(.usd, cash)]) }
    let fresh : Portfolio := { holding [] with
      strategies := OrderedMap.ofList [("S", both 1000), ("T", both 3000)]
      listings := OrderedMap.ofList [("A", .usd), ("B", .eur)]
      allocator := .equalWeight
      brokerage := Brokerage.start ⟨0⟩ }
    let day (d : Date) : MarketDay := { MarketDay.flat d ["A", "B"] with rates := [("EUR", .known 2)] }
    let first : Date := ⟨2024, 1, 2, by decide, by decide, by decide⟩
    let second : Date := ⟨2024, 1, 3, by decide, by decide, by decide⟩
    let q := after [.market (day first)] fresh
    q.orderCount = 4 ∧ ∃ r v, handle (.market (day second)) q = (r, .ok ()) ∧ r.orderCount = 4 ∧
      r.fills = q.fills ∧ q.equity.values.get? first = some v ∧
      r.equity.values.get? second = some v := by
  intro half both fresh day first second q
  have hbuild : build "holding" (.text "USD") [("S", both 1000), ("T", both 3000)] .equalWeight ⟨0⟩
      none [] none = .ok fresh := rfl
  have hdaily : ∀ e ∈ [("S", both 1000), ("T", both 3000)], e.2.RebalancesDaily := by
    intro e he
    simp only [List.mem_cons, List.not_mem_nil, or_false] at he
    rcases he with rfl | rfl <;> exact ⟨rfl, ⟨_, rfl⟩, rfl⟩
  have hday : handle (.market (day first)) fresh = (q, .ok ()) :=
    Action.eq_ok_of_toBool (by decide +kernel)
  have horders : q.orderCount = 4 := by decide +kernel
  have hbars : q.market.bars.get? first = some (day second).bars := by decide +kernel
  have hcloses : ∀ a, ((day second).bars.get? a).map (·.close) =
      (q.market.bar? first a).map (·.close) := by
    intro a
    rw [MarketHistory.bar?, hbars]
    rfl
  have hcredited : ∀ e ∈ (beforeTrading (day first) fresh).strategies.toList,
      Book.CreditedExactly e.2.assets (fillsOf e.1 q.fills) e.2.book := by decide +kernel
  have hreached : fresh = after [] fresh := rfl
  have hfills : q.fills = fresh.fills ++ q.fills := rfl
  obtain ⟨r, v, hr, hcount, -, hsame, -, hv, hv'⟩ := no_churn hbuild hdaily (Or.inr rfl) (by decide)
    hreached (by decide) hday (Or.inl rfl) (by decide +kernel) (by decide +kernel) hfills
    (fun n s hs => hcredited (n, s) (OrderedMap.get?_eq_some_iff.mp hs)) (by decide) hcloses rfl
    (by decide +kernel)
  exact ⟨horders, r, v, hr, hcount.trans horders, hsame, hv, hv'⟩

/-- A brokerage that has no bars fills nothing on the first day, so the second one orders again. -/
theorem churn_without_bars :
    let daily : Strategy := { Strategy.holder "A" with rule := .rebalancing .daily none }
    let fresh : Portfolio := { holding ["A"] with
      strategies := OrderedMap.ofList [("A", daily)]
      brokerage := Brokerage.start ⟨0⟩
      venue := some MarketHistory.empty }
    let first : MarketDay := .flat ⟨2024, 1, 2, by decide, by decide, by decide⟩ ["A"]
    let second : MarketDay := .flat ⟨2024, 1, 3, by decide, by decide, by decide⟩ ["A"]
    let q := after [.market first] fresh
    build "holding" (.text "USD") [("A", daily)] .selfFunded ⟨0⟩ none []
        (some MarketHistory.empty) = .ok fresh ∧ daily.RebalancesDaily ∧
      (handle (.market first) fresh).2.toBool = true ∧
      (beforeTrading first fresh).BooksValuedExactly first.date ∧ q.BooksValuedExactly first.date ∧
      q.fills = [] ∧ q.market.bars.get? first.date = some second.bars ∧
      (handle (.market second) q).2.toBool = true ∧ q.orderCount = 1 ∧
      (handle (.market second) q).1.orderCount = 2 := by
  intro daily fresh first second q
  refine ⟨rfl, ⟨rfl, ⟨_, rfl⟩, rfl⟩, ?_⟩
  decide +kernel

end Build

end Portfolio
end Backtesting
