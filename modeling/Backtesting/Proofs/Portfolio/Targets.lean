import Backtesting.Proofs.Portfolio.Apart
import Backtesting.Proofs.Portfolio.Dealings
import Backtesting.Proofs.Portfolio.Outcome

/-!
What becomes of the holdings that a strategy is told to reach. What is missing of each asset goes out
as one order, and an order is filled as a whole or not at all: in the end the holding is reached, or
the order was rejected and the holding is what it was. The brokerage would reject the same order
again, so where the holdings do not depend on the book any more, to ask for them again does nothing.
-/
namespace Backtesting

open Backtesting.Action (bind_eq_ok bind_ok)

namespace Portfolio

variable {d : Date} {n m : String} {a : Asset} {p q r u : Portfolio} {s t : Strategy}

/-- The order for what is missing of an asset would be rejected now. -/
def Rejects (p : Portfolio) (n : String) (d : Date) (s : Strategy) (e : Asset × Int) : Prop :=
  ∃ prices order outcome,
    s.pricing.prices p.market d e.1 (TradeAction.toward (s.position e.1) e.2) = .ok prices ∧
    (OrderRequest.toward n d e.1 (s.position e.1) e.2 prices).validate = .ok order ∧
    p.outcomeOf order = .ok outcome ∧ ∀ f, outcome ≠ .filled f

/-- A holding that is reached, or of which the order would be rejected. -/
def Settled (p : Portfolio) (n : String) (d : Date) (e : Asset × Int) : Prop :=
  ∃ s, p.strategies.get? n = some s ∧
    (s.position e.1 = e.2 ∨ s.position e.1 ≠ e.2 ∧ p.Rejects n d s e)

theorem pricing_of_setup_eq (h : t.setup = s.setup) : t.pricing = s.pricing :=
  (Strategy.mk.inj h).2.2.1

theorem Idle.sameStage (h : Idle p q) : SameStage p q := by
  obtain ⟨_, _, _, _, _, rfl⟩ := h
  exact ⟨rfl, rfl, rfl, rfl, rfl, rfl, rfl, rfl⟩

theorem Idle.strategies (h : Idle p q) : q.strategies = p.strategies := by
  obtain ⟨_, _, _, _, _, rfl⟩ := h
  rfl

theorem SameStage.symm (h : SameStage p q) : SameStage q p :=
  ⟨h.base.symm, h.allocator.symm, h.market.symm, h.fx.symm, h.equity.symm, h.venue.symm,
    h.commission.symm, h.keys.symm⟩

theorem SameStage.outcomeOf (h : SameStage p q) (o : Order) : q.outcomeOf o = p.outcomeOf o := by
  unfold Portfolio.outcomeOf matchedBar
  rw [h.commission, h.venue, h.market]

theorem Rejects.congr {e : Asset × Int} (h : p.Rejects n d s e) (hstage : SameStage p q)
    (hsetup : t.setup = s.setup) (hposition : t.position e.1 = s.position e.1) :
    q.Rejects n d t e := by
  obtain ⟨prices, order, outcome, hprices, hvalid, houtcome, hrejected⟩ := h
  refine ⟨prices, order, outcome, ?_, ?_, ?_, hrejected⟩
  · rw [pricing_of_setup_eq hsetup, hposition, hstage.market, hprices]
  · rw [hposition, hvalid]
  · rw [hstage.outcomeOf, houtcome]

theorem Settled.congr {e : Asset × Int} (h : p.Settled n d e) (hstage : SameStage p q)
    (hkept : ∀ s, p.strategies.get? n = some s → ∃ t, q.strategies.get? n = some t ∧
      t.setup = s.setup ∧ t.position e.1 = s.position e.1) : q.Settled n d e := by
  obtain ⟨s, hs, hsettled⟩ := h
  obtain ⟨t, ht, hsetup, hposition⟩ := hkept s hs
  refine ⟨t, ht, ?_⟩
  rw [hposition]
  exact hsettled.imp id fun ⟨hmissing, hrejects⟩ =>
    ⟨hmissing, hrejects.congr hstage hsetup hposition⟩

/-- One asset: nothing was missing, or what was missing was ordered and rejected, or it was filled. -/
theorem submitTarget_step {e : Asset × Int} (hs : p.strategies.get? n = some s)
    (h : submitTarget n d e p = (q, .ok ())) :
    s.position e.1 = e.2 ∧ q = p ∨
      s.position e.1 ≠ e.2 ∧ p.Rejects n d s e ∧ Idle p q ∨
      s.position e.1 ≠ e.2 ∧ ∃ b, q.strategies = p.strategies.put n { s with book := b } ∧
        b.target = s.book.target ∧ b.position e.1 = e.2 ∧
        ∀ x, x ≠ e.1 → b.position x = s.position x := by
  obtain ⟨s', hs', ⟨hreached, rfl⟩ | ⟨hmissing, prices, hprices, horder⟩⟩ := submitTarget_cases h
  all_goals obtain rfl : s = s' := Option.some.inj (hs.symm.trans hs')
  · exact Or.inl ⟨hreached, rfl⟩
  obtain ⟨order, outcome, hvalid, houtcome, -, ⟨hrejected, hidle⟩ | ⟨f, t, b, rfl, ht, hbook, hq, -⟩⟩ :=
    handleOrder_outcome horder
  · exact Or.inr (Or.inl
      ⟨hmissing, ⟨prices, order, outcome, hprices, hvalid, houtcome, hrejected⟩, hidle⟩)
  obtain ⟨-, hstrategy, hasset, haction, hquantity⟩ := OrderRequest.validate_toward hvalid
  obtain ⟨-, hstrategy', hasset', haction', hquantity'⟩ := execute_filled houtcome
  have hn : f.strategy = n := hstrategy'.trans hstrategy
  rw [hn] at ht hq
  obtain rfl : s = t := Option.some.inj (hs.symm.trans ht)
  obtain ⟨c, flow, v, -, -, -, rfl⟩ := Book.applyFill_eq_ok hbook
  have hsigned : f.signedQuantity = e.2 - s.position e.1 := by
    rw [Fill.signedQuantity, haction', haction, hquantity', hquantity, TradeAction.sign_toward_mul]
  have hposition : ∀ x, Book.position { s.book with
      positions := s.book.positions.put f.asset (s.book.position f.asset + f.signedQuantity)
      cash := s.book.cash.put c v } x =
        if x = f.asset then s.position f.asset + f.signedQuantity else s.position x :=
    fun x => OrderedMap.getD_put s.book.positions f.asset x _ 0
  rw [hasset'.trans hasset] at hposition
  refine Or.inr (Or.inr ⟨hmissing, _, hq, rfl, ?_, fun x hx => ?_⟩)
  · rw [hasset'.trans hasset, hposition, if_pos rfl, hsigned]
    omega
  · rw [hasset'.trans hasset, hposition, if_neg hx]

/-- After one asset its strategy is what it was but for the position in it, which is reached, or was
not filled. -/
theorem strategy_of_submitTarget {e : Asset × Int} (hs : p.strategies.get? n = some s)
    (h : submitTarget n d e p = (q, .ok ())) :
    ∃ t, q.strategies.get? n = some t ∧ t.setup = s.setup ∧ t.book.target = s.book.target ∧
      (∀ x, x ≠ e.1 → t.position x = s.position x) ∧
      (t.position e.1 = e.2 ∨ t.position e.1 = s.position e.1 ∧ t.position e.1 ≠ e.2 ∧
        p.Rejects n d s e) := by
  rcases submitTarget_step hs h with ⟨hreached, rfl⟩ | ⟨hmissing, hrejects, hidle⟩ |
    ⟨hmissing, b, hq, htarget, hposition, hothers⟩
  · exact ⟨s, hs, rfl, rfl, fun _ _ => rfl, Or.inl hreached⟩
  · refine ⟨s, by rw [hidle.strategies, hs], rfl, rfl, fun _ _ => rfl, Or.inr ?_⟩
    exact ⟨rfl, hmissing, hrejects⟩
  · exact ⟨{ s with book := b }, by simp [hq], rfl, htarget, hothers, Or.inl hposition⟩

theorem stage_of_submitTarget {e : Asset × Int} (h : submitTarget n d e p = (q, .ok ())) :
    SameStage p q := by
  have hframe := (SameStage.allowsFunding n).books.submitTarget d e p
  rwa [h] at hframe

theorem settled_of_submitTarget {e : Asset × Int} (h : submitTarget n d e p = (q, .ok ())) :
    q.Settled n d e := by
  obtain ⟨s, hs, -⟩ := submitTarget_cases h
  obtain ⟨t, ht, hsetup, -, -, hreached | ⟨hkept, hmissing, hrejects⟩⟩ :=
    strategy_of_submitTarget hs h
  · exact ⟨t, ht, Or.inl hreached⟩
  · exact ⟨t, ht, Or.inr ⟨hmissing, hrejects.congr (stage_of_submitTarget h) hsetup hkept⟩⟩

/-- Reaching for one asset unsettles no other. -/
theorem Settled.submitTarget {e e' : Asset × Int} (hsettled : p.Settled n d e) (hne : e.1 ≠ e'.1)
    (h : submitTarget n d e' p = (q, .ok ())) : q.Settled n d e := by
  refine hsettled.congr (stage_of_submitTarget h) fun s hs => ?_
  obtain ⟨t, ht, hsetup, -, hothers, -⟩ := strategy_of_submitTarget hs h
  exact ⟨t, ht, hsetup, hothers e.1 hne⟩

theorem Settled.forEach {l : List (Asset × Int)} {e : Asset × Int} (hsettled : p.Settled n d e)
    (hfresh : e.1 ∉ l.map Prod.fst) (h : Action.forEach l (Portfolio.submitTarget n d) p = (q, .ok ())) :
    q.Settled n d e := by
  induction l generalizing p with
  | nil => exact Action.forEach_nil_eq_ok.mp h ▸ hsettled
  | cons e' l ih =>
    obtain ⟨u, hu, hrest⟩ := Action.forEach_cons_eq_ok.mp h
    simp only [List.map_cons, List.mem_cons, not_or] at hfresh
    exact ih (hsettled.submitTarget hfresh.1 hu) hfresh.2 hrest

theorem settled_of_forEach {l : List (Asset × Int)} (hl : (l.map Prod.fst).Nodup)
    (h : Action.forEach l (submitTarget n d) p = (q, .ok ())) : ∀ e ∈ l, q.Settled n d e := by
  induction l generalizing p with
  | nil => simp
  | cons e l ih =>
    obtain ⟨hfresh, hl⟩ := List.nodup_cons.mp hl
    obtain ⟨u, hu, hrest⟩ := Action.forEach_cons_eq_ok.mp h
    intro e' he'
    rcases List.mem_cons.mp he' with rfl | he'
    · exact (settled_of_submitTarget hu).forEach hfresh hrest
    · exact ih hl hrest e' he'

/-- What is settled is asked for in vain. -/
theorem Settled.idle {e : Asset × Int} (h : p.Settled n d e) :
    ∃ q, Portfolio.submitTarget n d e p = (q, .ok ()) ∧ Idle p q := by
  obtain ⟨s, hs, hreached | ⟨hmissing, prices, order, outcome, hprices, hvalid, houtcome,
    hrejected⟩⟩ := h
  · exact ⟨p, (submitTarget_eq hs e).1 hreached, Idle.isPath.refl p⟩
  · rw [(submitTarget_eq hs e).2 hmissing hprices]
    exact (handleOrder_of_valid hs hvalid).2.1 outcome houtcome hrejected

theorem idle_of_settled {l : List (Asset × Int)} (h : ∀ e ∈ l, p.Settled n d e) :
    ∃ q, Action.forEach l (submitTarget n d) p = (q, .ok ()) ∧ Idle p q := by
  induction l generalizing p with
  | nil => exact ⟨p, rfl, Idle.isPath.refl p⟩
  | cons e l ih =>
    obtain ⟨u, hu, hidle⟩ := (h e (by simp)).idle
    have hsettled : ∀ e' ∈ l, u.Settled n d e' := fun e' he' =>
      (h e' (by simp [he'])).congr hidle.sameStage fun s hs =>
        ⟨s, by rw [hidle.strategies, hs], rfl, rfl⟩
    obtain ⟨q, hq, hidle'⟩ := ih hsettled
    exact ⟨q, Action.forEach_cons_eq_ok.mpr ⟨u, hu, hq⟩, Idle.isPath.trans hidle hidle'⟩

/-- The order for what a strategy misses of an asset. -/
structure Missing (p : Portfolio) (s : Strategy) (n : String) (d : Date) (e : Asset × Int)
    (r : OrderRequest) : Prop where
  date : r.date = d
  strategy : r.strategy = n
  asset : r.asset = e.1
  quantity : r.quantity = .integer (e.2 - s.position e.1).natAbs
  action : r.action = .buy ↔ s.position e.1 < e.2
  priced : ∃ prices, s.pricing.prices p.market d e.1 r.action = .ok prices ∧
    r.type = prices.type ∧ r.primary = prices.primary.map Amount.known ∧
    r.secondary = prices.secondary.map Amount.known

theorem missing_toward {e : Asset × Int} {prices : OrderPrices}
    (h : s.pricing.prices p.market d e.1 (TradeAction.toward (s.position e.1) e.2) = .ok prices) :
    p.Missing s n d e (OrderRequest.toward n d e.1 (s.position e.1) e.2 prices) where
  date := rfl
  strategy := rfl
  asset := rfl
  quantity := rfl
  action := TradeAction.toward_eq_buy_iff
  priced := ⟨prices, h, rfl, rfl, rfl⟩

theorem Missing.congr {e : Asset × Int} {r : OrderRequest} (h : q.Missing t n d e r)
    (hmarket : q.market = p.market) (hsetup : t.setup = s.setup)
    (hposition : t.position e.1 = s.position e.1) : p.Missing s n d e r where
  date := h.date
  strategy := h.strategy
  asset := h.asset
  quantity := hposition ▸ h.quantity
  action := hposition ▸ h.action
  priced := by
    obtain ⟨prices, hprices, hrest⟩ := h.priced
    rw [pricing_of_setup_eq hsetup, hmarket] at hprices
    exact ⟨prices, hprices, hrest⟩

/-- A strategy on its way to what it is told to hold: `l` are the assets so far. -/
structure Reaches (p q : Portfolio) (n : String) (d : Date) (s t : Strategy)
    (l : List (Asset × Int)) : Prop where
  get? : q.strategies.get? n = some t
  setup : t.setup = s.setup
  target : t.book.target = s.book.target
  others : ∀ x, x ∉ l.map Prod.fst → t.position x = s.position x
  each : ∀ e ∈ l, t.position e.1 = e.2 ∨ t.position e.1 = s.position e.1 ∧ p.Rejects n d s e

theorem stage_of_forEach {l : List (Asset × Int)}
    (h : Action.forEach l (submitTarget n d) p = (q, .ok ())) : SameStage p q :=
  Action.Moves.forEach SameStage.isPath (fun _ _ _ _ _ hstep => stage_of_submitTarget hstep) h

/-- One asset is asked for first, then the others. -/
theorem Reaches.cons {u : Portfolio} {t' : Strategy} {e : Asset × Int} {l : List (Asset × Int)}
    (hfresh : e.1 ∉ l.map Prod.fst) (hs : p.strategies.get? n = some s)
    (hu : submitTarget n d e p = (u, .ok ())) (ht : u.strategies.get? n = some t)
    (h : Reaches u q n d t t' l) : Reaches p q n d s t' (e :: l) := by
  have hstage := stage_of_submitTarget hu
  obtain ⟨t₁, ht₁, hsetup, htarget, hothers, hfirst⟩ := strategy_of_submitTarget hs hu
  obtain rfl : t = t₁ := Option.some.inj (ht.symm.trans ht₁)
  refine ⟨h.get?, h.setup.trans hsetup, h.target.trans htarget, fun x hx => ?_, fun e' he' => ?_⟩
  · simp only [List.map_cons, List.mem_cons, not_or] at hx
    exact (h.others x hx.2).trans (hothers x hx.1)
  · rcases List.mem_cons.mp he' with rfl | he'
    · rw [h.others e'.1 hfresh]
      exact hfirst.imp id fun hkept => ⟨hkept.1, hkept.2.2⟩
    · have hposition : t.position e'.1 = s.position e'.1 :=
        hothers e'.1 fun hsame => hfresh (hsame ▸ List.mem_map_of_mem he')
      rw [← hposition]
      refine (h.each e' he').imp id fun hkept => ⟨hkept.1, ?_⟩
      exact hkept.2.congr hstage.symm hsetup.symm hposition.symm

/-- Where the positions are the same, the same orders are missing. -/
theorem missing_congr {l : List (Asset × Int)} {orders : List OrderRequest}
    (hmarket : q.market = p.market) (hsetup : t.setup = s.setup)
    (hpositions : ∀ e ∈ l, t.position e.1 = s.position e.1)
    (h : List.Forall₂ (q.Missing t n d) (l.filter fun e => t.position e.1 ≠ e.2) orders) :
    List.Forall₂ (p.Missing s n d) (l.filter fun e => s.position e.1 ≠ e.2) orders := by
  have hsame : (l.filter fun e => t.position e.1 ≠ e.2) =
      l.filter fun e => s.position e.1 ≠ e.2 :=
    List.filter_congr fun e he => by rw [hpositions e he]
  rw [hsame] at h
  have hkept : ∀ e ∈ l.filter fun e => s.position e.1 ≠ e.2, t.position e.1 = s.position e.1 :=
    fun e he => hpositions e (List.mem_filter.mp he).1
  refine List.Forall₂.imp (fun e r hr => ?_) ((List.forall₂_and_left _ _).mpr ⟨hkept, h⟩)
  exact hr.2.congr hmarket hsetup hr.1

/-- What is missing goes out order by order, and each holding is reached or its order rejected. -/
theorem reaches_of_forEach {l : List (Asset × Int)} (hl : (l.map Prod.fst).Nodup)
    (hs : p.strategies.get? n = some s)
    (h : Action.forEach l (submitTarget n d) p = (q, .ok ())) :
    ∃ t orders, Reaches p q n d s t l ∧
      List.Forall₂ (p.Missing s n d) (l.filter fun e => s.position e.1 ≠ e.2) orders ∧
      Action.forEach orders handleOrder p = (q, .ok ()) ∧
      q.orderCount = p.orderCount + orders.length := by
  induction l generalizing p s with
  | nil =>
    obtain rfl := Action.forEach_nil_eq_ok.mp h
    exact ⟨s, [], ⟨hs, rfl, rfl, fun _ _ => rfl, by simp⟩, .nil, rfl, rfl⟩
  | cons e l ih =>
    obtain ⟨hfresh, hl⟩ := List.nodup_cons.mp hl
    obtain ⟨u, hu, hrest⟩ := Action.forEach_cons_eq_ok.mp h
    obtain ⟨t, ht, hsetup, -, hothers, -⟩ := strategy_of_submitTarget hs hu
    obtain ⟨t', orders, hreaches, hmissing, horders, hcount⟩ := ih hl ht hrest
    have hreached := hreaches.cons hfresh hs hu ht
    have hlater := missing_congr (stage_of_submitTarget hu).market hsetup
      (fun e' he' => hothers e'.1 fun hsame => hfresh (hsame ▸ List.mem_map_of_mem he')) hmissing
    obtain ⟨s', hs', ⟨hnone, rfl⟩ | ⟨hsome, prices, hprices, horder⟩⟩ := submitTarget_cases hu
    all_goals obtain rfl : s = s' := Option.some.inj (hs.symm.trans hs')
    · refine ⟨t', orders, hreached, ?_, horders, hcount⟩
      rwa [List.filter_cons_of_neg (by simpa using hnone)]
    · refine ⟨t', _ :: orders, hreached, ?_, Action.forEach_cons_eq_ok.mpr ⟨u, horder, horders⟩, ?_⟩
      · rw [List.filter_cons_of_pos (by simpa using hsome)]
        exact .cons (missing_toward hprices) hlater
      · obtain ⟨-, -, -, -, hone, -⟩ := handleOrder_outcome horder
        rw [hcount, hone, List.length_cons]
        omega

/-- A strategy that trades at the close needs a bar and places market orders. -/
theorem terms_at_close {order : Order} {prices : OrderPrices} {held desired : Int}
    {market : MarketHistory} {action : TradeAction}
    (hprices : Pricing.closePrice.prices market d a action = .ok prices)
    (hvalid : (OrderRequest.toward n d a held desired prices).validate = .ok order) :
    (∃ bar, market.bar? d a = some bar) ∧ ∃ primary secondary, order.terms = .market primary secondary := by
  obtain ⟨bar, hrequired, hprices⟩ := Except.bind_eq_ok.mp hprices
  obtain rfl := Except.ok.inj (Decimal.lift_eq_ok.mp hprices)
  obtain ⟨primary, secondary, hterms⟩ := terms_of_validate hvalid
  exact ⟨⟨bar, Book.requireBar_eq_ok.mp hrequired⟩, primary, secondary, (Except.ok.inj hterms).symm⟩

/-- A market order is filled as a whole, at the close that it is matched against. -/
theorem outcomeOf_at_close {o : Order} {primary secondary : Option Decimal} {bar : Bar}
    (hterms : o.terms = .market primary secondary)
    (hmatched : p.matchedBar o.date o.asset = some bar) :
    p.outcomeOf o = (do
      let cost ← Decimal.lift (p.brokerage.commission.on bar.close o.quantity)
      pure (.filled ⟨o.date, o.strategy, o.asset, o.action, bar.close, o.quantity, cost⟩)) := by
  unfold outcomeOf
  rw [hmatched]
  simp only [Brokerage.execute, Order.fillPrice, hterms, Decimal.lift_ok, Except.ok_bind]

/-- A market order that the brokerage has a bar for is not rejected. -/
theorem not_rejects_of_closePrice {e : Asset × Int} (hpricing : s.pricing = .closePrice)
    (hbar : p.venue = none ∨ (p.matchedBar d e.1).isSome) : ¬ p.Rejects n d s e := by
  rintro ⟨prices, order, outcome, hprices, hvalid, houtcome, hrejected⟩
  obtain ⟨hdate, -, hasset, -⟩ := OrderRequest.validate_toward hvalid
  rw [hpricing] at hprices
  obtain ⟨⟨bar, hquoted⟩, primary, secondary, hterms⟩ := terms_at_close hprices hvalid
  obtain ⟨matched, hmatched⟩ : ∃ matched, p.matchedBar order.date order.asset = some matched := by
    rw [hdate, hasset]
    rcases hbar with hown | hbar
    · refine ⟨bar, ?_⟩
      unfold matchedBar
      rw [hown]
      exact hquoted
    · exact Option.isSome_iff_exists.mp hbar
  rw [outcomeOf_at_close hterms hmatched] at houtcome
  obtain ⟨cost, -, houtcome⟩ := Except.bind_eq_ok.mp houtcome
  exact hrejected _ (Except.pure_eq_ok.mp houtcome).symm

/-- The holdings that an event asks of a strategy in the state `p`: by its signals and the sizer of the
strategy, or by the weights of a rebalancing. -/
inductive Asks (p : Portfolio) : Event → Date → String → Strategy → OrderedMap Asset Int → Prop
  | signal {d n s signals sizes} (hs : p.strategies.get? n = some s)
      (hsizes : s.sizesFor s.sizer d signals p.market p.fx = .ok sizes) :
      Asks p (.signal d n signals) d n s sizes
  | rebalance {d n s weights sizer sizes} (hs : p.strategies.get? n = some s)
      (hsizer : Sizer.fixed weights = .ok sizer)
      (hsizes : s.sizesFor sizer d (Signals.same .rebalance (weights.map Prod.fst)) p.market p.fx =
        .ok sizes) :
      Asks p (.rebalance d n weights) d n s sizes

end Portfolio

namespace Event

/-- The events that tell a strategy what to hold. -/
def IsTargeting : Event → Prop
  | signal .. | rebalance .. => True
  | _ => False

/-- The assets that such an event is about. -/
def signaled : Event → List Asset
  | signal _ _ signals => signals.keys
  | rebalance _ _ weights => (Signals.same .rebalance (weights.map Prod.fst)).keys
  | _ => []

/-- The signals that are counted. -/
def signalCount : Event → Nat
  | signal _ _ signals => signals.size
  | _ => 0

end Event

/-- Once there is a target capital, sizes do not depend on what is held. -/
theorem Strategy.sizesFor_eq_of_target {s t : Strategy} (hsetup : t.setup = s.setup)
    (htarget : t.book.target = s.book.target) (hfunded : s.book.target.isEmpty = false)
    (sizer : Sizer) (d : Date) (signals : Signals) (market : MarketHistory) (fx : FxHistory) :
    t.sizesFor sizer d signals market fx = s.sizesFor sizer d signals market fx := by
  have hcapital : Sizer.capital t.book s.assets d market fx =
      Sizer.capital s.book s.assets d market fx := by
    simp [Sizer.capital, htarget, hfunded]
  unfold sizesFor Sizer.sizesFor
  rw [assets_of_setup_eq hsetup, hcapital]

namespace Portfolio

variable {d : Date} {n : String} {p q : Portfolio} {s t : Strategy} {e : Event}
  {sizes : OrderedMap Asset Int}

/-- The portfolio once the signals of an event are counted. -/
def counting (p : Portfolio) (e : Event) : Portfolio :=
  { p with signalCount := p.signalCount + e.signalCount }

theorem stage_counting (p : Portfolio) (e : Event) : SameStage p (p.counting e) :=
  ⟨rfl, rfl, rfl, rfl, rfl, rfl, rfl, rfl⟩

theorem Asks.get? (h : p.Asks e d n s sizes) : p.strategies.get? n = some s := by
  cases h <;> assumption

theorem Asks.keys (h : p.Asks e d n s sizes) : sizes.keys = e.signaled := by
  cases h with
  | signal hs hsizes => exact Sizer.keys_of_sizesFor hsizes
  | rebalance hs hsizer hsizes => exact Sizer.keys_of_sizesFor hsizes

/-- An event that tells a strategy what to hold counts its signals and goes for the holdings. -/
theorem Asks.handle_eq (h : p.Asks e d n s sizes) :
    handle e p = Action.forEach sizes.toList (submitTarget n d) (p.counting e) := by
  cases h with
  | @signal d n s signals sizes hs hsizes =>
    have hknown : Action.read (·.strategy n) p = (p, .ok s) :=
      Action.read_eq_ok.mpr ⟨rfl, strategy_eq_ok.mpr hs⟩
    have hcount : Action.modify (fun p : Portfolio =>
        { p with signalCount := p.signalCount + signals.size }) p =
          ({ p with signalCount := p.signalCount + signals.size }, .ok ()) := rfl
    refine (bind_ok hknown).trans ((bind_ok hcount).trans (bind_ok ?_))
    exact Action.read_eq_ok.mpr ⟨rfl, hsizes⟩
  | rebalance hs hsizer hsizes =>
    have hknown : Action.read (·.strategy n) p = (p, .ok s) :=
      Action.read_eq_ok.mpr ⟨rfl, strategy_eq_ok.mpr hs⟩
    refine (bind_ok hknown).trans
      ((bind_ok (Action.ofExcept_eq_ok.mpr ⟨rfl, hsizer⟩)).trans (bind_ok ?_))
    exact Action.read_eq_ok.mpr ⟨rfl, hsizes⟩

theorem exists_asks (he : e.IsTargeting) (h : handle e p = (q, .ok ())) :
    ∃ d n s sizes, p.Asks e d n s sizes := by
  cases e with
  | signal d n signals =>
    obtain ⟨u, s, hread, hcounted⟩ := bind_eq_ok.mp h
    obtain ⟨rfl, hs⟩ := Action.read_eq_ok.mp hread
    obtain ⟨v, _, hcount, hsized⟩ := bind_eq_ok.mp hcounted
    obtain rfl := Action.modify_eq_ok.mp hcount
    obtain ⟨w, sizes, hsizes, -⟩ := bind_eq_ok.mp hsized
    exact ⟨d, n, s, sizes, .signal (strategy_eq_ok.mp hs) (Action.read_eq_ok.mp hsizes).2⟩
  | rebalance d n weights =>
    obtain ⟨u, s, hread, hfixed⟩ := bind_eq_ok.mp h
    obtain ⟨rfl, hs⟩ := Action.read_eq_ok.mp hread
    obtain ⟨v, sizer, hsizer, hsized⟩ := bind_eq_ok.mp hfixed
    obtain ⟨rfl, hweights⟩ := Action.ofExcept_eq_ok.mp hsizer
    obtain ⟨w, sizes, hsizes, -⟩ := bind_eq_ok.mp hsized
    exact ⟨d, n, s, sizes,
      .rebalance (strategy_eq_ok.mp hs) hweights (Action.read_eq_ok.mp hsizes).2⟩
  | _ => exact absurd he id

/-- Once there is a target capital, the same event asks for the same holdings. -/
theorem Asks.again (h : p.Asks e d n s sizes) (hstage : SameStage p q)
    (ht : q.strategies.get? n = some t) (hsetup : t.setup = s.setup)
    (htarget : t.book.target = s.book.target) (hfunded : s.book.target.isEmpty = false) :
    q.Asks e d n t sizes := by
  have hsizer : t.sizer = s.sizer := (Strategy.mk.inj hsetup).2.1
  cases h with
  | signal hs hsizes =>
    refine .signal ht ?_
    rw [Strategy.sizesFor_eq_of_target hsetup htarget hfunded, hsizer, hstage.market, hstage.fx,
      hsizes]
  | rebalance hs hfixed hsizes =>
    refine .rebalance ht hfixed ?_
    rw [Strategy.sizesFor_eq_of_target hsetup htarget hfunded, hstage.market, hstage.fx, hsizes]

/-- The event once more: every holding is settled, so nothing but counting happens. -/
theorem Asks.idle_again (h : p.Asks e d n s sizes) (hok : handle e p = (q, .ok ()))
    (ht : q.strategies.get? n = some t) (hsetup : t.setup = s.setup)
    (htarget : t.book.target = s.book.target) (hfunded : s.book.target.isEmpty = false) :
    ∃ r, handle e q = (r, .ok ()) ∧ Idle q r := by
  rw [h.handle_eq] at hok
  have hstage : SameStage p q := SameStage.isPath.trans (stage_counting p e) (stage_of_forEach hok)
  have hcounted : Idle q (q.counting e) := ⟨_, _, _, _, _, rfl⟩
  obtain ⟨r, hr, hidle⟩ := idle_of_settled fun x hx =>
    (settled_of_forEach sizes.nodup hok x hx).congr hcounted.sameStage fun s hs => ⟨s, hs, rfl, rfl⟩
  refine ⟨r, ?_, Idle.isPath.trans hcounted hidle⟩
  rw [(h.again hstage ht hsetup htarget hfunded).handle_eq, hr]

/-- A strategy in the state `p`: what it signals on a day, and the holdings that it asks for by this. -/
structure Runs (p : Portfolio) (d : Date) (n : String) (s : Strategy) (rule : Rule)
    (signals : Signals) (sizes : OrderedMap Asset Int) : Prop where
  get? : p.strategies.get? n = some s
  found : s.rule.signals p.market s.position s.assets.keys d = .ok (rule, signals)
  sized : s.sizesFor s.sizer d signals p.market p.fx = .ok sizes

/-- The portfolio once a strategy has signaled, which its rule may remember. -/
def signaling (p : Portfolio) (d : Date) (n : String) (s : Strategy) (rule : Rule)
    (signals : Signals) : Portfolio :=
  { p with strategies := p.strategies.put n { s with rule } }.counting (.signal d n signals)

/-- A strategy signals and goes for the holdings. -/
theorem Runs.eq {rule : Rule} {signals : Signals} (h : p.Runs d n s rule signals sizes) :
    runStrategy d n p =
      Action.forEach sizes.toList (submitTarget n d) (p.signaling d n s rule signals) := by
  let u : Portfolio := { p with strategies := p.strategies.put n { s with rule } }
  have hget : (Action.get : Action Portfolio Portfolio) p = (p, .ok p) := rfl
  have hsignals : s.signals d p.market = .ok ({ s with rule }, signals) :=
    Except.bind_eq_ok.mpr ⟨(rule, signals), h.found, rfl⟩
  refine (bind_ok hget).trans
    ((bind_ok (onStrategy_ok (t := { s with rule }) h.get? (by rw [hsignals]))).trans ?_)
  split
  · have hasks : u.Asks (.signal d n signals) d n { s with rule } sizes :=
      .signal (by simp [u]) h.sized
    exact hasks.handle_eq
  · next hnone =>
    -- without signals there is nothing to count and nothing to hold
    have hempty : signals.isEmpty = true := by simpa using hnone
    have hnil : signals.toList = [] := by simpa [OrderedMap.isEmpty] using hempty
    have hsizes : sizes = OrderedMap.empty := by
      have hsized := h.sized
      rw [Strategy.sizesFor, Sizer.sizesFor, if_pos hempty] at hsized
      exact (Except.ok.inj hsized).symm
    have hcount : p.signaling d n s rule signals = u := by
      unfold signaling counting
      rw [show (Event.signal d n signals).signalCount = 0 by
        simp [Event.signalCount, OrderedMap.size, hnil]]
      rfl
    rw [hcount, hsizes]
    rfl

theorem exists_runs (h : runStrategy d n p = (q, .ok ())) :
    ∃ s rule signals sizes, p.Runs d n s rule signals sizes := by
  obtain ⟨u, p', hget, hsignaled⟩ := bind_eq_ok.mp h
  obtain ⟨rfl, rfl⟩ := Action.get_eq_ok.mp hget
  obtain ⟨v, signals, hsignals, hrest⟩ := bind_eq_ok.mp hsignaled
  obtain ⟨s, t, hs, hfound, rfl⟩ := signals_eq_ok hsignals
  obtain ⟨⟨rule, found⟩, hrule, ht⟩ := Except.bind_eq_ok.mp hfound
  obtain ⟨rfl, rfl⟩ := Prod.mk.inj (Except.pure_eq_ok.mp ht)
  split at hrest
  · obtain ⟨d', n', t, sizes, hasks⟩ := exists_asks (e := .signal d n found) trivial hrest
    cases hasks with
    | signal ht hsizes =>
      obtain rfl : { s with rule } = t := by simpa using ht
      exact ⟨s, rule, found, sizes, hs, hrule, hsizes⟩
  · next hnone =>
    refine ⟨s, rule, found, OrderedMap.empty, hs, hrule, ?_⟩
    rw [Strategy.sizesFor, Sizer.sizesFor, if_pos (by simpa using hnone)]

/-- What a strategy is told to hold goes out as one order for each asset of which anything is missing.
Each holding is then reached, or its order was rejected and it is what it was; an order at the close is
not rejected where the brokerage has a bar to fill it at, as it has where it looks at the bars of the
portfolio. Nothing else is traded. Where the strategy has been given capital, the same event once more
trades nothing at all. -/
theorem all_or_nothing (he : e.IsTargeting) (h : handle e p = (q, .ok ())) :
    ∃ d n s sizes orders fs, p.Asks e d n s sizes ∧ sizes.keys = e.signaled ∧
      List.Forall₂ (p.Missing s n d) (sizes.toList.filter fun x => s.position x.1 ≠ x.2) orders ∧
      Action.forEach orders handleOrder (p.counting e) = (q, .ok ()) ∧
      q.orderCount = p.orderCount + orders.length ∧ Accounts p q fs ∧
      (∀ x ∈ sizes.toList, q.positionOf n x.1 = x.2 ∨
        q.positionOf n x.1 = s.position x.1 ∧ p.Rejects n d s x) ∧
      (s.pricing = .closePrice → ∀ x ∈ sizes.toList,
        p.venue = none ∨ (p.matchedBar d x.1).isSome → q.positionOf n x.1 = x.2) ∧
      (∀ a ∉ e.signaled, q.positionOf n a = s.position a) ∧
      (∀ m, m ≠ n → q.strategies.get? m = p.strategies.get? m) ∧
      (s.book.target.isEmpty = false → ∃ r, handle e q = (r, .ok ()) ∧ r.fills = q.fills ∧
        r.brokerage.fills = q.brokerage.fills ∧ r.strategies = q.strategies) := by
  obtain ⟨d, n, s, sizes, hasks⟩ := exists_asks he h
  have hrun := hasks.handle_eq ▸ h
  obtain ⟨t, orders, hreaches, hmissing, horders, hcount⟩ :=
    reaches_of_forEach (p := p.counting e) sizes.nodup hasks.get? hrun
  obtain ⟨fs, htrades, -, -⟩ := forEach_submitTarget sizes.nodup hrun
  have hposition : ∀ a, q.positionOf n a = t.position a := fun a => positionOf_of_get? hreaches.get?
  have heach : ∀ x ∈ sizes.toList, q.positionOf n x.1 = x.2 ∨
      q.positionOf n x.1 = s.position x.1 ∧ p.Rejects n d s x := by
    intro x hx
    rw [hposition]
    exact hreaches.each x hx
  refine ⟨d, n, s, sizes, orders, fs, hasks, hasks.keys, ?_, horders, hcount, ?_, heach, ?_, ?_, ?_, ?_⟩
  · exact hmissing.imp fun x r hr => hr.congr rfl rfl rfl
  · exact ⟨htrades.fills, htrades.brokered, htrades.known, htrades.submitted, htrades.settled,
      htrades.keys⟩
  · intro hpricing x hx hbar
    exact (heach x hx).resolve_right fun hkept => not_rejects_of_closePrice hpricing hbar hkept.2
  · intro a ha
    rw [hposition]
    exact hreaches.others a (by rwa [← hasks.keys] at ha)
  · intro m hm
    have hframe : SamePart m (p.counting e) q :=
      Action.Moves.forEach (allowsFunding_samePart hm).path
        (fun x _ p q u hstep => by
          have hkept := (allowsFunding_samePart hm).books.submitTarget d x p
          rwa [hstep] at hkept) hrun
    exact hframe.1
  · intro hfunded
    obtain ⟨r, hr, hidle⟩ :=
      hasks.idle_again h hreaches.get? hreaches.setup hreaches.target hfunded
    obtain ⟨_, _, _, _, _, rfl⟩ := hidle
    exact ⟨_, hr, rfl, rfl, rfl⟩

/-- A brokerage that looks at other bars than the portfolio may have none for an order at the close. -/
theorem unmatched_order_misses :
    let day : MarketDay := .flat ⟨2024, 1, 2, by decide, by decide, by decide⟩ ["A"]
    let fresh : Portfolio := { holding ["A"] with venue := some MarketHistory.empty }
    let signals := Signals.same .long ["A"]
    let e : Event := .signal day.date "A" signals
    let p := after [.market day] fresh
    build "holding" (.text "USD") [("A", Strategy.holder "A")] .selfFunded Commission.standard none []
        (some MarketHistory.empty) = .ok fresh ∧
      (p.strategies.get? "A").map (fun s =>
        (s.pricing, (s.sizesFor s.sizer day.date signals p.market p.fx).toOption.map (·.toList))) =
          some (.closePrice, some [("A", 100)]) ∧
      (handle e p).2.toBool = true ∧ (handle e p).1.positionOf "A" "A" = 0 := by
  refine ⟨rfl, ?_⟩
  decide +kernel

/-- A brokerage that has bars of one of two assets fills one of two orders, and nothing more when it is
asked again. -/
theorem all_or_nothing_half_matched :
    let day : MarketDay := .flat ⟨2024, 1, 2, by decide, by decide, by decide⟩ ["A", "B"]
    let half : Decimal := .finite false 5 (-1)
    let both : Strategy := { Strategy.holder "A" with
      assets := OrderedMap.ofList [("A", .usd), ("B", .usd)]
      sizer := .fixedWeight (OrderedMap.ofList [("A", half), ("B", half)]) }
    let fresh : Portfolio := { holding ["A"] with
      strategies := OrderedMap.ofList [("S", both)]
      venue := some ⟨Chronicle.empty.put day.date (MarketDay.flat day.date ["A"]).bars⟩ }
    let e : Event := .signal day.date "S" (OrderedMap.ofList [("A", .exit), ("B", .long)])
    let p := after [.market day] fresh
    let q := (handle e p).1
    (p.positionOf "S" "A", p.positionOf "S" "B") = (50, 0) ∧
      (q.positionOf "S" "A", q.positionOf "S" "B") = (0, 0) ∧
      q.orderCount = p.orderCount + 2 ∧ q.fills.length = p.fills.length + 1 ∧
      ∃ r, handle e q = (r, .ok ()) ∧ r.fills = q.fills ∧ r.strategies = q.strategies := by
  intro day half both fresh e p q
  have hbefore : (p.positionOf "S" "A", p.positionOf "S" "B") = (50, 0) := by decide +kernel
  have hafter : (q.positionOf "S" "A", q.positionOf "S" "B") = (0, 0) := by decide +kernel
  have horders : q.orderCount = p.orderCount + 2 := by decide +kernel
  have hfills : q.fills.length = p.fills.length + 1 := by decide +kernel
  have hfunded : (p.strategies.get? "S").map (·.book.target.isEmpty) = some false := by
    decide +kernel
  have hok : handle e p = (q, .ok ()) := Action.eq_ok_of_toBool (by decide +kernel)
  obtain ⟨d, n, s, sizes, orders, fs, hasks, -, -, -, -, -, -, -, -, -, hagain⟩ :=
    all_or_nothing (by trivial) hok
  have hname : n = "S" := by
    have hsignal : p.Asks (.signal day.date "S" (OrderedMap.ofList [("A", .exit), ("B", .long)]))
      d n s sizes := hasks
    cases hsignal
    rfl
  rw [← hname, hasks.get?] at hfunded
  obtain ⟨r, hr, hsame, -, hstrategies⟩ := hagain (Option.some.inj hfunded)
  exact ⟨hbefore, hafter, horders, hfills, r, hr, hsame, hstrategies⟩

end Portfolio
end Backtesting
