import Backtesting.Proofs.Market.Closes
import Backtesting.Proofs.Market.Money
import Backtesting.Proofs.Portfolio.Domain
import Backtesting.Proofs.Portfolio.Par
import Backtesting.Proofs.Portfolio.Rebook
import Backtesting.Proofs.Portfolio.Stores
import Backtesting.Proofs.Trading.Pricing

/-!
The money of a portfolio over days that succeed. Prices and rates come in with a day, and fills are paid
at prices of bars or orders: where those are of a domain, all prices, rates, balances, capital and values
stay in it. No order asks for a NaN, since its prices are compared with zero. Nor does an infinite split
get through its day: it fails when the volume of its own bar is adjusted.
-/
namespace Backtesting

open Backtesting.Action (IsPath Moves Safe)
open Backtesting.Decimal (Domain)
open Backtesting.Except (FailsOnly Gives)

variable {D : Domain}

namespace MarketHistory

/-- What the splits of a day keep of each bar, they keep of all. -/
theorem All.splitOn {P : Bar → Prop} {h : MarketHistory} {day : MarketDay} (hall : h.All P)
    (hadjust : ∀ e ∈ day.splits, ∀ b b', P b → b.adjustedForSplit e.2.split = .ok b' → P b') :
    (h.splitOn day).All P := by
  show (day.splits.foldl (fun h e => (h.split e.1 e.2.split).1) h).All P
  generalize day.splits = splits at hadjust ⊢
  induction splits generalizing h with
  | nil => exact hall
  | cons e l ih =>
    obtain ⟨hfirst, hrest⟩ := List.forall_mem_cons.mp hadjust
    have hgives : ∀ b, P b → Gives (fun _ => True) P (b.adjustedForSplit e.2.split) :=
      fun b hb => ⟨.any _, fun b' hb' => hfirst b b' hb hb'⟩
    exact ih (hall.split e.1 hgives).1 hrest

end MarketHistory

/-- What the dividends and splits of a day make of a book. -/
theorem Book.safe_act {day : MarketDay} (hday : day.Brings D) (l : Listings) :
    Safe (Error.EndsReplay D True) (Within D) (Book.act day l) := by
  refine Safe.bind (Safe.forEach fun e he => ?_) fun _ => Safe.forEach fun e he => ?_
  · have hbar := hday.bars e.1 e.2 (OrderedMap.get?_eq_some_iff.mpr (List.mem_of_mem_filter he))
    unfold receive
    split
    · exact Safe.bind (safe_applyDividend l e.1 hbar.dividend) fun _ => Safe.pure ()
    · exact Safe.pure ()
  · have hbar := hday.bars e.1 e.2 (MarketDay.get?_of_mem_splits he)
    unfold adjust
    split
    · exact Safe.update_of_gives fun b hb => hb.applySplit e.1 hbar.split
    · exact Safe.pure ()

/-- The prices of a valid order were compared with zero. -/
theorem OrderRequest.within_undefined_of_validate {r : OrderRequest} {o : Order}
    (h : r.validate = .ok o) : o.terms.Within (Domain.without .undefined) := by
  obtain ⟨primary, -, h⟩ := Except.bind_eq_ok.mp h
  obtain ⟨secondary, -, h⟩ := Except.bind_eq_ok.mp h
  obtain ⟨quantity, -, h⟩ := Except.bind_eq_ok.mp h
  split at h
  · obtain ⟨terms, hterms, h⟩ := Except.bind_eq_ok.mp h
    obtain ⟨hprimary, h⟩ := Except.bind_unit_eq_ok.mp h
    obtain ⟨hsecondary, h⟩ := Except.bind_unit_eq_ok.mp h
    obtain rfl := Except.pure_eq_ok.mp h
    have hgives : Gives (Error.EndsReplay _ True) (OrderTerms.Within (Domain.without .undefined))
        (r.terms primary secondary) :=
      gives_terms r (fun x hx => Decimal.has_of_ordered (requirePositive_eq_ok.mp hprimary x hx))
        fun x hx => Decimal.has_of_ordered (requirePositive_eq_ok.mp hsecondary x hx)
    exact hgives.value terms hterms
  · exact absurd h Except.throw_ne_ok

/-- Orders at the prices of the policy name prices of the domain, as long as bars are in it. -/
def Pricing.OrdersIn (D : Domain) (pricing : Pricing) : Prop :=
  ∀ ⦃market : MarketHistory⦄, market.Within D → ∀ ⦃n d a held desired prices o⦄,
    pricing.prices market d a (TradeAction.toward held desired) = .ok prices →
    (OrderRequest.toward n d a held desired prices).validate = .ok o → o.terms.Within D

theorem Pricing.ordersIn_undefined (pricing : Pricing) :
    pricing.OrdersIn (Domain.without .undefined) :=
  fun _ _ _ _ _ _ _ _ _ _ hvalid => OrderRequest.within_undefined_of_validate hvalid

theorem Pricing.Within.ordersIn {pricing : Pricing} (hp : pricing.Within D) : pricing.OrdersIn D := by
  intro market hmarket n d a held desired prices o hprices hvalid
  have hwithin : prices.Within D :=
    (gives_prices hp hmarket d a _ : Gives (Error.EndsReplay D True) _ _).value prices hprices
  have hrequest : (OrderRequest.toward n d a held desired prices).Within D := by
    refine ⟨⟨_, rfl⟩, fun p hp => ?_, fun p hp => ?_⟩
    · obtain ⟨x, hx, rfl⟩ := Option.map_eq_some_iff.mp hp
      exact ⟨x, rfl, hwithin.primary x hx⟩
    · obtain ⟨x, hx, rfl⟩ := Option.map_eq_some_iff.mp hp
      exact ⟨x, rfl, hwithin.secondary x hx⟩
  exact (hrequest.validate : Gives (Error.EndsReplay D True) _ _).value o hvalid

namespace Portfolio

/-- All balances and all capital are in the domain. -/
def BooksIn (D : Domain) (p : Portfolio) : Prop :=
  ∀ n s, p.strategies.get? n = some s → s.book.Within D

/-- All money that a portfolio knows of is in the domain. -/
structure MoneyIn (D : Domain) (p : Portfolio) : Prop where
  market : p.market.Within D
  fx : p.fx.Within D
  books : p.BooksIn D
  equity : p.equity.values.All D.Has

/-- Whatever is traded is paid in money of the domain, as long as the bars are in it, and capital comes
from what the strategies are worth. -/
structure DealsIn (D : Domain) (p : Portfolio) : Prop where
  orders : ∀ n s, p.strategies.get? n = some s → s.pricing.OrdersIn D
  commission : D.Has p.brokerage.commission.rate
  venue : ∀ h, p.venue = some h → h.Within D
  allocator : p.allocator = .selfFunded ∨ p.allocator = .equalWeight

variable {d : Date} {n : String} {day : MarketDay} {p q : Portfolio}

theorem DealsIn.congr (hp : p.DealsIn D) (h : q.setup = p.setup) : q.DealsIn D := by
  obtain ⟨-, -, -, hallocator, hvenue, -, hcommission⟩ := config_of_setup_eq h
  refine ⟨fun n t ht => ?_, hcommission ▸ hp.commission, hvenue ▸ hp.venue,
    hallocator ▸ hp.allocator⟩
  obtain ⟨s, hs, hsetup⟩ := setup_of_get? h ht
  rw [pricing_of_setup_eq hsetup]
  exact hp.orders n s hs

/-- The dividends and the splits of a day are of the domain, and so is what they make of the books. -/
theorem BooksIn.applyCorporateActions (hp : p.BooksIn D) (hday : day.Brings D)
    (h : Portfolio.applyCorporateActions day p = (q, .ok ())) : q.BooksIn D := by
  have hactions := rebooksAll_applyCorporateActions h
  intro n t ht
  obtain ⟨s, hs⟩ := OrderedMap.mem_keys_iff.mp (hactions.keys ▸ OrderedMap.mem_keys_of_get? ht)
  obtain ⟨b, hb, hq⟩ := hactions.books hs
  obtain rfl := Option.some.inj (hq.symm.trans ht)
  exact (Book.safe_act hday s.assets).ok (hp n s hs) hb

/-- The capital of a strategy comes from what books are worth. -/
theorem has_of_shares {s : Strategy} {x : Decimal} (hp : p.BooksIn D) (hmarket : p.market.Within D)
    (hfx : p.fx.Within D) (hs : p.strategies.get? n = some s)
    (h : Shares p.allocator p.strategies d p.base p.market p.fx n x) : D.Has x := by
  unfold Shares at h
  split at h
  · obtain ⟨t, ht, hx⟩ := h
    exact ((hp n t ht).totalValue hmarket hfx : Gives (Error.EndsReplay D True) _ _).value x hx
  · obtain ⟨total, htotal, hx⟩ := h
    have hcount : 0 < (p.strategies.size : Int) := by
      have hmem := List.length_pos_of_mem (OrderedMap.get?_eq_some_iff.mp hs)
      exact_mod_cast hmem
    have hhas : D.Has total :=
      (gives_totalValue hp hmarket hfx d p.base : Gives (Error.EndsReplay D True) _ _).value total htotal
    exact (D.div hhas (D.ofInt _) (Decimal.isAtMost_ofInt hcount)).value x hx
  · exact absurd h id

theorem BooksIn.allocateCapital (hp : p.BooksIn D) (hdeals : p.DealsIn D)
    (hmarket : p.market.Within D) (hfx : p.fx.Within D)
    (h : Portfolio.allocateCapital d p = (q, .ok ())) : q.BooksIn D := by
  obtain ⟨strategies, rfl, hkeys, -⟩ := allocateCapital_eq_ok h
  intro n t ht
  obtain ⟨s, hs⟩ := OrderedMap.mem_keys_iff.mp (hkeys ▸ OrderedMap.mem_keys_of_get? ht)
  obtain ⟨x, hx, hq⟩ := target_of_allocateCapital hdeals.allocator h hs
  obtain rfl := Option.some.inj (hq.symm.trans ht)
  have hshare := has_of_shares hp hmarket hfx hs hx
  exact ⟨(hp n s hs).cash, OrderedMap.forall_get?_put Balances.within_empty hshare⟩

/-- Where fills are paid in money of the domain, they leave books in it. -/
def TradesIn (D : Domain) (p q : Portfolio) : Prop :=
  p.market.Within D → p.DealsIn D → p.BooksIn D → SameTerms p q ∧ q.BooksIn D

theorem TradesIn.isPath : IsPath (TradesIn D) where
  refl p _ _ hbooks := ⟨SameTerms.isPath.refl p, hbooks⟩
  trans := by
    intro p q r h h' hmarket hdeals hbooks
    obtain ⟨hpq, hbooks⟩ := h hmarket hdeals hbooks
    obtain ⟨hqr, hbooks⟩ := h' (hpq.market ▸ hmarket) (hdeals.congr hpq.setup) hbooks
    exact ⟨SameTerms.isPath.trans hpq hqr, hbooks⟩

theorem tradesIn_submitTarget {e : Asset × Int} (h : submitTarget n d e p = (q, .ok ())) :
    TradesIn D p q := by
  intro hmarket hdeals hbooks
  have hterms : SameTerms p q := by
    have hframe := (SameTerms.books n).submitTarget d e p
    rwa [h] at hframe
  refine ⟨hterms, ?_⟩
  obtain ⟨s, hs, ⟨-, rfl⟩ | ⟨-, prices, hprices, horder⟩⟩ := submitTarget_cases h
  · exact hbooks
  obtain ⟨order, outcome, hvalid, houtcome, -, ⟨-, hidle⟩ | ⟨f, t, b, rfl, ht, hbook, hq, -⟩⟩ :=
    handleOrder_outcome horder
  · rw [BooksIn, hidle.strategies]
    exact hbooks
  have hvenue : (p.venue.getD p.market).Within D := by
    cases hv : p.venue with
    | none => exact hmarket
    | some h => exact hdeals.venue h hv
  have hgives : Gives (Error.EndsReplay D True) (fun outcome => ∀ f, outcome = .filled f → f.Within D)
      (p.outcomeOf order) :=
    Brokerage.gives_execute hdeals.commission (hdeals.orders n s hs hmarket hprices hvalid)
      fun bar hbar => MarketHistory.All.bar? hvenue hbar
  have hfill : f.Within D := hgives.value _ houtcome f rfl
  have hsafe : Safe (Error.EndsReplay D True) (Book.Within D) (Book.applyFill t.assets f) :=
    Book.safe_applyFill t.assets hfill
  rw [BooksIn, hq]
  exact OrderedMap.forall_get?_put hbooks (hsafe.ok (hbooks _ t ht) hbook)

theorem tradesIn_runStrategy (h : runStrategy d n p = (q, .ok ())) : TradesIn D p q := by
  obtain ⟨s, rule, signals, sizes, hruns⟩ := exists_runs h
  rw [hruns.eq] at h
  refine TradesIn.isPath.trans (fun _ _ hbooks => ⟨sameTerms_signaling hruns, ?_⟩) ?_
  · exact OrderedMap.forall_get?_put hbooks (hbooks n s hruns.get?)
  · exact Moves.forEach TradesIn.isPath (fun _ _ _ _ _ hstep => tradesIn_submitTarget hstep) h

/-- Dividends, splits, capital and fills of a day leave the books in the domain. -/
theorem BooksIn.handleMarket (hp : p.BooksIn D) (hdeals : p.DealsIn D) (hday : day.Brings D)
    (hmarket : q.market.Within D) (hfx : q.fx.Within D)
    (h : Portfolio.handleMarket day p = (q, .ok ())) : q.BooksIn D := by
  obtain ⟨p₁, p₂, p₃, p₄, value, htake, hactions, hallocate, hrun, hrecord⟩ :=
    handleMarket_eq_ok.mp h
  have hsetup₂ : p₂.setup = p.setup := by
    rw [← beforeTrading_eq htake hactions]
    exact setup_beforeTrading day p
  have hsetup₃ : p₃.setup = p₂.setup := by
    have hframe := AllowsFunding.allocateCapital allowsEvents_setup.trading day.date p₂
    rwa [hallocate] at hframe
  have hbooks₁ : p₁.BooksIn D := by
    obtain ⟨market, fx, -, -, -, rfl⟩ := takeIn_eq_ok.mp htake
    exact hp
  have hdeals₂ := hdeals.congr hsetup₂
  have htraded := SameStores.of_runStrategies hrun
  obtain ⟨strategies, rfl, -⟩ := allocateCapital_eq_ok hallocate
  obtain ⟨-, -, rfl⟩ := recordEquity_eq_ok.mp hrecord
  -- bars and rates stay as they are after the splits
  have hmarket₂ : p₂.market.Within D := htraded.market ▸ hmarket
  have hfx₂ : p₂.fx.Within D := htraded.fx ▸ hfx
  have hbooks₃ :=
    (hbooks₁.applyCorporateActions hday hactions).allocateCapital hdeals₂ hmarket₂ hfx₂ hallocate
  exact (Moves.forEach TradesIn.isPath (fun _ _ _ _ _ hstep => tradesIn_runStrategy hstep) hrun hmarket₂
    (hdeals₂.congr hsetup₃) hbooks₃).2

/-- What holds of the bars before a day and of the bars that come with it, and is kept by its splits, holds
of the bars after it. -/
theorem all_of_handleMarket {P : Bar → Prop} (h : handleMarket day p = (q, .ok ()))
    (hp : p.market.All P) (hday : ∀ a b, day.bars.get? a = some b → P b)
    (hadjust : ∀ e ∈ day.splits, ∀ b b', P b → b.adjustedForSplit e.2.split = .ok b' → P b') :
    q.market.All P := by
  obtain ⟨-, hmarket, -⟩ := stores_of_handleMarket h
  have htaken : MarketHistory.All P ⟨p.market.bars.put day.date day.bars⟩ :=
    Chronicle.All.put hp day.date hday
  rw [hmarket]
  exact htaken.splitOn hadjust

/-- A day of the domain leaves the money in it. -/
theorem MoneyIn.handleMarket (hp : p.MoneyIn D) (hdeals : p.DealsIn D) (hday : day.Brings D)
    (h : handleMarket day p = (q, .ok ())) : q.MoneyIn D := by
  obtain ⟨-, -, hfx, v, hvalue, hequity⟩ := stores_of_handleMarket h
  have hmarket : q.market.Within D := by
    refine all_of_handleMarket h hp.market hday.bars fun e he b b' hb hb' => ?_
    have hsplit := (hday.bars e.1 e.2 (MarketDay.get?_of_mem_splits he)).split
    have hgives : Gives (Error.EndsReplay D True) (Bar.Within D) (b.adjustedForSplit e.2.split) :=
      Bar.gives_adjustedForSplit hsplit e.2.isAtMost_split hb
    exact hgives.value b' hb'
  have hrates : q.fx.Within D := by
    obtain ⟨read, hread, -, hq⟩ := FxHistory.append_eq_ok hfx
    rw [hq]
    refine Chronicle.All.put hp.fx day.date fun c r hr => ?_
    obtain ⟨e, he, hrate⟩ :=
      Except.mem_of_mapM hread (OrderedMap.mem_ofList (OrderedMap.get?_eq_some_iff.mp hr))
    exact ⟨hday.rates e he (c, r) hrate, (FxHistory.readRate_eq_ok hrate).2⟩
  have hbooks := hp.books.handleMarket hdeals hday hmarket hrates h
  refine ⟨hmarket, hrates, hbooks, ?_⟩
  have hworth : Gives (Error.EndsReplay D True) D.Has (q.totalValue day.date) :=
    gives_totalValue hbooks hmarket hrates day.date q.base
  rw [hequity]
  exact Chronicle.All.put hp.equity day.date (hworth.value v hvalue)

/-- Splits that succeed are finite where there are bars to adjust. -/
theorem isFinite_of_splits {l : List (Asset × Bar)}
    (h : Action.forEach l (fun e => handleSplit d e.1 (.known e.2.split)) p = (q, .ok ()))
    (hbars : ∀ e ∈ l, ∃ bar, p.market.bar? d e.1 = some bar) : ∀ e ∈ l, e.2.split.IsFinite := by
  induction l generalizing p with
  | nil => exact fun e he => absurd he List.not_mem_nil
  | cons e l ih =>
    obtain ⟨⟨bar, hbar⟩, hrest⟩ := List.forall_mem_cons.mp hbars
    obtain ⟨u, hu, hlater⟩ := Action.forEach_cons_eq_ok.mp h
    obtain ⟨v, c, n, market, journal, hpositions, hread, hsplit, rfl⟩ := handleSplit_eq_ok hu
    obtain rfl : e.2.split = c := Except.ok.inj hread
    have hsame := (SameStores.of_splitPositions hpositions).market
    rw [hsame] at hsplit
    obtain ⟨bar', hadjusted⟩ :=
      MarketHistory.exists_adjusted_of_split (congrArg Prod.snd hsplit) hbar
    refine List.forall_mem_cons.mpr ⟨Bar.isFinite_of_adjustedForSplit hadjusted, ?_⟩
    refine ih hlater fun e' he' => ?_
    obtain ⟨bar', hbar'⟩ := hrest e' he'
    have hthere := MarketHistory.exists_bar_split e.1 e.2.split hbar'
    rwa [hsplit] at hthere

/-- The bars that come with a day that succeeds have finite splits. -/
theorem isFinite_split_of_handleMarket (h : handleMarket day p = (q, .ok ())) {a : Asset} {b : Bar}
    (hb : day.bars.get? a = some b) : b.split.IsFinite := by
  cases hsplit : b.hasSplit with
  | false => exact Bar.isFinite_of_not_hasSplit hsplit
  | true =>
    obtain ⟨p₁, p₂, -, -, -, htake, hactions, -⟩ := handleMarket_eq_ok.mp h
    obtain ⟨market, fx, -, hmarket, -, rfl⟩ := takeIn_eq_ok.mp htake
    obtain ⟨u, _, hdividends, hsplits⟩ := Action.bind_eq_ok.mp hactions
    have hpaid : SameStores { p with market, fx } u :=
      Moves.forEach SameStores.isPath (fun e _ _ _ _ hpay => SameStores.of_handleDividend hpay) hdividends
    refine isFinite_of_splits hsplits (fun e he => ?_) (a, b)
      (List.mem_filter.mpr ⟨OrderedMap.get?_eq_some_iff.mp hb, hsplit⟩)
    obtain ⟨-, rfl⟩ := MarketHistory.append_eq_ok.mp hmarket
    rw [hpaid.market]
    refine ⟨e.2, Option.bind_eq_some_iff.mpr ⟨day.bars, Chronicle.get?_put_self .., ?_⟩⟩
    exact MarketDay.get?_of_mem_splits he

/-- Days that succeed leave the money in a domain that all of them bring. -/
theorem MoneyIn.handleMarkets {days : List MarketDay} (hp : p.MoneyIn D) (hdeals : p.DealsIn D)
    (hdays : ∀ day ∈ days, ∀ p q, Portfolio.handleMarket day p = (q, .ok ()) → day.Brings D)
    (h : Action.forEach days Portfolio.handleMarket p = (q, .ok ())) : q.MoneyIn D := by
  refine (Moves.forEach (IsPath.implies fun p => p.MoneyIn D ∧ p.DealsIn D)
    (fun day hday u v _ hstep hu => ?_) h ⟨hp, hdeals⟩).1
  have hsetup : v.setup = u.setup := by
    have hframe := allowsEvents_setup.handleMarket day u
    rwa [hstep] at hframe
  exact ⟨hu.1.handleMarket hu.2 (hdays day hday u v hstep) hstep, hu.2.congr hsetup⟩

/-- Days that succeed leave no split that is not finite. -/
theorem isFinite_splits_of_handleMarkets {days : List MarketDay}
    (hp : p.market.All fun b => b.split.IsFinite)
    (h : Action.forEach days Portfolio.handleMarket p = (q, .ok ())) :
    q.market.All fun b => b.split.IsFinite := by
  refine Moves.forEach (IsPath.implies fun p => p.market.All fun b => b.split.IsFinite)
    (fun day _ u v _ hstep hu => ?_) h hp
  refine all_of_handleMarket hstep hu (fun a b hb => isFinite_split_of_handleMarket hstep hb) ?_
  intro e _ b b' hb hadjusted
  rwa [(Bar.adjustedForSplit_eq_ok hadjusted).2.2]

/-- Money without a defect is finite. -/
theorem MoneyIn.isFinite (h : ∀ f, p.MoneyIn (Domain.without f)) : p.MoneyIn Domain.finite where
  market e he a b hb := Quote.Within.isFinite fun f => (h f).market e he a b hb
  fx e he c r hr := ⟨Decimal.isFinite_iff_defect?.mpr fun f => ((h f).fx e he c r hr).1,
    ((h .undefined).fx e he c r hr).2⟩
  books n s hs := {
    cash := fun c x hx => Decimal.isFinite_iff_defect?.mpr fun f => ((h f).books n s hs).cash c x hx
    target := fun c x hx => Decimal.isFinite_iff_defect?.mpr fun f => ((h f).books n s hs).target c x hx }
  equity e he := Decimal.isFinite_iff_defect?.mpr fun f => (h f).equity e he

end Portfolio

/-- No infinity gets through such a day, not even as a split. -/
theorem MarketDay.Bounded.brings {day : MarketDay} (hday : day.Bounded) {p q : Portfolio}
    (h : Portfolio.handleMarket day p = (q, .ok ())) : day.Brings (Domain.without .endless) := by
  refine ⟨fun a b hb => ?_, fun e he x hx => ?_⟩
  · have hfields := hday.bars a b hb
    simp only [List.forall_mem_cons, List.not_mem_nil, false_implies, implies_true, and_true] at hfields
    obtain ⟨hopening, hhigh, hlow, hclose, hadjusted, hdividend⟩ := hfields
    have hsplit := Portfolio.isFinite_split_of_handleMarket h hb
    exact ⟨hopening, hhigh, hlow, hclose, hadjusted, hdividend,
      Decimal.isFinite_iff_defect?.mp hsplit .endless⟩
  · exact hday.rates e he x.2 (FxHistory.read_of_readRate hx)

end Backtesting
