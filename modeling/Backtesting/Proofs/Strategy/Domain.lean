import Backtesting.Portfolio.Allocation
import Backtesting.Proofs.Action
import Backtesting.Proofs.Market.Domain
import Backtesting.Proofs.Strategy.Setup

/-!
Strategies whose numbers are of a domain. Worth, capital and orders' prices are computed without
leaving it, so valuing, signaling, sizing and pricing end with an error that has a class or with a
fault of the domain; a rule that reckons the next day of its schedule may also find no such day in the
calendar. Weights in inverse proportion to deviations come from binary numbers: they may be anything.
-/
namespace Backtesting

open Backtesting.Action (Safe)
open Backtesting.Decimal (Domain)
open Backtesting.Except (FailsOnly Gives)

variable {D : Domain} {reckons : Prop}

/-- Sums of money that are in the domain. -/
def Balances.Within (D : Domain) (m : Balances) : Prop := ∀ c x, m.get? c = some x → D.Has x

instance (m : Balances) : Decidable (Balances.Within Domain.finite m) :=
  decidable_of_iff (∀ x ∈ m.values, x.IsFinite) OrderedMap.forall_get?_iff.symm

theorem Balances.within_empty : Balances.Within D OrderedMap.empty := by
  intro c x h
  simp [OrderedMap.get?, OrderedMap.empty, OrderedMap.find?] at h

namespace Date

theorem endsReplay_addDays (d : Date) (n : Int) (h : reckons) :
    FailsOnly (Error.EndsReplay D reckons) (d.addDays n) := by
  unfold addDays
  split
  · exact FailsOnly.ok _
  · exact FailsOnly.error h

/-- Within a year the years that can be asked for are not left, only the calendar may be. -/
theorem endsReplay_addMonths (d : Date) {n : Int} (hn : 0 ≤ n) (hn' : n ≤ 12) (h : reckons) :
    FailsOnly (Error.EndsReplay D reckons) (d.addMonths n) := by
  have hyear : ¬ ((d.year : Int) + Int.fdiv (d.month - 1 + n) 12 < -yearLimit ∨
      yearLimit ≤ (d.year : Int) + Int.fdiv (d.month - 1 + n) 12) := by
    have hyears := d.year_bounds
    have hmonths := d.month_bounds
    rw [Int.fdiv_eq_ediv_of_nonneg _ (by omega), yearLimit]
    omega
  unfold addMonths
  dsimp only
  rw [if_neg hyear]
  split
  · exact FailsOnly.ok _
  · exact FailsOnly.error h

end Date

theorem Frequency.endsReplay_next (f : Frequency) (d : Date) (h : f ≠ .never → reckons) :
    FailsOnly (Error.EndsReplay D reckons) (f.next d) := by
  cases f with
  | never => exact FailsOnly.ok none
  | daily => exact FailsOnly.map_iff.mpr (d.endsReplay_addDays 1 (h (by decide)))
  | weekly => exact FailsOnly.map_iff.mpr (d.endsReplay_addDays 7 (h (by decide)))
  | monthly =>
    exact FailsOnly.map_iff.mpr (d.endsReplay_addMonths (by decide) (by decide) (h (by decide)))
  | quarterly =>
    exact FailsOnly.map_iff.mpr (d.endsReplay_addMonths (by decide) (by decide) (h (by decide)))
  | annually =>
    exact FailsOnly.map_iff.mpr (d.endsReplay_addMonths (by decide) (by decide) (h (by decide)))

namespace Rule

/-- Rules that reckon the next day of a schedule. -/
def Reckons : Rule → Prop
  | rebalancing frequency _ => frequency ≠ .never
  | _ => False

theorem reckons_of_unused_eq {r r' : Rule} (h : r.unused = r'.unused) (hr : r.Reckons) :
    r'.Reckons := by
  cases r with
  | buyAndHold initial => exact absurd hr id
  | crossover fast slow => exact absurd hr id
  | rebalancing frequency last =>
    cases r' with
    | buyAndHold initial => simp [unused] at h
    | crossover fast slow => simp [unused] at h
    | rebalancing frequency' last' =>
      obtain ⟨rfl, -⟩ := Rule.rebalancing.inj h
      exact hr

variable {market : MarketHistory} {d : Date}

theorem endsReplay_signals (hmarket : market.Within D) {r : Rule} (hr : r.Reckons → reckons)
    (position : Asset → Int) (assets : List Asset) :
    FailsOnly (Error.EndsReplay D reckons) (r.signals market position assets d) := by
  refine failsOnly_signals ?_ (fun _ _ he => hmarket.endsReplay_toFloat he) position assets
  rintro frequency last rfl e
  exact frequency.endsReplay_next e hr

end Rule

theorem Listings.endsReplay_currencyOf (l : Listings) (a : Asset) :
    FailsOnly (Error.EndsReplay D reckons) (l.currencyOf a) := by
  unfold currencyOf
  split
  · exact FailsOnly.ok _
  · exact FailsOnly.error rfl

namespace Book

/-- Cash and target capital are in the domain. -/
structure Within (D : Domain) (b : Book) : Prop where
  cash : Balances.Within D b.cash
  target : Balances.Within D b.target

instance (b : Book) : Decidable (b.Within Domain.finite) :=
  decidable_of_iff (Balances.Within Domain.finite b.cash ∧ Balances.Within Domain.finite b.target)
    ⟨fun h => ⟨h.1, h.2⟩, fun h => ⟨h.cash, h.target⟩⟩

variable {b : Book} {l : Listings} {d : Date} {base : Currency} {market : MarketHistory}
  {fx : FxHistory}

theorem Within.balance (hb : b.Within D) (c : Currency) : D.Has (b.balance c) := by
  show D.Has ((b.cash.get? c).getD 0)
  cases hc : b.cash.get? c with
  | none => exact D.ofInt 0
  | some x => exact hb.cash c x hc

theorem Within.totalValue (hb : b.Within D) (hmarket : market.Within D) (hfx : fx.Within D) :
    Gives (Error.EndsReplay D reckons) D.Has (b.totalValue l d base market fx) := by
  have hposition : ∀ total, D.Has total → ∀ e,
      Gives (Error.EndsReplay D reckons) D.Has (positionValue l d base market fx total e) := by
    intro total htotal e
    unfold positionValue
    split
    · exact Gives.ok htotal
    refine Gives.bind hmarket.requireBar fun bar hbar => ?_
    refine Gives.bind (Decimal.gives_lift (D.mul hbar.close (D.ofInt e.2))) fun worth hworth => ?_
    refine Gives.bind_of_fails (l.endsReplay_currencyOf e.1) fun c => ?_
    refine Gives.bind (hfx.convert hworth c base) fun worth hworth => ?_
    exact Decimal.gives_lift (D.add htotal hworth)
  refine Gives.bind (Gives.foldlM (fun total htotal e _ => hposition total htotal e) (D.ofInt 0))
    fun total htotal => Gives.foldlM (fun total htotal e he => ?_) htotal
  have hbalance : D.Has e.2 := hb.cash e.1 e.2 (OrderedMap.get?_eq_some_iff.mpr he)
  refine Gives.bind_of_fails (Decimal.failsOnly_lift (D.isSame hbalance (D.ofInt 0))) fun zero => ?_
  split
  · exact Gives.ok htotal
  · refine Gives.bind (hfx.convert hbalance e.1 base) fun worth hworth => ?_
    exact Decimal.gives_lift (D.add htotal hworth)

theorem Within.credit (hb : b.Within D) (c : Currency) {amount : Decimal} (hamount : D.Has amount) :
    Gives (Error.EndsReplay D reckons) (Within D) (b.credit c amount) := by
  refine Gives.bind (Decimal.gives_lift (D.add (hb.balance c) hamount)) fun x hx => Gives.ok ?_
  exact ⟨OrderedMap.forall_get?_put hb.cash hx, hb.target⟩

end Book

namespace Sizer

/-- Weights of a table are in the domain. Those that come from binary numbers are where everything
is. -/
def Within (D : Domain) : Sizer → Prop
  | fixedWeight weights => ∀ a w, weights.get? a = some w → D.Has w
  | inverseVolatility _ => (∀ x, D.Has x) ∧ ∀ f, D.Faults f

instance : ∀ s : Sizer, Decidable (s.Within Domain.finite)
  | fixedWeight weights =>
    decidable_of_iff (∀ x ∈ weights.values, x.IsFinite) OrderedMap.forall_get?_iff.symm
  | inverseVolatility _ => isFalse fun h => h.1 (.infinity false)

variable {b : Book} {l : Listings} {d : Date} {market : MarketHistory} {fx : FxHistory}
  {signals : OrderedMap Asset Signal}

theorem gives_capital (hb : b.Within D) (hmarket : market.Within D) (hfx : fx.Within D) :
    Gives (Error.EndsReplay D reckons) D.Has (capital b l d market fx) := by
  unfold capital
  split
  · exact hb.totalValue hmarket hfx
  · refine Gives.foldlM (fun total htotal e he => ?_) (D.ofInt 0)
    have htarget : D.Has e.2 := hb.target e.1 e.2 (OrderedMap.get?_eq_some_iff.mpr he)
    refine Gives.bind (hfx.convert htarget e.1 fx.base) fun worth hworth => ?_
    exact Decimal.gives_lift (D.add htotal hworth)

/-- Whatever is signaled has a weight. -/
theorem mem_keys_weightsFor {s : Sizer} {weights : Weights}
    (h : s.weightsFor d signals market = .ok weights) {a : Asset} (ha : a ∈ signals.keys) :
    a ∈ weights.keys := by
  cases s with
  | fixedWeight table =>
    obtain ⟨entries, hentries, h⟩ := Except.bind_eq_ok.mp h
    rw [← Except.pure_eq_ok.mp h]
    obtain ⟨e, he, hread⟩ := Except.exists_mem_of_mapM hentries ha
    split at hread
    · obtain rfl := Except.ok.inj hread
      exact OrderedMap.mem_keys_ofList.mpr (List.mem_map.mpr ⟨_, he, rfl⟩)
    · simp at hread
  | inverseVolatility lookback =>
    have hzero : a ∈ (signals.mapValues fun _ _ => (0 : Decimal)).keys := by
      rwa [OrderedMap.keys_mapValues]
    unfold weightsFor at h
    dsimp only at h
    split at h
    · rwa [← Except.pure_eq_ok.mp h]
    · obtain ⟨deviations, -, h⟩ := Except.bind_eq_ok.mp h
      obtain ⟨inverse, -, h⟩ := Except.bind_eq_ok.mp h
      rw [← Except.pure_eq_ok.mp h]
      exact OrderedMap.mem_keys_putAll.mpr (Or.inl hzero)

theorem gives_weightsFor {s : Sizer} (hs : s.Within D) :
    Gives (Error.EndsReplay D reckons) (fun weights => ∀ a w, weights.get? a = some w → D.Has w)
      (s.weightsFor d signals market) := by
  refine ⟨failsOnly_weightsFor (fun _ => rfl) ?_ d signals market, fun found hfound a w hw => ?_⟩
  · rintro lookback rfl
    exact hs.2
  cases s with
  | inverseVolatility lookback => exact hs.1 w
  | fixedWeight table =>
    obtain ⟨entries, hentries, hfound⟩ := Except.bind_eq_ok.mp hfound
    obtain rfl := Except.pure_eq_ok.mp hfound
    have hmem := OrderedMap.mem_ofList (OrderedMap.get?_eq_some_iff.mp hw)
    -- an entry is an asset with the weight that the table has for it
    obtain ⟨a', -, hread⟩ := Except.mem_of_mapM hentries hmem
    split at hread
    · next w' hw' =>
      obtain ⟨rfl, rfl⟩ := Prod.mk.inj (Except.ok.inj hread)
      exact hs _ _ hw'
    · simp at hread

theorem endsReplay_size {total : Decimal} (htotal : D.Has total) {weights : Weights} {a : Asset}
    (ha : a ∈ weights.keys) (hweights : ∀ a w, weights.get? a = some w → D.Has w)
    (hmarket : market.Within D) (hfx : fx.Within D) (signal : Signal) :
    FailsOnly (Error.EndsReplay D reckons) (size l d total weights market fx a signal) := by
  unfold size
  split
  · exact FailsOnly.ok 0
  refine Gives.failsOnly_bind hmarket.requireBar fun bar hbar => ?_
  dsimp only
  refine FailsOnly.bind (Decimal.failsOnly_lift (Domain.isAtMost hbar.close)) fun low hlow => ?_
  cases low with
  | true => exact FailsOnly.error rfl
  | false =>
    obtain ⟨w, hw⟩ := OrderedMap.mem_keys_iff.mp ha
    simp only [Bool.false_eq_true, if_false, hw, Except.ok_bind]
    refine Gives.failsOnly_bind (Decimal.gives_lift (D.mul htotal (hweights a w hw)))
      fun inBase hinBase => ?_
    refine FailsOnly.bind (l.endsReplay_currencyOf a) fun c _ => ?_
    refine Gives.failsOnly_bind (hfx.convert hinBase fx.base c) fun inListing hinListing => ?_
    refine FailsOnly.bind (Decimal.failsOnly_lift ?_) fun _ _ => FailsOnly.ok _
    exact (D.div hinListing hbar.close (Decimal.lift_eq_ok.mp hlow)).failsOnly_bind
      fun _ hx => D.floorInt hx

theorem endsReplay_sizesFor {s : Sizer} (hs : s.Within D) (hb : b.Within D)
    (hmarket : market.Within D) (hfx : fx.Within D) :
    FailsOnly (Error.EndsReplay D reckons) (s.sizesFor b l d signals market fx) := by
  unfold sizesFor
  split
  · exact FailsOnly.ok _
  have hgives : Gives (Error.EndsReplay D reckons)
      (fun weights => ∀ a w, weights.get? a = some w → D.Has w) (s.weightsFor d signals market) :=
    gives_weightsFor hs
  refine FailsOnly.bind hgives.fails fun weights hread => ?_
  refine Gives.failsOnly_bind (gives_capital hb hmarket hfx) fun total htotal => ?_
  refine FailsOnly.bind (FailsOnly.mapM fun e he => ?_) fun _ _ => FailsOnly.ok _
  have hweighed : e.1 ∈ weights.keys := mem_keys_weightsFor hread (List.mem_map.mpr ⟨e, he, rfl⟩)
  exact FailsOnly.bind (endsReplay_size htotal hweighed (hgives.value _ hread) hmarket hfx e.2)
    fun _ _ => FailsOnly.ok _

end Sizer

namespace Pricing

/-- The offsets are in the domain. -/
def Within (D : Domain) : Pricing → Prop
  | closePrice => True
  | limit offset | stop offset => D.Has offset
  | stopLimit stopOffset limitOffset => D.Has stopOffset ∧ D.Has limitOffset

instance : ∀ p : Pricing, Decidable (p.Within Domain.finite)
  | closePrice => isTrue trivial
  | limit offset | stop offset => inferInstanceAs (Decidable offset.IsFinite)
  | stopLimit stopOffset limitOffset =>
    inferInstanceAs (Decidable (stopOffset.IsFinite ∧ limitOffset.IsFinite))

end Pricing

/-- Prices that are asked for are in the domain. -/
structure OrderPrices.Within (D : Domain) (p : OrderPrices) : Prop where
  primary : ∀ x, p.primary = some x → D.Has x
  secondary : ∀ x, p.secondary = some x → D.Has x

theorem gives_offsetPrice {close offset : Decimal} (hclose : D.Has close) (hoffset : D.Has offset)
    (action : TradeAction) : Gives D.Faults D.Has (offsetPrice close action offset) := by
  refine Gives.bind (D.mul (D.ofInt action.sign) hoffset) fun sided hsided => ?_
  have hscale : Decimal.isAtMost 10000 0 = .ok false := Decimal.isAtMost_ofInt (i := 10000) (by decide)
  refine Gives.bind (D.div hsided (D.ofInt 10000) hscale) fun part hpart => ?_
  exact Gives.bind (D.add (D.ofInt 1) hpart) fun factor hfactor => D.mul hclose hfactor

namespace Pricing

theorem gives_pricesAt {p : Pricing} (hp : p.Within D) {close : Decimal} (hclose : D.Has close)
    (action : TradeAction) : Gives D.Faults (OrderPrices.Within D) (p.pricesAt close action) := by
  have hone : ∀ {type x}, D.Has x → (OrderPrices.mk type (some x) none).Within D :=
    fun hx => ⟨fun _ h => Option.some.inj h ▸ hx, fun _ h => by simp at h⟩
  cases p with
  | closePrice => exact Gives.ok (hone hclose)
  | limit offset =>
    exact Gives.bind (gives_offsetPrice hclose hp action) fun x hx => Gives.ok (hone hx)
  | stop offset =>
    exact Gives.bind (gives_offsetPrice hclose hp action) fun x hx => Gives.ok (hone hx)
  | stopLimit stopOffset limitOffset =>
    refine Gives.bind (gives_offsetPrice hclose hp.1 action) fun x hx => ?_
    refine Gives.bind (gives_offsetPrice hclose hp.2 action) fun y hy => Gives.ok ?_
    exact ⟨fun _ h => Option.some.inj h ▸ hx, fun _ h => Option.some.inj h ▸ hy⟩

theorem gives_prices {p : Pricing} (hp : p.Within D) {market : MarketHistory}
    (hmarket : market.Within D) (d : Date) (a : Asset) (action : TradeAction) :
    Gives (Error.EndsReplay D reckons) (OrderPrices.Within D) (p.prices market d a action) :=
  Gives.bind hmarket.requireBar fun _ hbar => Decimal.gives_lift (gives_pricesAt hp hbar.close action)

end Pricing

/-- Price and commission are in the domain. -/
structure Fill.Within (D : Domain) (f : Fill) : Prop where
  price : D.Has f.price
  commission : D.Has f.commission

theorem Fill.Within.cashFlow {f : Fill} (hf : f.Within D) : Gives D.Faults D.Has f.cashFlow := by
  refine Gives.bind (D.mul hf.price (D.ofInt f.signedQuantity)) fun worth hworth => ?_
  exact Gives.bind (D.neg hworth) fun flow hflow => D.sub hflow hf.commission

namespace Book

theorem safe_applyFill (l : Listings) {f : Fill} (hf : f.Within D) :
    Safe (Error.EndsReplay D reckons) (Within D) (applyFill l f) := by
  refine Safe.bind (Safe.ofExcept (l.endsReplay_currencyOf f.asset)) fun c => ?_
  refine Safe.bind (Safe.modify fun b hb => ⟨hb.cash, hb.target⟩) fun _ => ?_
  exact Safe.update_of_gives fun b hb =>
    Gives.bind (Decimal.gives_lift hf.cashFlow) fun flow hflow => hb.credit c hflow

theorem safe_applyDividend (l : Listings) (a : Asset) {perShare : Decimal}
    (hshare : D.Has perShare) :
    Safe (Error.EndsReplay D reckons) (Within D) (applyDividend l a (.known perShare)) := by
  refine Safe.bind Safe.get fun b => ?_
  dsimp only
  split
  · exact Safe.pure 0
  refine Safe.bind (Safe.ofExcept (l.endsReplay_currencyOf a)) fun c => ?_
  have hamount : Gives (Error.EndsReplay D reckons) D.Has
      (Decimal.lift (perShare.mul (Decimal.ofInt (b.position a)))) :=
    Decimal.gives_lift (D.mul hshare (D.ofInt (b.position a)))
  refine Safe.bind_of_ok (Safe.ofExcept hamount.fails) fun _ hread => ?_
  obtain ⟨-, hread⟩ := Action.ofExcept_eq_ok.mp hread
  refine Safe.bind (Safe.update_of_gives fun b hb => hb.credit c (hamount.value _ hread)) fun _ => ?_
  exact Safe.pure _

theorem Within.applySplit {b : Book} (hb : b.Within D) (a : Asset) {ratio : Decimal}
    (hratio : D.Has ratio) :
    Gives (Error.EndsReplay D reckons) (Within D) (b.applySplit a (.known ratio)) := by
  unfold Book.applySplit
  split
  · exact Gives.ok hb
  · next quantity _ =>
    have hscaled : FailsOnly (Error.EndsReplay D reckons)
        (Decimal.lift ((Decimal.ofInt quantity).mul ratio >>= Decimal.nearestInt)) :=
      Decimal.failsOnly_lift ((D.mul (D.ofInt quantity) hratio).failsOnly_bind
        fun _ hx => D.nearestInt hx)
    refine Gives.bind (P := (· = ratio)) (Gives.ok rfl) ?_
    rintro _ rfl
    exact Gives.bind_of_fails hscaled fun scaled => Gives.ok ⟨hb.cash, hb.target⟩

end Book

namespace Strategy

/-- The numbers of a strategy are in the domain. -/
structure Within (D : Domain) (s : Strategy) : Prop where
  book : s.book.Within D
  sizer : s.sizer.Within D
  pricing : s.pricing.Within D

instance (s : Strategy) : Decidable (s.Within Domain.finite) :=
  decidable_of_iff (s.book.Within Domain.finite ∧ s.sizer.Within Domain.finite ∧
    s.pricing.Within Domain.finite) ⟨fun h => ⟨h.1, h.2.1, h.2.2⟩, fun h => ⟨h.book, h.sizer, h.pricing⟩⟩

/-- A strategy of the domain that reckons no days unless that is said. -/
structure Sound (D : Domain) (reckons : Prop) (s : Strategy) : Prop extends s.Within D where
  rule : s.rule.Reckons → reckons

theorem safe_onBook {x : Action Book α} (hx : Safe (Error.EndsReplay D reckons) (Book.Within D) x) :
    Safe (Error.EndsReplay D reckons) (Sound D reckons) (onBook x) := by
  intro s hs
  obtain ⟨hbook, hfails⟩ := hx s.book hs.book
  exact ⟨{ hs with book := hbook }, hfails⟩

theorem safe_applySplit (a : Asset) {ratio : Decimal} (hratio : D.Has ratio) :
    Safe (Error.EndsReplay D reckons) (Sound D reckons)
      (Action.update (·.applySplit a (.known ratio))) :=
  Safe.update_of_gives fun _ hs =>
    Gives.bind (hs.book.applySplit a hratio) fun _ hbook => Gives.ok { hs with book := hbook }

theorem safe_setTarget (base : Currency) {x : Decimal} (hx : D.Has x) :
    Safe (Error.EndsReplay D reckons) (Sound D reckons)
      (Action.update (·.setTarget (Allocator.inBase base x))) := by
  refine Safe.update_of_gives fun s hs => Gives.ok ?_
  exact { hs with book := ⟨hs.book.cash, OrderedMap.forall_get?_put Balances.within_empty hx⟩ }

/-- Signaling changes nothing but what the rule remembers. -/
theorem Sound.signals {s : Strategy} (hs : s.Sound D reckons) (d : Date) {market : MarketHistory}
    (hmarket : market.Within D) :
    Gives (Error.EndsReplay D reckons) (fun found => found.1.Sound D reckons) (s.signals d market) := by
  refine ⟨?_, fun found hfound => ?_⟩
  · exact FailsOnly.bind (Rule.endsReplay_signals hmarket hs.rule _ _) fun _ _ => FailsOnly.ok _
  · obtain ⟨⟨rule, signals⟩, hsignals, hfound⟩ := Except.bind_eq_ok.mp hfound
    obtain rfl := Except.pure_eq_ok.mp hfound
    exact { hs with rule := fun hr => hs.rule (Rule.reckons_of_unused_eq (Rule.unused_signals hsignals) hr) }

end Strategy
end Backtesting
