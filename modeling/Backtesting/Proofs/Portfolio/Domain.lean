import Backtesting.Proofs.Portfolio.Frame
import Backtesting.Proofs.Strategy.Domain

/-!
A day whose numbers are of a domain, in a portfolio whose numbers are. Every step of the day, whether
it succeeds or not, leaves the portfolio so, and ends with no other error than one that has a class, a
fault of the domain, or the end of the calendar where some strategy reckons the next day of a schedule.
-/
namespace Backtesting

open Backtesting.Action (Safe)
open Backtesting.Decimal (Domain)
open Backtesting.Except (FailsOnly Gives)

variable {D : Domain} {reckons : Prop}

/-- The prices of an order are in the domain. -/
structure OrderTerms.Within (D : Domain) (t : OrderTerms) : Prop where
  primary : ∀ x, t.primary? = some x → D.Has x
  secondary : ∀ x, t.secondary? = some x → D.Has x

namespace OrderRequest

/-- A whole quantity and prices that are known, in the domain. -/
structure Within (D : Domain) (r : OrderRequest) : Prop where
  quantity : ∃ k, r.quantity = .integer k
  primary : ∀ a, r.primary = some a → ∃ x, a = .known x ∧ D.Has x
  secondary : ∀ a, r.secondary = some a → ∃ x, a = .known x ∧ D.Has x

theorem gives_readPrice {p : Option Amount} (h : ∀ a, p = some a → ∃ x, a = .known x ∧ D.Has x) :
    Gives (Error.EndsReplay D reckons) (fun x => ∀ y, x = some y → D.Has y) (readPrice p) := by
  cases p with
  | none => exact Gives.ok fun y hy => by simp at hy
  | some a =>
    obtain ⟨x, rfl, hx⟩ := h a rfl
    exact Gives.ok fun y hy => Option.some.inj hy ▸ hx

theorem endsReplay_requirePositive (field : String) {p : Option Decimal}
    (h : ∀ x, p = some x → D.Has x) :
    FailsOnly (Error.EndsReplay D reckons) (requirePositive field p) := by
  cases p with
  | none => exact FailsOnly.ok ()
  | some x =>
    refine FailsOnly.bind (Decimal.failsOnly_lift (Domain.isAtMost (h x rfl))) fun low _ => ?_
    cases low with
    | true => exact FailsOnly.error rfl
    | false => exact FailsOnly.ok ()

/-- An order has the prices of its request. -/
theorem gives_terms (r : OrderRequest) {primary secondary : Option Decimal}
    (hprimary : ∀ x, primary = some x → D.Has x) (hsecondary : ∀ x, secondary = some x → D.Has x) :
    Gives (Error.EndsReplay D reckons) (OrderTerms.Within D) (r.terms primary secondary) := by
  unfold terms
  split
  · exact Gives.ok ⟨hprimary, hsecondary⟩
  · exact Gives.ok ⟨hprimary, hsecondary⟩
  · exact Gives.ok ⟨hprimary, hsecondary⟩
  · exact Gives.ok ⟨hprimary, hsecondary⟩
  · exact Gives.error rfl
  · exact Gives.error rfl

theorem Within.validate {r : OrderRequest} (hr : r.Within D) :
    Gives (Error.EndsReplay D reckons) (fun o => o.terms.Within D) r.validate := by
  obtain ⟨k, hk⟩ := hr.quantity
  refine Gives.bind (gives_readPrice hr.primary) fun primary hprimary => ?_
  refine Gives.bind (gives_readPrice hr.secondary) fun secondary hsecondary => ?_
  refine Gives.bind_of_fails (by rw [hk]; exact FailsOnly.ok k) fun quantity => ?_
  split
  · refine Gives.bind (gives_terms r hprimary hsecondary) fun terms hterms => ?_
    refine Gives.bind_of_fails (endsReplay_requirePositive _ hprimary) fun _ => ?_
    refine Gives.bind_of_fails (endsReplay_requirePositive _ hsecondary) fun _ => ?_
    exact Gives.ok hterms
  · exact Gives.error rfl

end OrderRequest

namespace Order

variable {close : Decimal}

theorem faults_limitMet (action : TradeAction) {limit : Decimal} (hlimit : D.Has limit)
    (hclose : D.Has close) : FailsOnly D.Faults (limitMet action limit close) := by
  cases action with
  | buy => exact D.ordered hlimit hclose _
  | sell => exact D.ordered hlimit hclose _

theorem faults_stopMet (action : TradeAction) {stop : Decimal} (hstop : D.Has stop)
    (hclose : D.Has close) : FailsOnly D.Faults (stopMet action stop close) := by
  cases action with
  | buy => exact D.ordered hstop hclose _
  | sell => exact D.ordered hstop hclose _

/-- An order is filled at the close or at a price that it names. -/
theorem gives_fillPrice {o : Order} (ho : o.terms.Within D) (hclose : D.Has close) :
    Gives D.Faults (fun p => ∀ x, p = some x → D.Has x) (o.fillPrice close) := by
  have hmet : ∀ {met : Except Decimal.Fault Bool} {price}, FailsOnly D.Faults met → D.Has price →
      Gives D.Faults (fun p => ∀ x, p = some x → D.Has x)
        (do return if ← met then some price else none) := by
    intro met price hmet hprice
    refine Gives.bind_of_fails hmet fun b => Gives.ok ?_
    cases b with
    | true => exact fun x hx => Option.some.inj hx ▸ hprice
    | false => exact fun x hx => by simp at hx
  obtain ⟨hprimary, hsecondary⟩ := ho
  unfold fillPrice
  split
  · exact Gives.ok fun x hx => Option.some.inj hx ▸ hclose
  · next price _ hterms =>
    have hprice := hprimary price (by rw [hterms]; rfl)
    exact hmet (faults_limitMet o.action hprice hclose) hprice
  · next price _ hterms =>
    have hprice := hprimary price (by rw [hterms]; rfl)
    exact hmet (faults_stopMet o.action hprice hclose) hprice
  · next trigger limit hterms =>
    have htrigger := hprimary trigger (by rw [hterms]; rfl)
    have hlimit := hsecondary limit (by rw [hterms]; rfl)
    refine Gives.bind_of_fails (faults_stopMet o.action htrigger hclose) fun reached => ?_
    cases reached with
    | true => exact hmet (faults_limitMet o.action hlimit hclose) hlimit
    | false => exact Gives.ok fun x hx => by simp at hx

end Order

theorem Brokerage.gives_execute {c : Commission} (hc : D.Has c.rate) {o : Order}
    (ho : o.terms.Within D) {bar : Option Bar} (hbar : ∀ b, bar = some b → b.Within D) :
    Gives (Error.EndsReplay D reckons) (fun outcome => ∀ f, outcome = .filled f → f.Within D)
      (execute c o bar) := by
  cases bar with
  | none => exact Gives.ok fun f hf => by simp at hf
  | some bar =>
    refine Gives.bind (Decimal.gives_lift (Order.gives_fillPrice ho (hbar bar rfl).close))
      fun price hprice => ?_
    cases price with
    | none => exact Gives.ok fun f hf => by simp at hf
    | some price =>
      have hcost : Gives D.Faults D.Has (c.on price o.quantity) :=
        Gives.bind (D.mul (hprice price rfl) (D.ofInt o.quantity)) fun worth hworth => D.mul hworth hc
      refine Gives.bind (Decimal.gives_lift hcost) fun cost hcost => Gives.ok fun f hf => ?_
      obtain rfl := Brokerage.Outcome.filled.inj hf
      exact ⟨hprice price rfl, hcost⟩

theorem EquityCurve.endsReplay_record (c : EquityCurve) (d : Date) (x : Decimal) :
    FailsOnly (Error.EndsReplay D reckons) (c.record d x) := by
  unfold record
  split
  · exact FailsOnly.error rfl
  · exact FailsOnly.ok _

namespace Portfolio

/-- The numbers of a portfolio are in the domain. -/
structure Within (D : Domain) (p : Portfolio) : Prop where
  strategies : ∀ n s, p.strategies.get? n = some s → s.Within D
  commission : D.Has p.brokerage.commission.rate
  market : p.market.Within D
  fx : p.fx.Within D
  venue : ∀ h, p.venue = some h → h.Within D

/-- Some strategy reckons the next day of a schedule. -/
def Reckons (p : Portfolio) : Prop := ∃ n s, p.strategies.get? n = some s ∧ s.rule.Reckons

/-- A portfolio of the domain that reckons no days unless that is said and hands out no fixed
capital. -/
structure Sound (D : Domain) (reckons : Prop) (p : Portfolio) : Prop extends p.Within D where
  rules : ∀ n s, p.strategies.get? n = some s → s.rule.Reckons → reckons
  allocator : ∀ fixed, p.allocator ≠ .fixed fixed

variable {n : String} {d : Date} {p : Portfolio}

namespace Sound

theorem strategy (hp : p.Sound D reckons) {s : Strategy} (hs : p.strategies.get? n = some s) :
    s.Sound D reckons := ⟨hp.strategies n s hs, hp.rules n s hs⟩

theorem put (hp : p.Sound D reckons) {t : Strategy} (ht : t.Sound D reckons) :
    Sound D reckons { p with strategies := p.strategies.put n t } :=
  { hp with
    strategies := OrderedMap.forall_get?_put hp.strategies ht.toWithin
    rules := OrderedMap.forall_get?_put hp.rules ht.rule }

end Sound

theorem safe_onStrategy {x : Action Strategy α}
    (hx : Safe (Error.EndsReplay D reckons) (Strategy.Sound D reckons) x) :
    Safe (Error.EndsReplay D reckons) (Sound D reckons) (onStrategy n x) := by
  intro p hp
  unfold onStrategy
  cases hs : p.strategies.get? n with
  | none => exact ⟨hp, FailsOnly.error rfl⟩
  | some s =>
    obtain ⟨ht, hfails⟩ := hx s (hp.strategy hs)
    exact ⟨hp.put ht, hfails⟩

theorem safe_log (level : Level) (text : String) :
    Safe (Error.EndsReplay D reckons) (Sound D reckons) (log level text) :=
  Safe.modify fun _ hp => { hp with }

theorem endsReplay_strategy (p : Portfolio) (n : String) :
    FailsOnly (Error.EndsReplay D reckons) (p.strategy n) := failsOnly_strategy fun _ => rfl

theorem safe_handleFill {f : Fill} (hf : f.Within D) :
    Safe (Error.EndsReplay D reckons) (Sound D reckons) (handleFill f) := by
  have hbook : Safe (Error.EndsReplay D reckons) (Strategy.Sound D reckons) (Strategy.applyFill f) :=
    fun s hs => Strategy.safe_onBook (Book.safe_applyFill s.assets hf) s hs
  refine Safe.bind (safe_onStrategy hbook) fun _ => ?_
  refine Safe.bind (Safe.modify fun p hp => { hp with }) fun _ => ?_
  exact safe_log _ _

/-- What an order is matched against is in the domain. -/
theorem Sound.gives_execute (hp : p.Sound D reckons) {o : Order} (ho : o.terms.Within D) :
    Gives (Error.EndsReplay D reckons) (fun outcome => ∀ f, outcome = .filled f → f.Within D)
      (Brokerage.execute p.brokerage.commission o
        ((p.venue.getD p.market).bar? o.date o.asset)) := by
  have hvenue : (p.venue.getD p.market).Within D := by
    cases hv : p.venue with
    | none => exact hp.market
    | some h => exact hp.venue h hv
  exact Brokerage.gives_execute hp.commission ho fun b hb => MarketHistory.All.bar? hvenue hb

theorem safe_submit {o : Order} (ho : o.terms.Within D) :
    Safe (Error.EndsReplay D reckons) (Sound D reckons) (submit o) := by
  refine fun p hp => ⟨?_, Brokerage.failsOnly_submit (hp.gives_execute ho).fails⟩
  have hcommission := commission_submit p.brokerage (p.venue.getD p.market) o
  exact { hp with commission := (congrArg (D.Has ·.rate) hcommission).mpr hp.commission }

theorem safe_handleOrder {r : OrderRequest} (hr : r.Within D) :
    Safe (Error.EndsReplay D reckons) (Sound D reckons) (handleOrder r) := by
  have hvalidate : Gives (Error.EndsReplay D reckons) (fun o => o.terms.Within D) r.validate :=
    hr.validate
  refine Safe.bind (Safe.read fun p _ => endsReplay_strategy p r.strategy) fun _ => ?_
  refine Safe.bind_of_ok (Safe.ofExcept hvalidate.fails) fun {_ _ o} _ hread => ?_
  have ho : o.terms.Within D := hvalidate.value o (Action.ofExcept_eq_ok.mp hread).2
  refine Safe.bind (Safe.modify fun p hp => { hp with }) fun _ => ?_
  refine Safe.bind_of_ok (safe_submit ho) fun {p _ outcome} hp hsubmit => ?_
  cases outcome with
  | noBar => exact safe_log _ _
  | unmatched close => exact safe_log _ _
  | filled f =>
    have hf : f.Within D := (hp.gives_execute ho).value _ (submit_filled hsubmit).1 f rfl
    exact Safe.bind (safe_log _ _) fun _ => safe_handleFill hf

theorem safe_submitTarget (e : Asset × Int) :
    Safe (Error.EndsReplay D reckons) (Sound D reckons) (submitTarget n d e) := by
  refine Safe.bind_of_ok (Safe.read fun p _ => endsReplay_strategy p n) fun {p _ s} hp hread => ?_
  obtain ⟨-, hs⟩ := Action.read_eq_ok.mp hread
  have hpricing := (hp.strategies n s (strategy_eq_ok.mp hs)).pricing
  dsimp only
  split
  · exact Safe.pure ()
  have hprices : ∀ {q : Portfolio} action, q.Sound D reckons → Gives (Error.EndsReplay D reckons)
      (OrderPrices.Within D) (s.pricing.prices q.market d e.1 action) :=
    fun action hq => Pricing.gives_prices hpricing hq.market d e.1 action
  refine Safe.bind_of_ok (Safe.read fun q hq => (hprices _ hq).fails) fun hq hread => ?_
  obtain ⟨-, hread⟩ := Action.read_eq_ok.mp hread
  have hwithin := (hprices _ hq).value _ hread
  refine safe_handleOrder ⟨⟨_, rfl⟩, fun a ha => ?_, fun a ha => ?_⟩
  · obtain ⟨x, hx, rfl⟩ := Option.map_eq_some_iff.mp ha
    exact ⟨x, rfl, hwithin.primary x hx⟩
  · obtain ⟨x, hx, rfl⟩ := Option.map_eq_some_iff.mp ha
    exact ⟨x, rfl, hwithin.secondary x hx⟩

theorem safe_handleSignal (signals : Signals) :
    Safe (Error.EndsReplay D reckons) (Sound D reckons) (handleSignal d n signals) := by
  refine Safe.bind_of_ok (Safe.read fun p _ => endsReplay_strategy p n) fun {p _ s} hp hread => ?_
  obtain ⟨-, hs⟩ := Action.read_eq_ok.mp hread
  have hwithin := hp.strategies n s (strategy_eq_ok.mp hs)
  refine Safe.bind (Safe.modify fun p hp => { hp with }) fun _ => ?_
  refine Safe.bind (Safe.read fun q hq => ?_) fun sizes => Safe.forEach fun e _ => safe_submitTarget e
  exact Sizer.endsReplay_sizesFor hwithin.sizer hwithin.book hq.market hq.fx

theorem safe_runStrategy (n : String) :
    Safe (Error.EndsReplay D reckons) (Sound D reckons) (runStrategy d n) := by
  refine Safe.bind_of_ok Safe.get fun {p _ q} hp hget => ?_
  obtain ⟨-, rfl⟩ := Action.get_eq_ok.mp hget
  refine Safe.bind (safe_onStrategy fun s hs => ?_) fun signals => ?_
  · have hsignals := hs.signals d hp.market
    split
    · next t found hfound => exact ⟨hsignals.value _ hfound, FailsOnly.ok _⟩
    · next e he => exact ⟨hs, FailsOnly.error (hsignals.fails e he)⟩
  · split
    · exact safe_handleSignal signals
    · exact Safe.pure ()

theorem safe_creditDividend (a : Asset) {perShare : Decimal} (hshare : D.Has perShare) (n : String) :
    Safe (Error.EndsReplay D reckons) (Sound D reckons)
      (creditDividend d a (.known perShare) n) := by
  have hbook : Safe (Error.EndsReplay D reckons) (Strategy.Sound D reckons)
      (Strategy.applyDividend a (.known perShare)) :=
    fun s hs => Strategy.safe_onBook (Book.safe_applyDividend s.assets a hshare) s hs
  refine Safe.bind (Safe.read fun p _ => endsReplay_strategy p n) fun s => ?_
  split
  · refine Safe.bind (safe_onStrategy hbook) fun credit => ?_
    split
    · exact safe_log _ _
    · exact Safe.pure ()
  · exact Safe.pure ()

theorem safe_splitPosition (a : Asset) {ratio : Decimal} (hratio : D.Has ratio) (n : String) :
    Safe (Error.EndsReplay D reckons) (Sound D reckons) (splitPosition a (.known ratio) n) := by
  refine Safe.bind (Safe.read fun p _ => endsReplay_strategy p n) fun s => ?_
  split
  · exact safe_onStrategy (Strategy.safe_applySplit a hratio)
  · exact Safe.pure ()

/-- The coefficient of a bar that was accepted can be divided by. -/
theorem safe_handleSplit (a : Asset) {b : Bar} (hb : b.Within D) :
    Safe (Error.EndsReplay D reckons) (Sound D reckons) (handleSplit d a (.known b.split)) := by
  have hbars : Safe (Error.EndsReplay D reckons) (Sound D reckons) (splitBars a b.split) := by
    intro p hp
    obtain ⟨hmarket, hfails⟩ := hp.market.split a hb.split b.isAtMost_split
    exact ⟨{ hp with market := hmarket }, hfails⟩
  refine Safe.bind Safe.get fun p => ?_
  refine Safe.bind (Safe.forEach fun n _ => safe_splitPosition a hb.split n) fun _ => ?_
  refine Safe.bind_of_ok (Safe.ofExcept (FailsOnly.ok b.split)) fun _ hread => ?_
  obtain ⟨-, hread⟩ := Action.ofExcept_eq_ok.mp hread
  obtain rfl := Except.ok.inj hread
  exact Safe.bind hbars fun _ => safe_log _ _

variable {day : MarketDay}

theorem safe_takeIn (hday : day.Within D) :
    Safe (Error.EndsReplay D reckons) (Sound D reckons) (takeIn day) := by
  refine Safe.bind (Safe.update_of_gives fun p hp => ?_) fun _ => ?_
  · split
    · exact Gives.error rfl
    · exact Gives.ok hp
  refine Safe.bind (Safe.update_of_gives fun p hp => ?_) fun _ => Safe.update_of_gives fun p hp => ?_
  · exact Gives.bind (hp.market.append hday.bars) fun market hmarket =>
      Gives.ok { hp with market := hmarket }
  · exact Gives.bind (hp.fx.append hday.rates) fun fx hfx => Gives.ok { hp with fx := hfx }

theorem safe_applyCorporateActions (hday : day.Within D) :
    Safe (Error.EndsReplay D reckons) (Sound D reckons) (applyCorporateActions day) := by
  have hbar : ∀ {e} {p : Asset × Bar → Bool}, e ∈ day.bars.toList.filter p → e.2.Within D :=
    fun {e} _ he => hday.bars e.1 e.2 (OrderedMap.get?_eq_some_iff.mpr (List.mem_of_mem_filter he))
  refine Safe.bind (Safe.forEach fun e he => ?_) fun _ => Safe.forEach fun e he => ?_
  · refine Safe.bind Safe.get fun p => Safe.forEach fun n _ => ?_
    exact safe_creditDividend e.1 (hbar he).dividend n
  · exact safe_handleSplit e.1 (hbar he)

/-- Books of the domain are worth something of it, all together. -/
theorem gives_totalValue {strategies : Strategies} {market : MarketHistory} {fx : FxHistory}
    (hbooks : ∀ n s, strategies.get? n = some s → s.book.Within D) (hmarket : market.Within D)
    (hfx : fx.Within D) (d : Date) (base : Currency) :
    Gives (Error.EndsReplay D reckons) D.Has (strategies.totalValue d base market fx) := by
  refine Gives.foldlM (fun total htotal s hs => ?_) (D.ofInt 0)
  obtain ⟨⟨n, s⟩, hmem, rfl⟩ := List.mem_map.mp hs
  have hbook := hbooks n s (OrderedMap.get?_eq_some_iff.mpr hmem)
  exact Gives.bind (hbook.totalValue hmarket hfx) fun worth hworth =>
    Decimal.gives_lift (D.add htotal hworth)

namespace Sound

theorem worth (hp : p.Sound D reckons) {s : Strategy} (hs : s ∈ p.strategies.values) (d : Date) :
    Gives (Error.EndsReplay D reckons) D.Has (s.totalValue d p.base p.market p.fx) := by
  obtain ⟨⟨n, s⟩, hmem, rfl⟩ := List.mem_map.mp hs
  have hwithin := hp.strategies n s (OrderedMap.get?_eq_some_iff.mpr hmem)
  exact hwithin.book.totalValue hp.market hp.fx

theorem totalValue (hp : p.Sound D reckons) (d : Date) :
    Gives (Error.EndsReplay D reckons) D.Has (p.totalValue d) :=
  gives_totalValue (fun n s hs => (hp.strategies n s hs).book) hp.market hp.fx d p.base

/-- The values that capital comes from are in the domain, and so is an even share of them. -/
theorem allocate (hp : p.Sound D reckons) (d : Date) :
    Gives (Error.EndsReplay D reckons)
      (fun capital => ∀ e ∈ capital, ∃ x, D.Has x ∧ e.2 = Allocator.inBase p.base x)
      (p.allocator.allocate p.strategies d p.base p.market p.fx) := by
  cases hallocator : p.allocator with
  | fixed capital => exact absurd hallocator (hp.allocator capital)
  | selfFunded =>
    have hvalue : ∀ e ∈ p.strategies.toList, Gives (Error.EndsReplay D reckons)
        (fun v : String × Decimal => D.Has v.2)
        (do pure (e.1, ← e.2.totalValue d p.base p.market p.fx)) := fun e he =>
      Gives.bind (hp.worth (List.mem_map.mpr ⟨e, he, rfl⟩) d) fun _ hworth => Gives.ok hworth
    refine Gives.bind (Gives.mapM hvalue) fun worth hworth => Gives.ok fun e he => ?_
    obtain ⟨v, hv, rfl⟩ := List.mem_map.mp he
    exact ⟨v.2, hworth v hv, rfl⟩
  | equalWeight =>
    unfold Allocator.allocate
    dsimp only
    split
    · exact Gives.ok fun e he => absurd he List.not_mem_nil
    · next hnonempty =>
      have hcount : 0 < (p.strategies.size : Int) := by
        have hlength : p.strategies.toList ≠ [] := by simpa [OrderedMap.isEmpty] using hnonempty
        exact_mod_cast List.length_pos_iff.mpr hlength
      refine Gives.bind (hp.totalValue d) fun total htotal => ?_
      refine Gives.bind (Decimal.gives_lift (D.div htotal (D.ofInt _) (Decimal.isAtMost_ofInt hcount)))
        fun share hshare => Gives.ok fun e he => ?_
      obtain ⟨n, -, rfl⟩ := List.mem_map.mp he
      exact ⟨share, hshare, rfl⟩

end Sound

theorem safe_allocateCapital :
    Safe (Error.EndsReplay D reckons) (Sound D reckons) (allocateCapital d) := by
  refine Safe.bind_of_ok (Safe.read fun p hp => (hp.allocate d).fails) fun {p _ capital} hp hread => ?_
  obtain ⟨-, hcapital⟩ := Action.read_eq_ok.mp hread
  refine Safe.forEach fun e he => ?_
  obtain ⟨n, c⟩ := e
  obtain ⟨x, hx, rfl⟩ := (hp.allocate d).value capital hcapital (n, c) he
  exact safe_onStrategy (Strategy.safe_setTarget p.base hx)

theorem safe_recordEquity :
    Safe (Error.EndsReplay D reckons) (Sound D reckons) (recordEquity d) := by
  refine Safe.bind (Safe.read fun p hp => (hp.totalValue d).fails) fun value => ?_
  refine Safe.bind (Safe.update_of_gives fun p hp => ?_) fun _ => ?_
  · exact Gives.bind_of_fails (p.equity.endsReplay_record d value) fun _ => Gives.ok { hp with }
  refine Safe.bind Safe.get fun p => ?_
  exact Safe.bind (safe_log _ _) fun _ => Safe.pure value

/-- A market day leaves a portfolio sound, and ends with no other error. -/
theorem safe_handleMarket (hday : day.Within D) :
    Safe (Error.EndsReplay D reckons) (Sound D reckons) (handleMarket day) := by
  refine Safe.bind (safe_takeIn hday) fun _ => ?_
  refine Safe.bind (safe_applyCorporateActions hday) fun _ => ?_
  refine Safe.bind safe_allocateCapital fun _ => Safe.bind Safe.get fun p => ?_
  refine Safe.bind (Safe.forEach fun n _ => safe_runStrategy n) fun _ => ?_
  exact Safe.bind safe_recordEquity fun _ => Safe.pure ()

end Portfolio
end Backtesting
