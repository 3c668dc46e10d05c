import Backtesting.Proofs.Market.Rates
import Backtesting.Proofs.Portfolio.Frame

/-!
The states that a portfolio can reach. Events change nothing of what a portfolio was set up with,
and all its rates are positive, since no other rate is ever taken in.
-/
namespace Backtesting

namespace Portfolio

/-- The portfolio as it is set up, without any history. -/
def setup (p : Portfolio) : Portfolio :=
  { p with
    strategies := p.strategies.mapValues fun _ s => s.setup
    market := MarketHistory.empty
    fx := FxHistory.empty p.fx.base
    equity := EquityCurve.empty
    fills := []
    signalCount := 0
    orderCount := 0
    brokerage := Brokerage.start p.brokerage.commission
    journal := [] }

theorem setup_put {p : Portfolio} {n : String} {s t : Strategy} (hs : p.strategies.get? n = some s)
    (ht : t.setup = s.setup) :
    { p with strategies := p.strategies.put n t }.setup = p.setup := by
  have hput : (p.strategies.put n t).mapValues (fun _ s => s.setup) =
      p.strategies.mapValues fun _ s => s.setup := OrderedMap.mapValues_put hs ht
  simp [setup, hput]

theorem allowsEvents_setup : AllowsEvents fun p q => q.setup = p.setup where
  trading n := {
    path := ⟨fun _ => rfl, fun h h' => h'.trans h⟩
    strategy hs ht := setup_put hs ht.setup
    target _ hs := setup_put hs rfl
    fills _ _ _ := rfl
    signalCount _ _ := rfl
    orderCount _ := rfl
    brokerage p b hb := by simp [setup, hb]
    journal _ _ := rfl }
  market _ _ := rfl
  fx h := by simp [setup, FxHistory.base_append h]
  equity _ _ := rfl

theorem allowsEvents_positiveRates :
    AllowsEvents fun p q => p.fx.HasPositiveRates → q.fx.HasPositiveRates where
  trading _ := {
    path := Action.IsPath.implies _
    strategy _ _ := id
    target _ _ := id
    fills _ _ _ := id
    signalCount _ _ := id
    orderCount _ := id
    brokerage _ _ _ := id
    journal _ _ := id }
  market _ _ := id
  fx h hp := FxHistory.hasPositiveRates_append hp h
  equity _ _ := id

/-- What a strategy keeps while it evolves and whatever its capital, all strategies keep. -/
theorem allowsEvents_all {P : Strategy → Prop} (hevolves : ∀ {s t}, s.Evolves t → P s → P t)
    (htarget : ∀ s target, P s → P { s with book := { s.book with target } }) :
    AllowsEvents fun p q => (∀ n s, p.strategies.get? n = some s → P s) →
      ∀ n s, q.strategies.get? n = some s → P s where
  trading _ := {
    path := Action.IsPath.implies _
    strategy hs ht hp := OrderedMap.forall_get?_put hp (hevolves ht (hp _ _ hs))
    target target hs hp := OrderedMap.forall_get?_put hp (htarget _ target (hp _ _ hs))
    fills _ _ _ := id
    signalCount _ _ := id
    orderCount _ := id
    brokerage _ _ _ := id
    journal _ _ := id }
  market _ _ := id
  fx _ := id
  equity _ _ := id

/-- The state after some events, whatever became of them. -/
def after : List Event → Portfolio → Portfolio
  | [], p => p
  | e :: es, p => after es (handle e p).1

theorem after_append (es fs : List Event) (p : Portfolio) :
    after (es ++ fs) p = after fs (after es p) := by
  induction es generalizing p with
  | nil => rfl
  | cons e es ih => exact ih (handle e p).1

/-- What allows every event holds between the first state and the last. -/
theorem AllowsEvents.after {r : Portfolio → Portfolio → Prop} (hr : AllowsEvents r) (p : Portfolio)
    (es : List Event) : r p (Portfolio.after es p) := by
  induction es generalizing p with
  | nil => exact hr.path.refl p
  | cons e es ih => exact hr.path.trans (hr.handle e p) (ih (Portfolio.handle e p).1)

theorem setup_after (p : Portfolio) (es : List Event) : (after es p).setup = p.setup :=
  allowsEvents_setup.after p es

variable {p q fresh : Portfolio}

theorem keys_of_setup_eq (h : p.setup = q.setup) : p.strategies.keys = q.strategies.keys := by
  have hkeys := congrArg OrderedMap.keys (congrArg Portfolio.strategies h)
  simpa [setup] using hkeys

/-- What two portfolios of one setup have in common besides their strategies. -/
theorem config_of_setup_eq (h : p.setup = q.setup) :
    p.name = q.name ∧ p.base = q.base ∧ p.listings = q.listings ∧ p.allocator = q.allocator ∧
      p.venue = q.venue ∧ p.fx.base = q.fx.base ∧
      p.brokerage.commission = q.brokerage.commission := by
  simp only [setup, Portfolio.mk.injEq, FxHistory.empty, FxHistory.mk.injEq, Brokerage.start,
    Brokerage.mk.injEq, and_true, true_and] at h
  obtain ⟨hname, hbase, -, hlistings, hallocator, hfx, hcommission, hvenue⟩ := h
  exact ⟨hname, hbase, hlistings, hallocator, hvenue, hfx, hcommission⟩

theorem setup_of_get? (h : p.setup = q.setup) {n : String} {s : Strategy}
    (hs : p.strategies.get? n = some s) :
    ∃ t, q.strategies.get? n = some t ∧ s.setup = t.setup := by
  have hget := congrArg (OrderedMap.get? · n) (congrArg Portfolio.strategies h)
  simp only [setup, OrderedMap.get?_mapValues, hs, Option.map_some] at hget
  obtain ⟨t, ht, heq⟩ := Option.map_eq_some_iff.mp hget.symm
  exact ⟨t, ht, heq.symm⟩

section Build

variable {name : String} {base : Document} {named : List (String × Strategy)}
  {allocator : Allocator} {commission : Commission} {fxBase : Option Currency}
  {explicit : List (Asset × Document)} {venue : Option MarketHistory}

/-- A portfolio is built of what is read, gathered and listed, and of nothing else. -/
theorem build_eq_ok :
    build name base named allocator commission fxBase explicit venue = .ok fresh ↔
      Currency.read base = .ok fresh.base ∧ gatherStrategies name named = .ok fresh.strategies ∧
        mergeListings name explicit fresh.strategies = .ok fresh.listings ∧
        fxBase.getD fresh.base = fresh.base ∧
        fresh = {
          name, base := fresh.base, strategies := fresh.strategies, listings := fresh.listings
          allocator
          market := MarketHistory.empty
          fx := FxHistory.empty fresh.base
          equity := EquityCurve.empty
          fills := []
          signalCount := 0
          orderCount := 0
          brokerage := Brokerage.start commission
          venue
          journal := [] } := by
  constructor
  · intro h
    obtain ⟨base, hbase, h⟩ := Except.bind_eq_ok.mp h
    obtain ⟨strategies, hgather, h⟩ := Except.bind_eq_ok.mp h
    obtain ⟨listings, hmerge, h⟩ := Except.bind_eq_ok.mp h
    dsimp only at h
    split at h
    · obtain ⟨-, h, -⟩ := Except.bind_eq_ok.mp h
      exact absurd h Except.throw_ne_ok
    · next hsame =>
      obtain rfl := Except.pure_eq_ok.mp h
      have hfx : fxBase.getD base = base := not_not.mp hsame
      exact ⟨hbase, hgather, hmerge, hfx, by rw [hfx]⟩
  · rintro ⟨hbase, hgather, hmerge, hfx, hfresh⟩
    rw [hfresh]
    unfold build
    simp [hbase, hgather, hmerge, hfx]

/-- What a portfolio is built without. -/
theorem history_of_build
    (h : build name base named allocator commission fxBase explicit venue = .ok fresh) :
    fresh.market = MarketHistory.empty ∧ fresh.fx = FxHistory.empty fresh.base ∧
      fresh.equity = EquityCurve.empty ∧ fresh.fills = [] ∧ fresh.signalCount = 0 ∧
      fresh.orderCount = 0 ∧ fresh.brokerage = Brokerage.start commission := by
  obtain ⟨-, -, -, -, hfresh⟩ := build_eq_ok.mp h
  rw [hfresh]
  simp

theorem toList_gather {m gathered : Strategies}
    (h : named.foldlM (fun (m : Strategies) e =>
      if m.contains e.1 then Except.error (Error.duplicateStrategy name e.1)
      else .ok (m.put e.1 e.2)) m = .ok gathered) : gathered.toList = m.toList ++ named := by
  induction named generalizing m with
  | nil => rw [Except.foldlM_nil_eq_ok.mp h, List.append_nil]
  | cons e named ih =>
    obtain ⟨m', hput, hrest⟩ := Except.foldlM_cons_eq_ok.mp h
    by_cases hc : m.contains e.1 = true
    · simp [hc] at hput
    · rw [if_neg hc] at hput
      obtain rfl := Except.ok.inj hput
      have hfresh : e.1 ∉ m.keys := fun hmem => hc (OrderedMap.contains_eq_true_iff.mpr hmem)
      rw [ih hrest, OrderedMap.toList_put_of_notMem e.2 hfresh, List.append_assoc]
      rfl

/-- A portfolio is built of the strategies that it is given, in their order. -/
theorem strategies_of_build
    (h : build name base named allocator commission fxBase explicit venue = .ok fresh) :
    fresh.strategies.toList = named ∧ fresh.allocator = allocator := by
  obtain ⟨-, hgather, -, -, hfresh⟩ := build_eq_ok.mp h
  obtain ⟨gathered, hfold, hgather⟩ := Except.bind_eq_ok.mp hgather
  dsimp only at hgather
  split at hgather
  · obtain ⟨-, hgather, -⟩ := Except.bind_eq_ok.mp hgather
    exact absurd hgather Except.throw_ne_ok
  rw [← Except.pure_eq_ok.mp hgather]
  exact ⟨toList_gather hfold, by rw [hfresh]⟩

end Build

end Portfolio

/-- A bar of an asset that costs the same all day. -/
def Bar.flat : Bar := ⟨⟨10, 10, 10, 10, 10, 100, 0, 1⟩, rfl⟩

def MarketDay.flat (d : Date) (assets : List Asset) : MarketDay :=
  ⟨d, OrderedMap.ofList (assets.map (·, Bar.flat)), []⟩

/-- A portfolio of holders, each named for its asset. -/
def Portfolio.holding (assets : List Asset) : Portfolio where
  name := "holding"
  base := .usd
  strategies := OrderedMap.ofList (assets.map fun a => (a, Strategy.holder a))
  listings := OrderedMap.ofList (assets.map (·, .usd))
  allocator := .selfFunded
  market := MarketHistory.empty
  fx := FxHistory.empty .usd
  equity := EquityCurve.empty
  fills := []
  signalCount := 0
  orderCount := 0
  brokerage := Brokerage.start Commission.standard
  venue := none
  journal := []

theorem Portfolio.build_holding :
    build "holding" (.text "USD") [("A", Strategy.holder "A"), ("B", Strategy.holder "B")]
      .selfFunded Commission.standard none [] none = .ok (holding ["A", "B"]) := rfl

end Backtesting
