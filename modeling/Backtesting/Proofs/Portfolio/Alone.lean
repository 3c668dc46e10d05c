import Backtesting.Proofs.Chronicle
import Backtesting.Proofs.Portfolio.Day
import Backtesting.Proofs.Portfolio.Mirror
import Backtesting.Proofs.Portfolio.Trading
import Backtesting.Proofs.Strategy.Value
import Mathlib.Logic.Function.Basic

/-!
Strategies that fund themselves, in one portfolio and each in a portfolio of its own. They share the
histories, which all portfolios write alike, and the brokerage, which does not look at what it did
before. A step of one strategy is the step of its own portfolio and is not seen in the others.
-/
namespace Backtesting.Portfolio

open Backtesting.Action (IsPath Keeps Mirrors bind_eq_ok)

variable {n m : String} {p q : Portfolio} {one : String → Portfolio}

/-- The portfolio `q` runs the strategy `n` of `p` and nothing else. -/
structure Alone (n : String) (p q : Portfolio) : Prop where
  base : p.base = q.base
  market : p.market = q.market
  fx : p.fx = q.fx
  venue : p.venue = q.venue
  commission : p.brokerage.commission = q.brokerage.commission
  selfFunded : q.allocator = .selfFunded
  dates : p.equity.values.dates = q.equity.values.dates
  strategy : ∃ s, p.strategies.get? n = some s ∧ q.strategies = OrderedMap.empty.put n s
  fills : q.fills = fillsOf n p.fills

namespace Alone

theorem get? (h : Alone n p q) : q.strategies.get? n = p.strategies.get? n := by
  obtain ⟨s, hs, hq⟩ := h.strategy
  rw [hq, OrderedMap.get?_put, if_pos rfl, hs]

theorem toList (h : Alone n p q) :
    ∃ s, p.strategies.get? n = some s ∧ q.strategies.toList = [(n, s)] := by
  obtain ⟨s, hs, hq⟩ := h.strategy
  exact ⟨s, hs, by rw [hq]; rfl⟩

theorem keys (h : Alone n p q) : q.strategies.keys = [n] := by
  obtain ⟨s, -, hq⟩ := h.toList
  rw [OrderedMap.keys, hq]
  rfl

end Alone

/-- What a step of one strategy leaves as it is between the portfolio of all and its own one: by how
much the counts differ, and both equity curves. -/
def gap (p q : Portfolio) : Int × Int × EquityCurve × EquityCurve :=
  (p.signalCount - q.signalCount, p.orderCount - q.orderCount, p.equity, q.equity)

theorem mirrorsTrading_alone (n : String) (g : Int × Int × EquityCurve × EquityCurve) :
    MirrorsTrading n fun p q => Alone n p q ∧ gap p q = g where
  same_strategy h := h.1.get?.symm
  same_market h := h.1.market
  same_fx h := h.1.fx
  same_venue h := h.1.venue
  same_commission h := h.1.commission
  strategy := by
    rintro p q s ⟨h, rfl⟩ - t
    refine ⟨{ h with strategy := ⟨t, by simp, ?_⟩ }, rfl⟩
    obtain ⟨s', -, hq⟩ := h.strategy
    show q.strategies.put n t = _
    rw [hq, OrderedMap.put_put]
  fills := by
    rintro p q ⟨h, rfl⟩ f hf
    refine ⟨{ h with fills := ?_ }, rfl⟩
    have hown : fillsOf n [f] = [f] := by simp [fillsOf, hf]
    rw [fillsOf_append, hown, h.fills]
  signalCount := by
    rintro p q ⟨h, rfl⟩ k
    refine ⟨{ h with }, ?_⟩
    simp only [gap, Prod.mk.injEq, and_true]
    omega
  orderCount := by
    rintro p q ⟨h, rfl⟩
    refine ⟨{ h with }, ?_⟩
    simp only [gap, Prod.mk.injEq, and_true, true_and]
    omega
  brokerage := by
    rintro p q ⟨h, rfl⟩ b c hb hc
    exact ⟨{ h with commission := hb.trans (h.commission.trans hc.symm) }, rfl⟩
  journal := by
    rintro p q ⟨h, rfl⟩ j k
    exact ⟨{ h with }, rfl⟩

/-- The portfolios of the other strategies see nothing of a strategy that trades. -/
theorem allowsFunding_alone (h : n ≠ m) :
    AllowsFunding m fun p q => ∀ r, Alone n p r → Alone n q r where
  path := ⟨fun _ _ => id, fun hpq hqr r hr => hqr r (hpq r hr)⟩
  strategy := by
    intro p s t hs ht r hr
    obtain ⟨s', hs', hq⟩ := hr.strategy
    exact { hr with strategy := ⟨s', by simpa [h] using hs', hq⟩ }
  target := by
    intro p s target hs r hr
    obtain ⟨s', hs', hq⟩ := hr.strategy
    exact { hr with strategy := ⟨s', by simpa [h] using hs', hq⟩ }
  fills := by
    intro p f hf r hr
    have hother : fillsOf n [f] = [] := by simp [fillsOf, hf, h.symm]
    exact { hr with fills := by rw [fillsOf_append, hother, List.append_nil, hr.fills] }
  signalCount _ _ _ hr := { hr with }
  orderCount _ _ hr := { hr with }
  brokerage _ _ hb _ hr := { hr with commission := hb.trans hr.commission }
  journal _ _ _ hr := { hr with }

/-- A step that belongs to one strategy. -/
structure IsOwn (m : String) (x : Action Portfolio Unit) : Prop where
  keeps : ∀ {r}, AllowsFunding m r → Keeps r x
  mirrors : ∀ {R}, MirrorsTrading m R → Mirrors R Eq x x

/-- Every strategy of `p` runs in a portfolio of its own, and what is counted there is counted in `p`. -/
structure Together (p : Portfolio) (one : String → Portfolio) : Prop where
  selfFunded : p.allocator = .selfFunded
  alone : ∀ n ∈ p.strategies.keys, Alone n p (one n)
  signals : p.signalCount = (p.strategies.keys.map fun n => (one n).signalCount).sum
  orders : p.orderCount = (p.strategies.keys.map fun n => (one n).orderCount).sum

theorem sum_update (g : Portfolio → Nat) (one : String → Portfolio) (r : Portfolio) {ns : List String} (hns : ns.Nodup)
    (hm : m ∈ ns) :
    (ns.map fun n => g (Function.update one m r n)).sum + g (one m) =
      (ns.map fun n => g (one n)).sum + g r := by
  induction ns with
  | nil => exact absurd hm List.not_mem_nil
  | cons n ns ih =>
    obtain ⟨hfresh, hns⟩ := List.nodup_cons.mp hns
    simp only [List.map_cons, List.sum_cons]
    by_cases hn : n = m
    · subst hn
      have hothers : (ns.map fun k => g (Function.update one n r k)) = ns.map fun k => g (one k) := by
        apply List.map_congr_left
        intro k hk
        have hkn : k ≠ n := by
          rintro rfl
          exact hfresh hk
        rw [Function.update_of_ne hkn]
      rw [hothers, Function.update_self]
      omega
    · have hrest := ih hns (List.mem_of_ne_of_mem (Ne.symm hn) hm)
      rw [Function.update_of_ne hn]
      omega

/-- What stays when portfolios go on from `p` and `one` to `q` and `two`. -/
structure Stays (p : Portfolio) (one : String → Portfolio) (q : Portfolio)
    (two : String → Portfolio) : Prop where
  keys : q.strategies.keys = p.strategies.keys
  equity : q.equity = p.equity
  equities : ∀ n ∈ p.strategies.keys, (two n).equity = (one n).equity

theorem allowsFunding_keys (m : String) : AllowsFunding m fun p q =>
    q.strategies.keys = p.strategies.keys ∧ q.allocator = p.allocator where
  path := ⟨fun _ => ⟨rfl, rfl⟩, fun h h' => ⟨h'.1.trans h.1, h'.2.trans h.2⟩⟩
  strategy hs _ := ⟨OrderedMap.keys_put_of_get? _ hs, rfl⟩
  target _ hs := ⟨OrderedMap.keys_put_of_get? _ hs, rfl⟩
  fills _ _ _ := ⟨rfl, rfl⟩
  signalCount _ _ := ⟨rfl, rfl⟩
  orderCount _ := ⟨rfl, rfl⟩
  brokerage _ _ _ := ⟨rfl, rfl⟩
  journal _ _ := ⟨rfl, rfl⟩

/-- A step of one strategy is made in its own portfolio as well, and in no other. -/
theorem Together.step {x : Action Portfolio Unit} (hx : IsOwn m x) (h : Together p one)
    (hm : m ∈ p.strategies.keys) (hq : x p = (q, .ok ())) :
    ∃ r, x (one m) = (r, .ok ()) ∧ Together q (Function.update one m r) ∧
      Stays p one q (Function.update one m r) := by
  obtain ⟨r, _, hr, ⟨halone, hgap⟩, -⟩ :=
    (hx.mirrors (mirrorsTrading_alone m (gap p (one m)))).ok ⟨h.alone m hm, rfl⟩ hq
  obtain ⟨hkeys, hallocator⟩ :
      q.strategies.keys = p.strategies.keys ∧ q.allocator = p.allocator := by
    simpa [hq] using hx.keeps (allowsFunding_keys m) p
  have hother : ∀ n, n ≠ m → ∀ r, Alone n p r → Alone n q r := by
    intro n hn
    simpa [hq] using hx.keeps (allowsFunding_alone hn) p
  simp only [gap, Prod.mk.injEq] at hgap
  obtain ⟨hsignals, horders, hequity, hown⟩ := hgap
  have hnodup : p.strategies.keys.Nodup := p.strategies.nodup
  refine ⟨r, hr, ⟨hallocator.trans h.selfFunded, ?_, ?_, ?_⟩, hkeys, hequity, ?_⟩
  · intro n hn
    by_cases hnm : n = m
    · subst hnm
      rw [Function.update_self]
      exact halone
    · rw [Function.update_of_ne hnm]
      exact hother n hnm _ (h.alone n (hkeys ▸ hn))
  · have hsum := sum_update signalCount one r hnodup hm
    have hbefore := h.signals
    rw [hkeys]
    omega
  · have hsum := sum_update orderCount one r hnodup hm
    have hbefore := h.orders
    rw [hkeys]
    omega
  · intro n hn
    by_cases hnm : n = m
    · subst hnm
      rw [Function.update_self]
      exact hown
    · rw [Function.update_of_ne hnm]

theorem Stays.refl (p : Portfolio) (one : String → Portfolio) : Stays p one p one :=
  ⟨rfl, rfl, fun _ _ => rfl⟩

theorem Stays.trans {r : Portfolio} {two three : String → Portfolio} (h : Stays p one q two)
    (h' : Stays q two r three) : Stays p one r three where
  keys := h'.keys.trans h.keys
  equity := h'.equity.trans h.equity
  equities n hn := (h'.equities n (h.keys ▸ hn)).trans (h.equities n hn)

/-- Steps of different strategies, one after the other, are made in the portfolio of each. -/
theorem Together.forEach {α : Type} {name : α → String} {f : α → Action Portfolio Unit}
    (hf : ∀ a, IsOwn (name a) (f a)) {as : List α} (has : (as.map name).Nodup)
    (hnames : ∀ a ∈ as, name a ∈ p.strategies.keys) (h : Together p one)
    (hq : Action.forEach as f p = (q, .ok ())) :
    ∃ two, Together q two ∧ Stays p one q two ∧
      (∀ a ∈ as, f a (one (name a)) = (two (name a), .ok ())) ∧
      ∀ n ∉ as.map name, two n = one n := by
  induction as generalizing p one with
  | nil =>
    obtain rfl := Action.forEach_nil_eq_ok.mp hq
    exact ⟨one, h, .refl q one, fun a ha => absurd ha List.not_mem_nil, fun n _ => rfl⟩
  | cons a as ih =>
    rw [List.map_cons, List.nodup_cons] at has
    obtain ⟨hfresh, has⟩ := has
    obtain ⟨u, hu, hrest⟩ := Action.forEach_cons_eq_ok.mp hq
    obtain ⟨r, hr, htogether, hstays⟩ := h.step (hf a) (hnames a List.mem_cons_self) hu
    have hnames' : ∀ b ∈ as, name b ∈ u.strategies.keys := by
      intro b hb
      rw [hstays.keys]
      exact hnames b (List.mem_cons_of_mem a hb)
    obtain ⟨two, htogether', hstays', hsteps, hothers⟩ := ih has hnames' htogether hrest
    refine ⟨two, htogether', hstays.trans hstays', ?_, ?_⟩
    · intro b hb
      rcases List.mem_cons.mp hb with rfl | hb
      · rw [hr, hothers (name b) hfresh, Function.update_self]
      · have hne : name b ≠ name a := by
          intro heq
          exact hfresh (heq ▸ List.mem_map_of_mem hb)
        have hstep := hsteps b hb
        rwa [Function.update_of_ne hne] at hstep
    · intro n hn
      rw [List.map_cons, List.mem_cons, not_or] at hn
      rw [hothers n hn.2, Function.update_of_ne hn.1]

/-- A step of the portfolio that all the single portfolios make as well. -/
def Parallel (x : Action Portfolio Unit) : Prop :=
  ∀ ⦃p q one⦄, Together p one → x p = (q, .ok ()) →
    ∃ two, Together q two ∧ Stays p one q two ∧
      ∀ n ∈ p.strategies.keys, x (one n) = (two n, .ok ())

namespace Parallel

variable {x y : Action Portfolio Unit}

theorem bind (hx : Parallel x) (hy : Parallel y) : Parallel (x >>= fun _ => y) := by
  intro p q one h hq
  obtain ⟨u, _, hu, hrest⟩ := bind_eq_ok.mp hq
  obtain ⟨two, htwo, hstays, hfirst⟩ := hx h hu
  obtain ⟨three, hthree, hstays', hsecond⟩ := hy htwo hrest
  refine ⟨three, hthree, hstays.trans hstays', fun n hn => ?_⟩
  exact bind_eq_ok.mpr ⟨two n, (), hfirst n hn, hsecond n (hstays.keys ▸ hn)⟩

protected theorem forEach {α : Type} {f : α → Action Portfolio Unit} (hf : ∀ a, Parallel (f a)) :
    ∀ as, Parallel (Action.forEach as f)
  | [] => by
    intro p q one h hq
    obtain rfl := Action.forEach_nil_eq_ok.mp hq
    exact ⟨one, h, .refl q one, fun n _ => rfl⟩
  | a :: as => bind (hf a) (Parallel.forEach hf as)

/-- What is done to all strategies by name is done to the only strategy of a single portfolio. -/
theorem of_own {f : String → Action Portfolio Unit} (hf : ∀ n, IsOwn n (f n)) :
    Parallel (do
      let p ← Action.get
      Action.forEach p.strategies.keys f) := by
  intro p q one h hq
  obtain ⟨u, p', hget, hrest⟩ := bind_eq_ok.mp hq
  obtain ⟨rfl, rfl⟩ := Action.get_eq_ok.mp hget
  have hnodup : (p'.strategies.keys.map id).Nodup := by
    rw [List.map_id]
    exact p'.strategies.nodup
  have hown : ∀ n, IsOwn (id n) (f n) := hf
  obtain ⟨two, htwo, hstays, hsteps, -⟩ :=
    Together.forEach hown hnodup (fun _ hn => hn) h hrest
  refine ⟨two, htwo, hstays, fun n hn => ?_⟩
  refine bind_eq_ok.mpr ⟨one n, one n, rfl, ?_⟩
  rw [(h.alone n hn).keys, Action.forEach_cons_eq_ok]
  exact ⟨two n, hsteps n hn, rfl⟩

theorem handleDividend (d : Date) (a : Asset) (perShare : Amount) :
    Parallel (Portfolio.handleDividend d a perShare) :=
  of_own fun _ => ⟨fun hr => hr.books.creditDividend d a perShare, fun hR => hR.creditDividend d a perShare⟩

/-- What all portfolios write alike. -/
theorem write (h : Together p one) (market : MarketHistory) (fx : FxHistory)
    (journal : List LogEntry) (journals : String → List LogEntry) :
    Together { p with market, fx, journal }
      (fun n => { one n with market, fx, journal := journals n }) ∧
    Stays p one { p with market, fx, journal }
      (fun n => { one n with market, fx, journal := journals n }) := by
  refine ⟨⟨h.selfFunded, fun n hn => ?_, h.signals, h.orders⟩, rfl, rfl, fun _ _ => rfl⟩
  exact { h.alone n hn with market := rfl, fx := rfl }

theorem takeIn (day : MarketDay) : Parallel (Portfolio.takeIn day) := by
  intro p q one h hq
  obtain ⟨market, fx, hlater, hmarket, hfx, rfl⟩ := takeIn_eq_ok.mp hq
  obtain ⟨htogether, hstays⟩ := write h market fx p.journal fun n => (one n).journal
  refine ⟨_, htogether, hstays, fun n hn => takeIn_eq_ok.mpr ⟨market, fx, ?_, ?_, ?_, rfl⟩⟩
  · rw [← Chronicle.later?_eq_of_dates_eq (h.alone n hn).dates]
    exact hlater
  · rw [← (h.alone n hn).market]
    exact hmarket
  · rw [← (h.alone n hn).fx]
    exact hfx

theorem handleSplit (d : Date) (a : Asset) (ratio : Amount) :
    Parallel (Portfolio.handleSplit d a ratio) := by
  intro p q one h hq
  obtain ⟨u, p', hget, h₁⟩ := bind_eq_ok.mp hq
  obtain ⟨rfl, rfl⟩ := Action.get_eq_ok.mp hget
  obtain ⟨v, _, hpositions, h₂⟩ := bind_eq_ok.mp h₁
  obtain ⟨w, coefficient, hratio, h₃⟩ := bind_eq_ok.mp h₂
  obtain ⟨rfl, hread⟩ := Action.ofExcept_eq_ok.mp hratio
  obtain ⟨x, count, hbars, hlog⟩ := bind_eq_ok.mp h₃
  obtain ⟨rfl, hcount⟩ := Prod.mk.inj hbars
  obtain rfl := Action.modify_eq_ok.mp hlog
  have hown : ∀ n, IsOwn n (Portfolio.splitPosition a ratio n) :=
    fun _ => ⟨fun hr => hr.books.splitPosition a ratio, fun hR => hR.splitPosition a ratio⟩
  obtain ⟨two, htwo, hstays, hsteps⟩ := of_own hown h (bind_eq_ok.mpr ⟨p', p', rfl, hpositions⟩)
  obtain ⟨htogether, hwritten⟩ := write htwo (w.market.split a coefficient).1 w.fx
    (w.journal ++
      [⟨.info, s!"[Portfolio] {d.toText} split {a} x{ratio.text} ({count} bars adjusted)"⟩])
    fun n => (two n).journal ++
      [⟨.info, s!"[Portfolio] {d.toText} split {a} x{ratio.text} ({count} bars adjusted)"⟩]
  refine ⟨_, htogether, hstays.trans hwritten, fun n hn => ?_⟩
  have halone : Alone n w (two n) := htwo.alone n (hstays.keys ▸ hn)
  obtain ⟨v, p, hget, hown⟩ := bind_eq_ok.mp (hsteps n hn)
  refine bind_eq_ok.mpr ⟨v, p, hget, bind_eq_ok.mpr ⟨two n, (), hown, ?_⟩⟩
  refine bind_eq_ok.mpr ⟨two n, coefficient, Action.ofExcept_eq_ok.mpr ⟨rfl, hread⟩, ?_⟩
  refine bind_eq_ok.mpr ⟨{ two n with market := (w.market.split a coefficient).1 }, count, ?_, ?_⟩
  · rw [halone.market] at hcount ⊢
    exact Prod.ext rfl hcount
  · exact Action.modify_eq_ok.mpr (by rw [halone.fx])

theorem applyCorporateActions (day : MarketDay) :
    Parallel (Portfolio.applyCorporateActions day) := by
  refine bind (Parallel.forEach ?_ _) (Parallel.forEach ?_ _)
  · rintro ⟨a, bar⟩
    exact handleDividend day.date a _
  · rintro ⟨a, bar⟩
    exact handleSplit day.date a _

theorem allocateCapital (d : Date) : Parallel (Portfolio.allocateCapital d) := by
  intro p q one h hq
  obtain ⟨u, capital, hread, hrest⟩ := bind_eq_ok.mp hq
  obtain ⟨rfl, hallocate⟩ := Action.read_eq_ok.mp hread
  rw [h.selfFunded] at hallocate
  obtain ⟨worth, hworth, hcapital⟩ := Except.bind_eq_ok.mp hallocate
  obtain rfl := Except.pure_eq_ok.mp hcapital
  obtain ⟨hkeys, htotals⟩ := Allocator.values_eq_ok hworth
  have hnames : (worth.map fun w => (w.1, Allocator.inBase u.base w.2)).map Prod.fst =
      u.strategies.keys := by
    rw [List.map_map, ← hkeys]
    rfl
  have hown : ∀ e : String × BalanceSheet,
      IsOwn e.1 (onStrategy e.1 (Action.update (·.setTarget e.2))) :=
    fun e => ⟨fun hr => keeps_setTarget hr.path hr.target e.2, fun hR => hR.onStrategy _⟩
  obtain ⟨two, htwo, hstays, hsteps, -⟩ :=
    Together.forEach hown (hnames ▸ u.strategies.nodup)
      (fun e he => hnames ▸ List.mem_map_of_mem he) h hrest
  refine ⟨two, htwo, hstays, fun n hn => ?_⟩
  have halone := h.alone n hn
  rw [← hkeys] at hn
  obtain ⟨⟨n, x⟩, hw, rfl⟩ := List.mem_map.mp hn
  obtain ⟨s, hs, hx⟩ := htotals (n, x) hw
  obtain ⟨s', hs', hlist⟩ := halone.toList
  obtain rfl : s = s' := Option.some.inj (hs.symm.trans hs')
  rw [halone.base, halone.market, halone.fx] at hx
  have hstep := hsteps (n, Allocator.inBase u.base x) (List.mem_map.mpr ⟨(n, x), hw, rfl⟩)
  rw [halone.base] at hstep
  refine bind_eq_ok.mpr ⟨one n, [(n, Allocator.inBase (one n).base x)], ?_, ?_⟩
  · rw [Action.read_eq_ok, halone.selfFunded]
    exact ⟨rfl, Allocator.allocate_selfFunded hlist hx⟩
  · rw [Action.forEach_cons_eq_ok]
    exact ⟨two n, hstep, rfl⟩

theorem runStrategies (d : Date) : Parallel (do
    let p ← Action.get
    Action.forEach p.strategies.keys (Portfolio.runStrategy d)) :=
  of_own fun _ => ⟨fun hr => hr.runStrategy d, fun hR => hR.runStrategy d⟩

end Parallel

end Backtesting.Portfolio
