import Backtesting.Proofs.Chronicle
import Backtesting.Proofs.Portfolio.Setup
import Backtesting.Proofs.Snapshot.Image

/-!
Images restored. The books and rules of an image replace those of a portfolio of the same setup one
strategy after another, and the days of its series are in order, so they are appended to the empty
series as they stand.
-/
namespace Backtesting

open Backtesting.Action (forEach_cons_eq_ok forEach_nil_eq_ok)

/-- Days in ascending order can be appended one by one. -/
theorem Chronicle.forEach_put {ν β σ : Type} (e : Chronicle ν) (f : Date × ν → β)
    (write : Chronicle ν → σ) {g : β → Action σ Unit}
    (h : ∀ x ∈ e.days, ∀ c : Chronicle ν, c.later? x.1 = none →
      g (f x) (write c) = (write (c.put x.1 x.2), .ok ())) :
    Action.forEach (e.days.map f) g (write Chronicle.empty) = (write e, .ok ()) := by
  have hrest : ∀ (l : List (Date × ν)) (c : Chronicle ν), c.days ++ l = e.days →
      Action.forEach (l.map f) g (write c) = (write e, .ok ()) := by
    intro l
    induction l with
    | nil =>
      intro c hc
      obtain rfl : c = e := Chronicle.eq_of_days_eq (by simpa using hc)
      exact forEach_nil_eq_ok.mpr rfl
    | cons x l ih =>
      intro c hc
      have hascending := e.ascending
      rw [← hc, List.map_append, List.pairwise_append] at hascending
      have hlt : ∀ d ∈ c.dates, d < x.1 := fun d hd => hascending.2.2 d hd x.1 (by simp)
      have hx : x ∈ e.days := by
        rw [← hc]
        simp
      refine forEach_cons_eq_ok.mpr ⟨_, h x hx c (Chronicle.later?_eq_none hlt), ?_⟩
      apply ih
      rw [Chronicle.days_put_of_forall_lt x.2 hlt, List.append_assoc]
      exact hc
  exact hrest e.days Chronicle.empty rfl

namespace Snapshot

theorem insertDay_of_forall_lt {α : Type} {e : Date × α} {l : List (Date × α)}
    (h : ∀ x ∈ l, x.1 < e.1) : insertDay e l = l ++ [e] := by
  induction l with
  | nil => rfl
  | cons x l ih =>
    have hx : ¬e.1 < x.1 := fun hlt => Date.lt_irrefl x.1 (Date.lt_trans (h x (by simp)) hlt)
    simp [insertDay, hx, ih fun y hy => h y (by simp [hy])]

theorem byDate_of_ascending {α : Type} {l : List (Date × α)}
    (h : (l.map Prod.fst).Pairwise (· < ·)) : byDate l = l := by
  have hfold : ∀ done : List (Date × α), ((done ++ l).map Prod.fst).Pairwise (· < ·) →
      l.foldl (fun acc e => insertDay e acc) done = done ++ l := by
    clear h
    induction l with
    | nil => simp
    | cons e l ih =>
      intro done hdone
      have hlt : ∀ x ∈ done, x.1 < e.1 := by
        intro x hx
        rw [List.map_append, List.pairwise_append] at hdone
        exact hdone.2.2 x.1 (List.mem_map_of_mem hx) e.1 (by simp)
      rw [List.foldl_cons, insertDay_of_forall_lt hlt, ih (done ++ [e]) (by simpa using hdone)]
      simp
  simpa [byDate] using hfold [] (by simpa using h)

theorem read_balances (b : Balances) :
    (BalanceSheet.written ((StrategySnapshot.balances b).map fun (c, v) => (c, .known v))).read =
      .ok b := by
  have hentries : (b.toList.map fun e => (e.1.code, Amount.known e.2)).mapM
      BalanceSheet.readEntry = .ok b.toList := by
    apply Except.mapM_map_eq_ok
    rintro ⟨c, v⟩ -
    simp [BalanceSheet.readEntry, Currency.read_code, Amount.read]
  have hmap : ((StrategySnapshot.balances b).map fun (c, v) => (c, Amount.known v)) =
      b.toList.map fun e => (e.1.code, Amount.known e.2) := by
    simp [StrategySnapshot.balances, List.map_map, Function.comp_def]
  rw [hmap, BalanceSheet.read, hentries, Except.ok_bind, OrderedMap.ofList_toList]
  rfl

theorem mapM_toInt (l : List (Asset × Int)) :
    (l.map fun e => (e.1, Document.integer e.2)).mapM
      (fun (a, q) => do pure (a, ← Document.toInt q)) =
        (.ok l : Except Error (List (Asset × Int))) := by
  apply Except.mapM_map_eq_ok
  rintro ⟨a, q⟩ -
  rfl

theorem setPositions_integers (b : Book) (l : List (Asset × Int)) :
    b.setPositions (l.map fun (a, q) => (a, .integer q)) =
      .ok { b with positions := OrderedMap.ofList l } := by
  rw [Book.setPositions, mapM_toInt]
  rfl

/-- A book is replaced as a whole. -/
theorem restore_book (b b' : Book) :
    Book.restore (b'.positions.toList.map fun (a, q) => (a, .integer q))
      (.written ((StrategySnapshot.balances b'.cash).map fun (c, v) => (c, .known v)))
      (.written ((StrategySnapshot.balances b'.target).map fun (c, v) => (c, .known v))) b =
        (b', .ok ()) := by
  refine Action.bind_eq_ok.mpr ⟨{ b with positions := b'.positions }, (), ?_, ?_⟩
  · rw [Action.update_eq_ok, setPositions_integers, OrderedMap.ofList_toList]
  refine Action.bind_eq_ok.mpr ⟨{ b with positions := b'.positions, cash := b'.cash }, (), ?_, ?_⟩
  · rw [Action.update_eq_ok, Book.setCash, read_balances]
    rfl
  · rw [Action.update_eq_ok, Book.setTarget, read_balances]
    rfl

theorem restoreStrategy_image {q : Portfolio} {name : String} {s t : Strategy}
    (ht : q.strategies.get? name = some t) (hsetup : t.setup = s.setup) :
    restoreStrategy (StrategySnapshot.ofStrategy name s) q =
      ({ q with strategies := q.strategies.put name s }, .ok ()) := by
  have hbook := restore_book t.book s.book
  have hrule : t.rule.restoreState (.object s.rule.exportState.fields) = .ok s.rule :=
    Rule.restoreState_exportState (Strategy.unused_of_setup_eq hsetup)
  have hstrategy : (do
      Strategy.onBook (Book.restore (s.book.positions.toList.map fun (a, q) => (a, .integer q))
        (.written ((StrategySnapshot.balances s.book.cash).map fun (c, v) => (c, .known v)))
        (.written ((StrategySnapshot.balances s.book.target).map fun (c, v) => (c, .known v))))
      Action.update (·.restoreState (.object s.rule.exportState.fields)) : Action Strategy Unit) t =
        (s, .ok ()) := by
    refine Action.bind_eq_ok.mpr ⟨{ t with book := s.book }, (), ?_, ?_⟩
    · simp only [Strategy.onBook, hbook]
    · rw [Action.update_eq_ok, Strategy.restoreState, hrule, Except.ok_bind]
      exact congrArg Except.ok (Strategy.eq_of_setup_eq hsetup)
  simp only [restoreStrategy, Portfolio.onStrategy, StrategySnapshot.ofStrategy, ht, hstrategy]

/-- The strategies of a portfolio of the same setup are replaced by those of the image. -/
theorem forEach_restoreStrategy {p : Portfolio} {l : List (String × Strategy)}
    (hl : ∀ e ∈ l, e ∈ p.strategies.toList) {q : Portfolio} (hq : q.setup = p.setup) :
    Action.forEach (l.map fun (name, s) => StrategySnapshot.ofStrategy name s) restoreStrategy q =
      ({ q with strategies := q.strategies.putAll l }, .ok ()) := by
  induction l generalizing q with
  | nil => exact forEach_nil_eq_ok.mpr rfl
  | cons e l ih =>
    obtain ⟨name, s⟩ := e
    have hs : p.strategies.get? name = some s :=
      OrderedMap.get?_eq_some_iff.mpr (hl _ (by simp))
    obtain ⟨t, ht, hsetup⟩ := Portfolio.setup_of_get? hq.symm hs
    have hnext : { q with strategies := q.strategies.put name s }.setup = q.setup :=
      Portfolio.setup_put ht hsetup
    refine forEach_cons_eq_ok.mpr ⟨_, restoreStrategy_image ht hsetup.symm, ?_⟩
    rw [ih (fun e he => hl e (by simp [he])) (hnext.trans hq)]
    rfl

theorem restoreStrategies_image {p q : Portfolio} (h : q.setup = p.setup) :
    Action.forEach (imageOf p).strategies restoreStrategy q =
      ({ q with strategies := p.strategies }, .ok ()) := by
  rw [imageOf, forEach_restoreStrategy (fun _ => id) h,
    OrderedMap.putAll_toList (Portfolio.keys_of_setup_eq h)]

theorem mapM_ofQuote (bars : Bars) :
    (bars.toList.map fun (a, b) => (a, b.toQuote)).mapM
      (fun (a, q) => do pure (a, ← Bar.ofQuote q)) = .ok bars.toList := by
  apply Except.mapM_map_eq_ok
  rintro ⟨a, b⟩ -
  simp only [Bar.ofQuote_toQuote]
  rfl

theorem restoreMarket_image (q : Portfolio) (market : MarketHistory)
    (hq : q.market = MarketHistory.empty) :
    Action.forEach (byDate (market.bars.days.map fun (d, bars) =>
      (d, bars.toList.map fun (a, b) => (a, b.toQuote)))) restoreDay q =
        ({ q with market }, .ok ()) := by
  have hsorted := market.bars.ascending
  rw [byDate_of_ascending (by simpa [List.map_map, Function.comp_def] using hsorted)]
  have hput := Chronicle.forEach_put market.bars
    (fun e => (e.1, e.2.toList.map fun (a, b) => (a, b.toQuote)))
    (fun c => { q with market := ⟨c⟩ }) (g := restoreDay) ?_
  · have hstart : { q with market := ⟨Chronicle.empty⟩ } = q := by
      rw [← MarketHistory.empty, ← hq]
    rw [hstart] at hput
    exact hput
  · rintro ⟨d, bars⟩ - c hc
    rw [restoreDay, Action.update_eq_ok, mapM_ofQuote, Except.ok_bind, OrderedMap.ofList_toList]
    simp [MarketHistory.append, hc]

theorem restoreRates_image (q : Portfolio) (rates : Chronicle (OrderedMap Currency Decimal))
    (hq : q.fx.rates = Chronicle.empty)
    (hrates : ∀ e ∈ rates.days, ∀ c ∈ e.2.toList, c.2.isAtMost 0 = .ok false) :
    Action.forEach (byDate (rates.days.map fun (d, rates) =>
      (d, StrategySnapshot.balances rates))) restoreRates q =
        ({ q with fx := ⟨q.fx.base, rates⟩ }, .ok ()) := by
  have hsorted := rates.ascending
  rw [byDate_of_ascending (by simpa [List.map_map, Function.comp_def] using hsorted)]
  have hput := Chronicle.forEach_put rates (fun e => (e.1, StrategySnapshot.balances e.2))
    (fun c => { q with fx := ⟨q.fx.base, c⟩ }) (g := restoreRates) ?_
  · have hstart : { q with fx := ⟨q.fx.base, Chronicle.empty⟩ } = q := by
      rw [← hq]
    rw [hstart] at hput
    exact hput
  · rintro ⟨d, day⟩ hday c hc
    have hread : ((StrategySnapshot.balances day).map fun (c, r) => (c, Amount.known r)).mapM
        (FxHistory.readRate d) = .ok day.toList := by
      rw [StrategySnapshot.balances, List.map_map]
      apply Except.mapM_map_eq_ok
      rintro ⟨currency, rate⟩ hrate
      simp [FxHistory.readRate, Amount.read, hrates _ hday _ hrate, Currency.ofCode_code]
    simp only [restoreRates, Action.update_eq_ok, FxHistory.append, hc, hread, Except.ok_bind,
      OrderedMap.ofList_toList]
    rfl

theorem restoreEquity_image (q : Portfolio) (equity : EquityCurve)
    (hq : q.equity = EquityCurve.empty) :
    Action.forEach (byDate equity.points) restoreEquity q = ({ q with equity }, .ok ()) := by
  have hdays : byDate equity.points = equity.values.days :=
    byDate_of_ascending equity.values.ascending
  have hput := Chronicle.forEach_put equity.values id (fun c => { q with equity := ⟨c⟩ })
    (g := restoreEquity) ?_
  · have hstart : { q with equity := ⟨Chronicle.empty⟩ } = q := by
      rw [← EquityCurve.empty, ← hq]
    rw [hstart, List.map_id] at hput
    rwa [hdays]
  · rintro ⟨d, value⟩ - c hc
    rw [restoreEquity, Action.update_eq_ok]
    simp [EquityCurve.record, hc, Amount.read]

/-- What is looked at before anything is written. -/
theorem restorable_eq_ok {s : Snapshot} {p : Portfolio} : s.restorable p = .ok () ↔
    s.base = p.base.code ∧ p.market.size = 0 ∧ p.equity.size = 0 ∧
      ∀ n ∈ p.strategies.keys, n ∈ s.strategies.map (·.name) := by
  unfold restorable
  by_cases hbase : s.base = p.base.code
  swap
  · rw [if_pos hbase]
    exact ⟨nofun, fun h => absurd h.1 hbase⟩
  by_cases hfresh : p.market.size ≠ 0 ∨ p.equity.size ≠ 0
  · rw [if_neg (not_not_intro hbase), if_pos hfresh]
    exact ⟨nofun, fun h => by omega⟩
  rw [if_neg (not_not_intro hbase), if_neg hfresh]
  cases hfind : p.strategies.keys.find? fun n => !(s.strategies.map (·.name)).contains n with
  | some n =>
    have hmissing := List.find?_some hfind
    refine ⟨nofun, fun h => ?_⟩
    have hnamed := h.2.2.2 n (List.mem_of_find?_eq_some hfind)
    simp [hnamed] at hmissing
  | none =>
    refine ⟨fun _ => ⟨hbase, by omega, by omega, fun n hn => ?_⟩, fun _ => rfl⟩
    simpa using List.find?_eq_none.mp hfind n hn

/-- An image restored into a portfolio of the same setup that has no history. Only the journal of
that portfolio goes on. -/
theorem restore_imageOf {p fresh : Portfolio} (hsetup : fresh.setup = p.setup)
    (hrates : p.fx.HasPositiveRates) (hmarket : fresh.market = MarketHistory.empty)
    (hfx : fresh.fx.rates = Chronicle.empty) (hequity : fresh.equity = EquityCurve.empty) :
    ∃ journal, (imageOf p).restore fresh = ({ fresh with
      strategies := p.strategies
      market := p.market
      fx := p.fx
      equity := p.equity
      journal }, .ok ()) := by
  obtain ⟨-, hbase, -, -, -, hfxbase, -⟩ := Portfolio.config_of_setup_eq hsetup
  have hnames : (imageOf p).strategies.map (·.name) = fresh.strategies.keys := by
    rw [Portfolio.keys_of_setup_eq hsetup]
    simp [imageOf, StrategySnapshot.ofStrategy, OrderedMap.keys, List.map_map, Function.comp_def]
  have hrestorable : (imageOf p).restorable fresh = .ok () := by
    refine restorable_eq_ok.mpr ⟨?_, ?_, ?_, fun n hn => hnames ▸ hn⟩
    · rw [hbase]
      rfl
    · rw [hmarket]
      rfl
    · rw [hequity]
      rfl
  have hread : Action.read (imageOf p).restorable fresh = (fresh, .ok ()) :=
    Action.read_eq_ok.mpr ⟨rfl, hrestorable⟩
  have hstrategies := restoreStrategies_image hsetup
  have hbars : Action.forEach (byDate (imageOf p).market) restoreDay
      { fresh with strategies := p.strategies } =
        ({ fresh with strategies := p.strategies, market := p.market }, .ok ()) :=
    restoreMarket_image _ p.market hmarket
  have hdays : Action.forEach (byDate (imageOf p).rates) restoreRates
      { fresh with strategies := p.strategies, market := p.market } =
        ({ fresh with strategies := p.strategies, market := p.market, fx := p.fx }, .ok ()) := by
    have hsame : (⟨fresh.fx.base, p.fx.rates⟩ : FxHistory) = p.fx := by
      rw [hfxbase]
    rw [← hsame]
    exact restoreRates_image _ p.fx.rates hfx hrates
  have hpoints : Action.forEach (byDate (imageOf p).equity) restoreEquity
      { fresh with strategies := p.strategies, market := p.market, fx := p.fx } =
        ({ fresh with
          strategies := p.strategies, market := p.market, fx := p.fx, equity := p.equity },
          .ok ()) := restoreEquity_image _ p.equity hequity
  rw [restore, Action.bind_ok hread, Action.bind_ok hstrategies, Action.bind_ok hbars,
    Action.bind_ok hdays, Action.bind_ok hpoints]
  exact ⟨_, rfl⟩

end Snapshot
end Backtesting
