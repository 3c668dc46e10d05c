import Backtesting.Proofs.Chronicle
import Backtesting.Proofs.Snapshot.Text
import Backtesting.Proofs.Strategy.Setup

/-!
The image of a portfolio. When every decimal in the books, the equity curve and the histories can be
written, the portfolio can be captured and its image is sound: the maps and series it is made of
have no key twice.
-/
namespace Backtesting

/-- All decimals of the books, the equity curve and the histories can be written. -/
structure Portfolio.IsWritable (p : Portfolio) : Prop where
  cash : ∀ s ∈ p.strategies.toList, ∀ e ∈ s.2.book.cash.toList, e.2.IsWritable
  target : ∀ s ∈ p.strategies.toList, ∀ e ∈ s.2.book.target.toList, e.2.IsWritable
  equity : ∀ e ∈ p.equity.points, e.2.IsWritable
  bars : ∀ day ∈ p.market.bars.days, ∀ b ∈ day.2.toList, b.2.toQuote.IsWritable
  rates : ∀ day ∈ p.fx.rates.days, ∀ e ∈ day.2.toList, e.2.IsWritable

theorem Portfolio.isWritable_iff {p : Portfolio} : p.IsWritable ↔
    (∀ s ∈ p.strategies.toList, ∀ e ∈ s.2.book.cash.toList, e.2.IsWritable) ∧
    (∀ s ∈ p.strategies.toList, ∀ e ∈ s.2.book.target.toList, e.2.IsWritable) ∧
    (∀ e ∈ p.equity.points, e.2.IsWritable) ∧
    (∀ day ∈ p.market.bars.days, ∀ b ∈ day.2.toList, b.2.toQuote.IsWritable) ∧
    ∀ day ∈ p.fx.rates.days, ∀ e ∈ day.2.toList, e.2.IsWritable :=
  ⟨fun h => ⟨h.cash, h.target, h.equity, h.bars, h.rates⟩, fun h => ⟨h.1, h.2.1, h.2.2.1,
    h.2.2.2.1, h.2.2.2.2⟩⟩

instance (p : Portfolio) : Decidable p.IsWritable :=
  decidable_of_iff _ Portfolio.isWritable_iff.symm

namespace StrategySnapshot

theorem isSoundTable_balances {b : Balances} (h : ∀ e ∈ b.toList, e.2.IsWritable) :
    IsSoundTable (balances b) := by
  constructor
  · have hkeys : (balances b).map Prod.fst = b.keys.map Currency.code := by
      simp [balances, OrderedMap.keys, List.map_map, Function.comp_def]
    rw [hkeys]
    exact b.nodup.map fun _ _ => Currency.code_inj.mp
  · intro e he
    obtain ⟨c, hc, rfl⟩ := List.mem_map.mp he
    exact h c hc

theorem isSound_ofStrategy {name : String} {s : Strategy}
    (hcash : ∀ e ∈ s.book.cash.toList, e.2.IsWritable)
    (htarget : ∀ e ∈ s.book.target.toList, e.2.IsWritable) : (ofStrategy name s).IsSound where
  positions := s.book.positions.nodup
  cash := isSoundTable_balances hcash
  target := isSoundTable_balances htarget
  state := Rule.nodup_exportState s.rule
  plain f hf := by
    rcases Rule.isPlain_exportState s.rule f hf with h | ⟨d, h⟩
    · rw [h, Document.IsPlain]
      trivial
    · rw [h]
      exact Document.isPlain_text _

end StrategySnapshot

namespace Snapshot

variable {p : Portfolio}

theorem isSound_imageOf (h : p.IsWritable) : (imageOf p).IsSound where
  strategies t ht := by
    obtain ⟨⟨name, s⟩, hs, rfl⟩ := List.mem_map.mp ht
    exact StrategySnapshot.isSound_ofStrategy (h.cash _ hs) (h.target _ hs)
  equity := ⟨Date.nodup_of_ascending p.equity.values.ascending, h.equity⟩
  marketDays := by
    have hkeys : (imageOf p).market.map Prod.fst = p.market.bars.dates := by
      simp [imageOf, Chronicle.dates, List.map_map, Function.comp_def]
    rw [hkeys]
    exact Date.nodup_of_ascending p.market.bars.ascending
  assets e he := by
    obtain ⟨⟨d, bars⟩, -, rfl⟩ := List.mem_map.mp he
    simpa [List.map_map, Function.comp_def] using bars.nodup
  quotes e he b hb := by
    obtain ⟨⟨d, bars⟩, hday, rfl⟩ := List.mem_map.mp he
    obtain ⟨⟨a, bar⟩, hbar, rfl⟩ := List.mem_map.mp hb
    exact h.bars _ hday _ hbar
  rateDays := by
    have hkeys : (imageOf p).rates.map Prod.fst = p.fx.rates.dates := by
      simp [imageOf, Chronicle.dates, List.map_map, Function.comp_def]
    rw [hkeys]
    exact Date.nodup_of_ascending p.fx.rates.ascending
  rates e he := by
    obtain ⟨⟨d, rates⟩, hday, rfl⟩ := List.mem_map.mp he
    exact StrategySnapshot.isSoundTable_balances (h.rates _ hday)

theorem faultsOf_eq_nil {ds : List (String × Decimal)} (h : ∀ e ∈ ds, e.2.IsFinite)
    (at_ : List String) : faultsOf at_ ds = [] := by
  have hfilter : ds.filter (fun e => !(e.2.IsFinite : Bool)) = [] := by
    rw [List.filter_eq_nil_iff]
    intro e he
    simp [h e he]
  rw [faultsOf, hfilter]
  rfl

theorem quoteFaults_eq_nil {q : Quote} (h : q.IsWritable) : quoteFaults q = [] := by
  obtain ⟨hopening, hhigh, hlow, hclose, hadjusted, hdividend, hsplit⟩ := h
  apply faultsOf_eq_nil
  simp [hopening.isFinite, hhigh.isFinite, hlow.isFinite, hclose.isFinite, hadjusted.isFinite,
    hdividend.isFinite, hsplit.isFinite]

theorem IsSound.finite_equity {s : Snapshot} (h : s.IsSound) :
    ∀ e ∈ s.equity.map (fun (d, v) => (d.toText, v)), e.2.IsFinite := by
  intro e he
  obtain ⟨x, hx, rfl⟩ := List.mem_map.mp he
  exact IsSoundTable.finite h.equity x hx

theorem faults_eq_nil {s : Snapshot} (h : s.IsSound) : s.faults = [] := by
  have hstrategies : ∀ t ∈ s.strategies, strategyFaults t = [] := by
    intro t ht
    rw [strategyFaults, faultsOf_eq_nil (IsSoundTable.finite (h.strategies t ht).cash),
      faultsOf_eq_nil (IsSoundTable.finite (h.strategies t ht).target)]
    rfl
  have hquotes : ∀ e ∈ s.market, ∀ b ∈ e.2, quoteFaults b.2 = [] :=
    fun e he b hb => quoteFaults_eq_nil (h.quotes e he b hb)
  have hseries : seriesFaults s = [] := by
    rw [seriesFaults, faultsOf_eq_nil h.finite_equity, List.nil_append, List.flatMap_eq_nil_iff]
    intro e he
    exact faultsOf_eq_nil (IsSoundTable.finite (h.rates e he)) _
  have hnone : (s.strategies.map strategyFaults ++
      (s.market.flatMap fun e => e.2.map fun b => quoteFaults b.2) ++ [seriesFaults s]).find?
        (fun fs => !fs.isEmpty) = none := by
    rw [List.find?_eq_none]
    intro fs hfs
    simp only [List.mem_append, List.mem_map, List.mem_flatMap, List.mem_singleton] at hfs
    rcases hfs with (⟨t, ht, rfl⟩ | ⟨e, he, b, hb, rfl⟩) | rfl
    · simp [hstrategies t ht]
    · simp [hquotes e he b hb]
    · simp [hseries]
  simp only [faults, hnone, Option.getD_none]

/-- A portfolio of decimals that can be written is captured, and its text is read back. -/
theorem capture_eq_ok (h : p.IsWritable) :
    capture p = .ok (imageOf p) ∧ ofJson (imageOf p).toJson = .ok (imageOf p) := by
  refine ⟨?_, ofJson_toJson (isSound_imageOf h)⟩
  simp only [capture, faults_eq_nil (isSound_imageOf h)]
  rfl

end Snapshot
end Backtesting
