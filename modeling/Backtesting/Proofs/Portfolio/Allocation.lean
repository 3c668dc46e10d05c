import Backtesting.Proofs.Decimal.Total
import Backtesting.Proofs.Portfolio.Setup
import Backtesting.Proofs.Strategy.Value
import Mathlib.Algebra.BigOperators.Group.List.Lemmas

/-!
What is handed out and what there is. An allocation divides the total value of the strategies, which
is a rounded sum, into what the strategies are worth or into shares, which are rounded quotients. So
the amounts add up to the total where nothing is rounded, and else to some more or some less.
-/
namespace Backtesting

namespace Allocator

variable {strategies : Strategies} {d : Date} {base : Currency} {market : MarketHistory}
  {fx : FxHistory} {total : Decimal}

/-- Each strategy gets one of the amounts, in the order of the portfolio and in the base currency. -/
def HandsOut (a : Allocator) (strategies : Strategies) (d : Date) (base : Currency)
    (market : MarketHistory) (fx : FxHistory) (amounts : List Decimal) : Prop :=
  amounts.length = strategies.size ∧ a.allocate strategies d base market fx =
    .ok (strategies.keys.zip (amounts.map (inBase base)))

theorem values_of_forall₂ {worth : List Decimal}
    (h : List.Forall₂ (fun e x => e.2.totalValue d base market fx = .ok x) strategies.toList worth) :
    values strategies d base market fx = .ok (strategies.keys.zip worth) := by
  unfold values OrderedMap.keys
  apply Except.mapM_eq_ok.mpr
  generalize strategies.toList = l at h ⊢
  induction h with
  | nil => exact .nil
  | cons hx _ ih => exact .cons (by simp [hx]) ih

theorem isResult_of_worth {l : List (String × Strategy)} {worth : List Decimal}
    (h : List.Forall₂ (fun e x => e.2.totalValue d base market fx = .ok x) l worth) :
    ∀ x ∈ worth, x.IsResult := by
  induction h with
  | nil => simp
  | cons hx _ ih => exact List.forall_mem_cons.mpr ⟨Book.isResult_totalValue hx, ih⟩

/-- Strategies that fund themselves get what they are worth, which is what the total is summed up
of. -/
theorem handsOut_selfFunded {worth : List Decimal}
    (h : List.Forall₂ (fun e x => e.2.totalValue d base market fx = .ok x) strategies.toList worth) :
    selfFunded.HandsOut strategies d base market fx worth := by
  refine ⟨h.length_eq.symm, ?_⟩
  unfold allocate
  rw [values_of_forall₂ h]
  simp [List.zip_map_right]

theorem handsOut_equalWeight {share : Decimal} (hne : strategies.toList ≠ [])
    (h : strategies.totalValue d base market fx = .ok total)
    (hshare : total.div (Decimal.ofInt strategies.size) = .ok share) :
    equalWeight.HandsOut strategies d base market fx (List.replicate strategies.size share) := by
  have hsome : strategies.isEmpty = false := by
    unfold OrderedMap.isEmpty
    simpa using hne
  have hzip : strategies.keys.zip (List.replicate strategies.size (inBase base share)) =
      strategies.keys.map (·, inBase base share) := by
    have hsize : strategies.size = strategies.keys.length := by
      simp [OrderedMap.size, OrderedMap.keys]
    rw [hsize]
    generalize strategies.keys = names
    induction names with
    | nil => rfl
    | cons n l ih => rw [List.length_cons, List.replicate_succ, List.zip_cons_cons, ih, List.map_cons]
  refine ⟨List.length_replicate, ?_⟩
  unfold allocate
  rw [List.map_replicate, hzip, hsome, h]
  simp only [Bool.false_eq_true, if_false, Except.ok_bind, hshare, Decimal.lift_ok]
  rfl

end Allocator

/-- A share of a number that is not finite is that number. -/
theorem Decimal.div_of_not_isFinite {a : Decimal} (ha : ¬ a.IsFinite) (hresult : a.IsResult)
    (n : Nat) : a.div (ofInt n) = .ok a := by
  cases a with
  | finite s c e => exact absurd trivial ha
  | infinity s =>
    have hnat : ¬ (n : Int) < 0 := by omega
    have hsign : (s != decide ((n : Int) < 0)) = s := by simp [hnat]
    have hdiv : (infinity s).div (ofInt n) = .ok (infinity (s != decide ((n : Int) < 0))) := rfl
    rw [hdiv, hsign]
  | nan s signaling p =>
    obtain ⟨rfl, hp⟩ := hresult
    have hdiv : (nan s false p).div (ofInt n) = .ok (nan s false (p % tenTo precision)) := rfl
    rw [hdiv, Nat.mod_eq_of_lt hp]

/-- An even share of a result can be had, and as many shares as there are come near to the whole. -/
theorem Decimal.exists_share {a : Decimal} {n : Nat} (hn : 0 < n) (ha : a.IsFinite)
    (hresult : a.IsResult) : ∃ share, a.div (ofInt n) = .ok share ∧ share.IsFinite ∧
      (|n * share.value - a.value| ≤ halfUnit * |a.value| ∨ |a.value| < n * 10 ^ (-999999 : ℤ)) ∧
      (Fits (a.value / n) → n * share.value = a.value) := by
  have hcount : (1 : ℚ) ≤ n := by exact_mod_cast hn
  have hpos : (0 : ℚ) < n := by linarith
  have hvalue : (ofInt n).value = n := by simp [value_ofInt]
  have hne : (ofInt n).value ≠ 0 := by
    rw [hvalue]
    exact hpos.ne'
  have hsmaller : |a.value / (ofInt n).value| ≤ |a.value| := by
    rw [hvalue, abs_div, abs_of_pos hpos]
    exact div_le_self (abs_nonneg _) hcount
  obtain ⟨share, hshare⟩ := exists_div ha hne (hsmaller.trans hresult.abs_le_largest)
  obtain ⟨hfinite, hnear⟩ := near_div ha hne hshare
  have hexact (hfits : Fits (a.value / (ofInt n).value)) := value_div_of_fits ha hne hfits hshare
  rw [hvalue] at hnear hexact
  refine ⟨share, hshare, hfinite, ?_, fun hfits => ?_⟩
  · rcases hnear with hclose | hunder
    · left
      have hsplit : n * share.value - a.value = n * (share.value - a.value / n) := by field_simp
      rw [abs_div, abs_of_pos hpos] at hclose
      rw [hsplit, abs_mul, abs_of_pos hpos]
      calc (n : ℚ) * |share.value - a.value / n|
          ≤ n * (halfUnit * (|a.value| / n)) := by gcongr
        _ = halfUnit * |a.value| := by field_simp
    · right
      have hsmall := hunder.2
      rw [abs_div, abs_of_pos hpos, div_lt_iff₀ hpos] at hsmall
      linarith
  · rw [hexact hfits]
    field_simp

namespace Allocator

variable {strategies : Strategies} {d : Date} {base : Currency} {market : MarketHistory}
  {fx : FxHistory} {total : Decimal}

/-- With strategies that can be valued, both allocations hand out amounts of the base currency. The
amounts of strategies that fund themselves sum up to the total, but their exact sum can be off by
half a unit for every sum after the first one, to either side; equal shares can be off by half a unit
of the total, to either side. Where 28 digits are enough, nothing is off. -/
theorem allocated_near_total (hne : strategies.toList ≠ [])
    (h : strategies.totalValue d base market fx = .ok total) :
    (∃ worth, selfFunded.HandsOut strategies d base market fx worth ∧
      List.Forall₂ (fun e x => e.2.totalValue d base market fx = .ok x) strategies.toList worth ∧
      Decimal.sum worth = .ok total ∧
      (total.IsFinite → (∀ x ∈ worth, x.IsFinite) ∧
        |(worth.map Decimal.value).sum - total.value| ≤
          ((1 + Decimal.halfUnit) ^ (strategies.size - 1) - 1) *
            (worth.map fun x => |x.value|).sum ∧
        ((∀ k, Decimal.Fits ((worth.take k).map Decimal.value).sum) →
          (worth.map Decimal.value).sum = total.value))) ∧
    ∃ share, equalWeight.HandsOut strategies d base market fx
        (List.replicate strategies.size share) ∧
      (total.IsFinite → share.IsFinite ∧
        (|strategies.size * share.value - total.value| ≤ Decimal.halfUnit * |total.value| ∨
          |total.value| < strategies.size * 10 ^ (-999999 : ℤ)) ∧
        (Decimal.Fits (total.value / strategies.size) →
          strategies.size * share.value = total.value)) ∧
      (¬ total.IsFinite → share = total) := by
  obtain ⟨worth, hworth, hsum⟩ := Strategies.totalValue_eq_ok.mp h
  constructor
  · refine ⟨worth, handsOut_selfFunded hworth, hworth, hsum, fun hfinite => ⟨?_, ?_, ?_⟩⟩
    · exact (Decimal.isFinite_of_foldlM_add hsum hfinite).2
    · have hlength : strategies.size = worth.length := hworth.length_eq
      rw [abs_sub_comm, hlength]
      exact Decimal.abs_sum_sub_le (isResult_of_worth hworth) hsum hfinite
    · intro hfits
      exact (Decimal.value_sum_of_fits hfits hsum hfinite).symm
  · have hresult : total.IsResult := Decimal.isResult_sum hsum
    by_cases hfinite : total.IsFinite
    · obtain ⟨share, hshare, hnear⟩ :=
        Decimal.exists_share (List.length_pos_of_ne_nil hne) hfinite hresult
      exact ⟨share, handsOut_equalWeight hne h hshare, fun _ => hnear, fun hnot => absurd hfinite hnot⟩
    · have hshare := Decimal.div_of_not_isFinite hfinite hresult strategies.size
      exact ⟨total, handsOut_equalWeight hne h hshare, fun hyes => absurd hyes hfinite, fun _ => rfl⟩

/-- Strategies that have nothing but dollars. -/
def moneyed (cash : List (String × Decimal)) : Strategies :=
  OrderedMap.ofList (cash.map fun (n, x) =>
    (n, { Strategy.holder n with book := Book.start (OrderedMap.ofList [(.usd, x)]) }))

/-- Two dollars among three: each third is rounded up, and the three make more than two dollars. -/
theorem equalWeight_overspends :
    let strategies := moneyed [("A", 1), ("B", 1), ("C", 0)]
    let day : Date := ⟨2024, 1, 2, by decide, by decide, by decide⟩
    let share : Decimal := .finite false 6666666666666666666666666667 (-28)
    strategies.totalValue day .usd MarketHistory.empty (FxHistory.empty .usd) = .ok 2 ∧
      equalWeight.HandsOut strategies day .usd MarketHistory.empty (FxHistory.empty .usd)
        (List.replicate 3 share) ∧
      (2 : Decimal).value < ((List.replicate 3 share).map Decimal.value).sum := by
  intro strategies day share
  have hne : strategies.toList ≠ [] := by decide
  have htotal :
      strategies.totalValue day .usd MarketHistory.empty (FxHistory.empty .usd) = .ok 2 := rfl
  have hshare : (2 : Decimal).div (Decimal.ofInt 3) = .ok share := by decide +kernel
  refine ⟨htotal, handsOut_equalWeight hne htotal hshare, ?_⟩
  have htwo : (2 : Decimal).value = 2 := Decimal.value_ofInt 2
  have hthird : share.value = 6666666666666666666666666667 / 10 ^ 28 := by
    norm_num [share, Decimal.value, Decimal.signed]
  rw [htwo, List.map_replicate, List.sum_replicate, hthird]
  norm_num

theorem allocated_near_total_thirds :
    let strategies := moneyed [("A", 1), ("B", 1), ("C", 0)]
    let day : Date := ⟨2024, 1, 2, by decide, by decide, by decide⟩
    strategies.toList ≠ [] ∧
      strategies.totalValue day .usd MarketHistory.empty (FxHistory.empty .usd) = .ok 2 ∧
      (∃ worth, selfFunded.HandsOut strategies day .usd MarketHistory.empty (FxHistory.empty .usd)
        worth ∧ Decimal.sum worth = .ok 2) ∧
      ∃ share, equalWeight.HandsOut strategies day .usd MarketHistory.empty (FxHistory.empty .usd)
        (List.replicate 3 share) ∧ share.IsFinite := by
  intro strategies day
  have hne : strategies.toList ≠ [] := by decide
  have htotal :
      strategies.totalValue day .usd MarketHistory.empty (FxHistory.empty .usd) = .ok 2 := rfl
  obtain ⟨⟨worth, hworth, -, hsum, -⟩, share, hshare, hnear, -⟩ := allocated_near_total hne htotal
  exact ⟨hne, htotal, ⟨worth, hworth, hsum⟩, share, hshare, (hnear trivial).1⟩

end Allocator
end Backtesting
