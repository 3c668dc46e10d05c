import Backtesting.Proofs.Portfolio.Built
import Backtesting.Proofs.Portfolio.Reached
import Backtesting.Proofs.Portfolio.Worth
import Mathlib.Algebra.BigOperators.Ring.List

/-!
A portfolio is worth what one book would be that held the positions and the cash of all its strategies
together. Each strategy is valued by its own listings; the portfolio was built only if they agree.
-/
namespace Backtesting

namespace OrderedMap

variable {κ ν : Type} [DecidableEq κ]

/-- Entries that are added to those of a map add to a sum over the map what they are worth. -/
theorem sum_accumulate (l : List (κ × Int)) (m : OrderedMap κ Int) (f : κ → ℚ) :
    ((l.foldl (fun m e => m.put e.1 (m.getD e.1 0 + e.2)) m).toList.map
        fun e => (e.2 : ℚ) * f e.1).sum =
      (m.toList.map fun e => (e.2 : ℚ) * f e.1).sum + (l.map fun e => (e.2 : ℚ) * f e.1).sum := by
  induction l generalizing m with
  | nil => simp
  | cons e l ih =>
    have hput := sum_put m e.1 (m.getD e.1 0 + e.2) fun k v => (v : ℚ) * f k
    have hold : ((m.get? e.1).map fun v : Int => (v : ℚ) * f e.1).getD 0 =
        m.getD e.1 0 * f e.1 := by
      rw [getD]
      cases m.get? e.1 with
      | none => simp
      | some v => simp
    rw [List.foldl_cons, ih, hput, hold, List.map_cons, List.sum_cons]
    push_cast
    ring

/-- What is not zero in the end was not zero before, or something was added to it. -/
theorem ne_zero_of_accumulate {l : List (κ × Int)} {m : OrderedMap κ Int} {k : κ}
    (h : (l.foldl (fun m e => m.put e.1 (m.getD e.1 0 + e.2)) m).getD k 0 ≠ 0) :
    m.getD k 0 ≠ 0 ∨ ∃ e ∈ l, e.1 = k ∧ e.2 ≠ 0 := by
  induction l generalizing m with
  | nil => exact Or.inl h
  | cons e l ih =>
    rcases ih h with hput | ⟨e', he', hne⟩
    · rw [getD_put] at hput
      by_cases hk : k = e.1 ∧ e.2 ≠ 0
      · exact Or.inr ⟨e, List.mem_cons_self, hk.1.symm, hk.2⟩
      · left
        split at hput
        · next hsame =>
          have hnothing : e.2 = 0 := by
            by_contra hne
            exact hk ⟨hsame, hne⟩
          rwa [hnothing, add_zero, ← hsame] at hput
        · exact hput
    · exact Or.inr ⟨e', List.mem_cons_of_mem e he', hne⟩

/-- Keys without an entry add nothing to a sum over a map. -/
theorem sum_of_subset {ks : List κ} (hks : ks.Nodup) (m : OrderedMap κ ν) (h : ∀ k ∈ m.keys, k ∈ ks)
    (f : κ → ν → ℚ) :
    (m.toList.map fun e => f e.1 e.2).sum = (ks.map fun k => ((m.get? k).map (f k)).getD 0).sum := by
  have hkeys : m.keys.Nodup := m.nodup
  rw [sum_toList, ← List.sum_toFinset _ hkeys, ← List.sum_toFinset _ hks]
  apply Finset.sum_subset
  · intro k hk
    exact List.mem_toFinset.mpr (h k (List.mem_toFinset.mp hk))
  · intro k _ hk
    have hnone : m.get? k = none := get?_eq_none_iff.mpr fun hmem => hk (List.mem_toFinset.mpr hmem)
    rw [hnone]
    rfl

end OrderedMap

theorem Currency.nodup_all : Currency.all.Nodup := by decide

namespace Book

variable {b : Book} {l l' : Listings} {d : Date} {base : Currency} {market : MarketHistory}
  {fx : FxHistory} {x : Decimal}

/-- Cash by currency, whether there is a balance or not. -/
theorem sum_cash (b : Book) (f : Currency → ℚ) :
    (b.cash.toList.map fun e => e.2.value * f e.1).sum =
      (Currency.all.map fun c => (b.balance c).value * f c).sum := by
  rw [OrderedMap.sum_of_subset Currency.nodup_all b.cash (fun c _ => Currency.mem_all c)
    fun c v => v.value * f c]
  congr 1
  apply List.map_congr_left
  intro c _
  rw [balance, OrderedMap.getD]
  cases b.cash.get? c with
  | none =>
    have hzero : (0 : Decimal).value = 0 := Decimal.value_zero
    simp [hzero]
  | some v => rfl

/-- A book that can be valued is worth the same by listings that know all it lists. -/
theorem worth_of_listings (hbase : fx.base = base) (hx : b.totalValue l d base market fx = .ok x)
    (hlisted : ∀ a c, l.get? a = some c → l'.get? a = some c) :
    b.worth l d market fx = b.worth l' d market fx := by
  unfold worth
  congr 2
  apply List.map_congr_left
  intro e he
  by_cases hheld : e.2 = 0
  · simp [hheld]
  have hposition : b.position e.1 = e.2 := by
    rw [position, OrderedMap.getD, OrderedMap.get?_eq_some_iff.mpr he]
    rfl
  obtain ⟨c, bar, r, hc, -⟩ := listed_of_position_ne_zero hbase hx (by rwa [hposition])
  rw [unitWorth, unitWorth, Listings.rateOn, Listings.rateOn, hc, hlisted e.1 c hc]

end Book

namespace Portfolio

variable {d : Date} {p fresh : Portfolio} {x : Decimal}

/-- What all strategies together have in a currency. -/
def cashIn (p : Portfolio) (c : Currency) : ℚ :=
  (p.strategies.values.map fun s => (s.book.balance c).value).sum

/-- The worth of the one book that holds what all strategies hold. -/
def nettedWorth (p : Portfolio) (d : Date) : ℚ :=
  (p.positions.toList.map fun e =>
      (e.2 : ℚ) * Book.unitWorth p.listings d p.market p.fx e.1).sum +
    (Currency.all.map fun c => p.cashIn c * p.fx.rateOn d c).sum

theorem sum_positions (p : Portfolio) (f : Asset → ℚ) :
    (p.positions.toList.map fun e => (e.2 : ℚ) * f e.1).sum =
      (p.strategies.values.map fun s =>
        (s.book.positions.toList.map fun e => (e.2 : ℚ) * f e.1).sum).sum := by
  unfold positions
  rw [OrderedMap.sum_accumulate, List.map_flatMap, List.flatMap, List.sum_flatten, List.map_map]
  simp [OrderedMap.empty, Function.comp_def]

theorem sum_cashIn (p : Portfolio) (f : Currency → ℚ) :
    (Currency.all.map fun c => p.cashIn c * f c).sum =
      (p.strategies.values.map fun s =>
        (s.book.cash.toList.map fun e => e.2.value * f e.1).sum).sum := by
  simp only [cashIn, Book.sum_cash, ← List.sum_map_mul_right]
  have hswap := Multiset.sum_map_sum_map (Currency.all : Multiset Currency)
    (p.strategies.values : Multiset Strategy) (f := fun c s => (s.book.balance c).value * f c)
  simpa only [Multiset.map_coe, Multiset.sum_coe] using hswap

/-- An asset that is held net is held by some strategy. -/
theorem exists_position_ne_zero {a : Asset} {k : Int} (ha : p.positions.get? a = some k)
    (hk : k ≠ 0) : ∃ n s, p.strategies.get? n = some s ∧ s.book.position a ≠ 0 := by
  have hnet : p.positions.getD a 0 ≠ 0 := by
    rw [OrderedMap.getD, ha]
    exact hk
  obtain hempty | ⟨e, he, rfl, hne⟩ := OrderedMap.ne_zero_of_accumulate hnet
  · exact absurd rfl hempty
  obtain ⟨s, hs, he⟩ := List.mem_flatMap.mp he
  obtain ⟨⟨n, s'⟩, hmem, rfl⟩ := List.mem_map.mp hs
  refine ⟨n, s', OrderedMap.get?_eq_some_iff.mpr hmem, ?_⟩
  rw [Book.position, OrderedMap.getD, OrderedMap.get?_eq_some_iff.mpr he]
  exact hne

/-- A currency that there is cash in is one that some strategy has cash in. -/
theorem exists_balance_ne_zero {c : Currency} (hc : p.cashIn c ≠ 0) :
    ∃ n s, p.strategies.get? n = some s ∧ (s.book.balance c).value ≠ 0 := by
  by_contra hnone
  apply hc
  apply List.sum_eq_zero
  intro v hv
  obtain ⟨s, hs, rfl⟩ := List.mem_map.mp hv
  obtain ⟨⟨n, s'⟩, hmem, rfl⟩ := List.mem_map.mp hs
  by_contra hne
  exact hnone ⟨n, s', OrderedMap.get?_eq_some_iff.mpr hmem, hne⟩

/-- Where the listings of the strategies agree, the portfolio is worth what the netted book is. -/
theorem worth_eq_nettedWorth (hbase : p.fx.base = p.base) (hx : p.totalValue d = .ok x)
    (hlisted : ∀ n s, p.strategies.get? n = some s →
      ∀ a c, s.assets.get? a = some c → p.listings.get? a = some c) :
    p.worth d = p.nettedWorth d := by
  have hstrategies : p.worth d =
      (p.strategies.values.map fun s => s.book.worth p.listings d p.market p.fx).sum := by
    unfold worth
    congr 1
    apply List.map_congr_left
    intro s hs
    obtain ⟨⟨n, s'⟩, hmem, rfl⟩ := List.mem_map.mp hs
    have hget := OrderedMap.get?_eq_some_iff.mpr hmem
    obtain ⟨y, hy⟩ := Strategies.exists_totalValue hx hget
    exact Book.worth_of_listings hbase hy (hlisted n s' hget)
  rw [hstrategies, nettedWorth, sum_positions, sum_cashIn, ← List.sum_map_add]
  rfl

/-- Whatever has happened to a portfolio since it was built, in exact arithmetic its value on a day is
the net positions at the closes of the day plus the cash of all strategies, in the base currency. For
all that is held and all cash that there is, the closes and the rates are there. -/
theorem value_of_netted_book {name : String} {base : Document} {named : List (String × Strategy)}
    {allocator : Allocator} {commission : Commission} {fxBase : Option Currency}
    {explicit : List (Asset × Document)} {venue : Option MarketHistory}
    (hbuild : build name base named allocator commission fxBase explicit venue = .ok fresh)
    (hreached : fresh.Reached p) :
    (∀ n s, p.strategies.get? n = some s →
      ∀ a c, s.assets.get? a = some c → p.listings.get? a = some c) ∧
    ∀ d x, p.totalValue d = .ok x →
      (p.ValuedExactly d → x.IsFinite ∧ x.value =
        (p.positions.toList.map fun e =>
            (e.2 : ℚ) * (p.market.closeOn d e.1 * p.listings.rateOn p.fx d e.1)).sum +
          (Currency.all.map fun c => p.cashIn c * p.fx.rateOn d c).sum) ∧
      (∀ a k, p.positions.get? a = some k → k ≠ 0 → ∃ c bar r, p.listings.get? a = some c ∧
        p.market.bar? d a = some bar ∧ p.fx.rate d c = .ok r) ∧
      ∀ c, p.cashIn c ≠ 0 → ∃ r, p.fx.rate d c = .ok r := by
  have hsetup := hreached.setup_eq
  obtain ⟨-, -, hlistings, -⟩ := config_of_setup_eq hsetup
  have hbase := fxBase_of_setup_eq hbuild hsetup
  have hlisted : ∀ n s, p.strategies.get? n = some s →
      ∀ a c, s.assets.get? a = some c → p.listings.get? a = some c := by
    intro n s hs a c hc
    obtain ⟨t, ht, hsame⟩ := setup_of_get? hsetup hs
    rw [Strategy.assets_of_setup_eq hsame] at hc
    rw [hlistings]
    exact listed_of_build hbuild ht hc
  refine ⟨hlisted, fun d x hx => ⟨fun hexact => ?_, fun a k ha hk => ?_, fun c hc => ?_⟩⟩
  · obtain ⟨hfinite, hvalue⟩ := value_totalValue hbase hexact hx
    exact ⟨hfinite, hvalue.trans (worth_eq_nettedWorth hbase hx hlisted)⟩
  · obtain ⟨n, s, hs, hposition⟩ := exists_position_ne_zero ha hk
    obtain ⟨y, hy⟩ := Strategies.exists_totalValue hx hs
    obtain ⟨c, bar, r, hc, hbar, hr⟩ := Book.listed_of_position_ne_zero hbase hy hposition
    exact ⟨c, bar, r, hlisted n s hs a c hc, hbar, hr⟩
  · obtain ⟨n, s, hs, hbalance⟩ := exists_balance_ne_zero hc
    obtain ⟨y, hy⟩ := Strategies.exists_totalValue hx hs
    exact Book.rate_of_balance_ne_zero hbase hy hbalance

/-- Two holders of one asset. -/
def opposed : Portfolio :=
  { holding ["A"] with
    name := "opposed"
    strategies := OrderedMap.ofList [("long", Strategy.holder "A"), ("short", Strategy.holder "A")] }

theorem build_opposed :
    build "opposed" (.text "USD") [("long", Strategy.holder "A"), ("short", Strategy.holder "A")]
      .selfFunded Commission.standard none [] none = .ok opposed := rfl

/-- One of them keeps the 100 shares that it bought, the other sells its own and 50 more, so 50 shares
are held net. -/
theorem value_of_netted_book_opposed :
    let day : MarketDay := .flat ⟨2024, 1, 2, by decide, by decide, by decide⟩ ["A"]
    let f : Fill := ⟨day.date, "short", "A", .sell, 12, 150, 0⟩
    let p := after [.market day, .fill f] opposed
    opposed.Reached p ∧ p.positions.toList = [("A", 50)] ∧
      p.totalValue day.date = .ok (.finite false 2298000 (-3)) ∧
      (Decimal.finite false 2298000 (-3)).value =
        (p.positions.toList.map fun e =>
            (e.2 : ℚ) * (p.market.closeOn day.date e.1 * p.listings.rateOn p.fx day.date e.1)).sum +
          (Currency.all.map fun c => p.cashIn c * p.fx.rateOn day.date c).sum := by
  intro day f p
  have hreached : opposed.Reached p := Reached.after (.start opposed.market opposed.fx rfl) _
  have hvalue : p.totalValue day.date = .ok (.finite false 2298000 (-3)) :=
    Except.eq_ok_of_toOption (by decide +kernel)
  have hexact : p.ValuedExactly day.date := by decide +kernel
  have hpositions : p.positions.toList = [("A", 50)] := by decide +kernel
  obtain ⟨-, hnetted⟩ := value_of_netted_book build_opposed hreached
  exact ⟨hreached, hpositions, hvalue, ((hnetted day.date _ hvalue).1 hexact).2⟩

end Portfolio
end Backtesting
