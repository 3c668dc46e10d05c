import Backtesting.Portfolio.Allocation
import Backtesting.Proofs.Decimal.Sum
import Backtesting.Proofs.OrderedMap

/-!
What strategies are worth, alone and together. The worth of a book comes out of sums that start at
zero, and so does the worth of several books.
-/
namespace Backtesting

namespace Decimal

variable {α : Type}

theorem isResult_zero : zero.IsResult := Or.inl rfl

/-- What a chain of sums ends with is a result if its first number is one. -/
theorem isResult_foldlM {ε : Type} {f : Decimal → α → Except ε Decimal}
    (hf : ∀ {total e next}, total.IsResult → f total e = .ok next → next.IsResult) {l : List α}
    {a b : Decimal} (ha : a.IsResult) (h : l.foldlM f a = .ok b) : b.IsResult := by
  induction l generalizing a with
  | nil =>
    obtain rfl := Except.foldlM_nil_eq_ok.mp h
    exact ha
  | cons e l ih =>
    obtain ⟨c, hc, hrest⟩ := Except.foldlM_cons_eq_ok.mp h
    exact ih (hf ha hc) hrest

theorem isResult_sum {xs : List Decimal} {x : Decimal} (h : sum xs = .ok x) : x.IsResult :=
  isResult_foldlM (fun _ hnext => isResult_add hnext) isResult_zero h

/-- Summing up while going through a list is summing up what was found. -/
theorem foldlM_add_eq_ok {f : α → Except Error Decimal} {l : List α} {a b : Decimal} :
    l.foldlM (fun total e => do lift (total.add (← f e))) a = .ok b ↔
      ∃ xs, List.Forall₂ (fun e x => f e = .ok x) l xs ∧ xs.foldlM add a = .ok b := by
  induction l generalizing a with
  | nil =>
    rw [Except.foldlM_nil_eq_ok]
    constructor
    · rintro rfl
      exact ⟨[], .nil, rfl⟩
    · rintro ⟨xs, hxs, h⟩
      cases hxs
      exact Except.foldlM_nil_eq_ok.mp h
  | cons e l ih =>
    rw [Except.foldlM_cons_eq_ok]
    constructor
    · rintro ⟨c, hc, hrest⟩
      obtain ⟨x, hx, hadd⟩ := Except.bind_eq_ok.mp hc
      obtain ⟨xs, hxs, hsum⟩ := ih.mp hrest
      exact ⟨x :: xs, .cons hx hxs,
        Except.foldlM_cons_eq_ok.mpr ⟨c, lift_eq_ok.mp hadd, hsum⟩⟩
    · rintro ⟨xs, hxs, hsum⟩
      cases hxs with
      | cons hx hxs =>
        obtain ⟨c, hc, hsum⟩ := Except.foldlM_cons_eq_ok.mp hsum
        refine ⟨c, Except.bind_eq_ok.mpr ⟨_, hx, ?_⟩, ih.mpr ⟨_, hxs, hsum⟩⟩
        exact lift_eq_ok.mpr hc

end Decimal

variable {d : Date} {base : Currency} {market : MarketHistory} {fx : FxHistory}

theorem Book.isResult_totalValue {b : Book} {l : Listings} {x : Decimal}
    (h : b.totalValue l d base market fx = .ok x) : x.IsResult := by
  obtain ⟨total, hpositions, hcash⟩ := Except.bind_eq_ok.mp h
  refine Decimal.isResult_foldlM (fun htotal hnext => ?_)
    (Decimal.isResult_foldlM (fun htotal hnext => ?_) Decimal.isResult_zero hpositions) hcash
  · obtain ⟨zero, -, hnext⟩ := Except.bind_eq_ok.mp hnext
    cases zero with
    | true =>
      obtain rfl := Except.pure_eq_ok.mp hnext
      exact htotal
    | false =>
      obtain ⟨worth, -, hnext⟩ := Except.bind_eq_ok.mp hnext
      exact Decimal.isResult_add (Decimal.lift_eq_ok.mp hnext)
  · unfold positionValue at hnext
    split at hnext
    · obtain rfl := Except.ok.inj hnext
      exact htotal
    · obtain ⟨bar, -, hnext⟩ := Except.bind_eq_ok.mp hnext
      obtain ⟨worth, -, hnext⟩ := Except.bind_eq_ok.mp hnext
      obtain ⟨currency, -, hnext⟩ := Except.bind_eq_ok.mp hnext
      obtain ⟨worth, -, hnext⟩ := Except.bind_eq_ok.mp hnext
      exact Decimal.isResult_add (Decimal.lift_eq_ok.mp hnext)

/-- Strategies are worth the sum of what each of them is worth. -/
theorem Strategies.totalValue_eq_ok {strategies : Strategies} {x : Decimal} :
    strategies.totalValue d base market fx = .ok x ↔
      ∃ xs, List.Forall₂ (fun e x => e.2.totalValue d base market fx = .ok x)
        strategies.toList xs ∧ Decimal.sum xs = .ok x := by
  unfold Strategies.totalValue OrderedMap.values
  rw [List.foldlM_map]
  exact Decimal.foldlM_add_eq_ok

/-- Strategies that can be valued together can be valued one by one. -/
theorem Strategies.exists_totalValue {strategies : Strategies} {x : Decimal}
    (h : strategies.totalValue d base market fx = .ok x) {n : String} {s : Strategy}
    (hs : strategies.get? n = some s) : ∃ y, s.totalValue d base market fx = .ok y := by
  have hmem : s ∈ strategies.values := List.mem_map_of_mem (OrderedMap.get?_eq_some_iff.mp hs)
  obtain ⟨total, next, hstep⟩ := Except.exists_step_of_mem h hmem
  obtain ⟨y, hy, -⟩ := Except.bind_eq_ok.mp hstep
  exact ⟨y, hy⟩

theorem Allocator.values_eq_ok {strategies : Strategies} {worth : List (String × Decimal)}
    (h : values strategies d base market fx = .ok worth) :
    worth.map Prod.fst = strategies.keys ∧ ∀ w ∈ worth, ∃ s,
      strategies.get? w.1 = some s ∧ s.totalValue d base market fx = .ok w.2 := by
  have hvalue : ∀ {e : String × Strategy} {w : String × Decimal},
      (do pure (e.1, ← e.2.totalValue d base market fx)) = Except.ok w →
        w.1 = e.1 ∧ e.2.totalValue d base market fx = .ok w.2 := by
    intro e w hw
    obtain ⟨x, hx, hw⟩ := Except.bind_eq_ok.mp hw
    obtain rfl := Except.pure_eq_ok.mp hw
    exact ⟨rfl, hx⟩
  constructor
  · have hall := Except.mapM_eq_ok.mp h
    unfold OrderedMap.keys
    clear h
    generalize strategies.toList = l at hall ⊢
    induction hall with
    | nil => rfl
    | cons hw _ ih => rw [List.map_cons, List.map_cons, ih, (hvalue hw).1]
  · intro w hw
    obtain ⟨e, he, hew⟩ := Except.mem_of_mapM h hw
    obtain ⟨hname, hx⟩ := hvalue hew
    refine ⟨e.2, ?_, hx⟩
    rw [hname, OrderedMap.get?_eq_some_iff]
    exact he

/-- A strategy that is alone is told to work with what it is worth. -/
theorem Allocator.allocate_selfFunded {strategies : Strategies} {n : String} {s : Strategy}
    {x : Decimal} (h : strategies.toList = [(n, s)])
    (hx : s.totalValue d base market fx = .ok x) :
    selfFunded.allocate strategies d base market fx = .ok [(n, inBase base x)] := by
  unfold allocate values
  rw [h]
  simp [hx]

end Backtesting
