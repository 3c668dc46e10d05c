import Backtesting.Proofs.Action
import Backtesting.Proofs.Except
import Backtesting.Proofs.OrderedMap
import Backtesting.Strategy.Book

/-!
What fills, dividends and splits do to a book. None of them reads or writes the target capital, and
none of them brings in a position in an asset that is not listed or a balance in a currency in which
nothing is listed, even where they fail halfway.
-/
namespace Backtesting

theorem Listings.currencyOf_eq_ok {l : Listings} {a : Asset} {c : Currency} :
    l.currencyOf a = .ok c ↔ l.get? a = some c := by
  unfold Listings.currencyOf
  cases l.get? a <;> simp

theorem Listings.currencyOf_eq_error {l : Listings} {a : Asset} {e : Error} :
    l.currencyOf a = .error e ↔ l.get? a = none ∧ e = .assetNotConfigured a "currency" := by
  unfold currencyOf
  cases l.get? a <;> simp [eq_comm]

namespace Book

open Backtesting.Action (Mirrors Keeps IsPath bind_eq_ok)

variable {l : Listings} {b b' : Book}

theorem credit_eq_ok {c : Currency} {amount : Decimal} (h : b.credit c amount = .ok b') :
    ∃ v, (b.balance c).add amount = .ok v ∧ b' = { b with cash := b.cash.put c v } := by
  obtain ⟨v, hv, h⟩ := Except.bind_eq_ok.mp h
  exact ⟨v, Decimal.lift_eq_ok.mp hv, (Except.pure_eq_ok.mp h).symm⟩

theorem applyFill_eq_ok {f : Fill} (h : applyFill l f b = (b', .ok ())) :
    ∃ c flow v, l.get? f.asset = some c ∧ f.cashFlow = .ok flow ∧
      (b.balance c).add flow = .ok v ∧
      b' = { b with
        positions := b.positions.put f.asset (b.position f.asset + f.signedQuantity)
        cash := b.cash.put c v } := by
  obtain ⟨u, c, hlisted, hmoved⟩ := bind_eq_ok.mp h
  obtain ⟨rfl, hc⟩ := Action.ofExcept_eq_ok.mp hlisted
  obtain ⟨w, _, hmove, hcredit⟩ := bind_eq_ok.mp hmoved
  rw [Action.modify_eq_ok] at hmove
  subst hmove
  obtain ⟨flow, hflow, hcredited⟩ := Except.bind_eq_ok.mp (Action.update_eq_ok.mp hcredit)
  obtain ⟨v, hv, rfl⟩ := credit_eq_ok hcredited
  exact ⟨c, flow, v, Listings.currencyOf_eq_ok.mp hc, Decimal.lift_eq_ok.mp hflow, hv, rfl⟩

/-- A flat position earns nothing. -/
theorem applyDividend_of_flat {a : Asset} (perShare : Amount) (h : b.position a = 0) :
    applyDividend l a perShare b = (b, .ok 0) := by
  have hget : (Action.get : Action Book Book) b = (b, .ok b) := rfl
  rw [applyDividend, Action.bind_ok hget]
  simp only [h, if_true]
  rfl

/-- A dividend on a position that is not flat goes to the balance in the currency of its asset. -/
theorem applyDividend_eq_ok {a : Asset} {perShare : Amount} {amount : Decimal}
    (h : applyDividend l a perShare b = (b', .ok amount)) :
    b.position a = 0 ∧ b' = b ∨
      b.position a ≠ 0 ∧ ∃ c x v, l.get? a = some c ∧ perShare.read = .ok x ∧
        x.mul (Decimal.ofInt (b.position a)) = .ok amount ∧ (b.balance c).add amount = .ok v ∧
        b' = { b with cash := b.cash.put c v } := by
  by_cases hflat : b.position a = 0
  · rw [applyDividend_of_flat perShare hflat] at h
    exact Or.inl ⟨hflat, (Prod.mk.inj h).1.symm⟩
  · right
    obtain ⟨u, _, hget, hheld⟩ := bind_eq_ok.mp h
    obtain ⟨rfl, rfl⟩ := Action.get_eq_ok.mp hget
    rw [if_neg hflat] at hheld
    obtain ⟨v, c, hcurrency, hlisted⟩ := bind_eq_ok.mp hheld
    obtain ⟨rfl, hc⟩ := Action.ofExcept_eq_ok.mp hcurrency
    obtain ⟨w, y, hamount, hearned⟩ := bind_eq_ok.mp hlisted
    obtain ⟨rfl, hy⟩ := Action.ofExcept_eq_ok.mp hamount
    obtain ⟨x, hx, hproduct⟩ := Except.bind_eq_ok.mp hy
    obtain ⟨r, _, hcredit, hanswer⟩ := bind_eq_ok.mp hearned
    obtain ⟨rfl, rfl⟩ := Action.pure_eq_ok.mp hanswer
    obtain ⟨v, hv, rfl⟩ := credit_eq_ok (Action.update_eq_ok.mp hcredit)
    exact ⟨hflat, c, x, v, Listings.currencyOf_eq_ok.mp hc, hx, Decimal.lift_eq_ok.mp hproduct, hv,
      rfl⟩

theorem applySplit_eq_ok {a : Asset} {ratio : Amount} (h : b.applySplit a ratio = .ok b') :
    b.positions.get? a = none ∧ b' = b ∨
      ∃ k k', b.positions.get? a = some k ∧ b' = { b with positions := b.positions.put a k' } := by
  unfold applySplit at h
  cases hk : b.positions.get? a with
  | none =>
    rw [hk] at h
    exact Or.inl ⟨rfl, (Except.ok.inj h).symm⟩
  | some k =>
    rw [hk] at h
    obtain ⟨read, -, hscaled⟩ := Except.bind_eq_ok.mp h
    obtain ⟨k', -, hk'⟩ := Except.bind_eq_ok.mp hscaled
    exact Or.inr ⟨k, k', rfl, (Except.pure_eq_ok.mp hk').symm⟩

/-- What a book may come to while its strategy trades. -/
structure Evolves (l : Listings) (b c : Book) : Prop where
  target : c.target = b.target
  positions : ∀ a ∈ c.positions.keys, a ∈ b.positions.keys ∨ a ∈ l.keys
  cash : ∀ x ∈ c.cash.keys, x ∈ b.cash.keys ∨ x ∈ l.values

namespace Evolves

theorem isPath : IsPath (Evolves l) where
  refl _ := ⟨rfl, fun _ => Or.inl, fun _ => Or.inl⟩
  trans h h' := {
    target := h'.target.trans h.target
    positions := fun a ha => (h'.positions a ha).elim (h.positions a) Or.inr
    cash := fun x hx => (h'.cash x hx).elim (h.cash x) Or.inr }

theorem movePosition {a : Asset} (ha : a ∈ l.keys) (quantity : Int) (b : Book) :
    Evolves l b (b.movePosition a quantity) where
  target := rfl
  positions x hx := by
    rcases OrderedMap.mem_keys_put.mp hx with rfl | hx
    · exact Or.inr ha
    · exact Or.inl hx
  cash _ := Or.inl

theorem credit {c : Currency} {amount : Decimal} (hc : c ∈ l.values)
    (h : b.credit c amount = .ok b') : Evolves l b b' := by
  obtain ⟨v, -, rfl⟩ := credit_eq_ok h
  refine ⟨rfl, fun _ => Or.inl, fun x hx => ?_⟩
  rcases OrderedMap.mem_keys_put.mp hx with rfl | hx
  · exact Or.inr hc
  · exact Or.inl hx

theorem applyFill (l : Listings) (f : Fill) : Keeps (Evolves l) (Book.applyFill l f) := by
  refine Keeps.bind_of_ok isPath (Keeps.ofExcept isPath _) fun {_ _ c} hlisted => ?_
  have hget := Listings.currencyOf_eq_ok.mp (Action.ofExcept_eq_ok.mp hlisted).2
  refine Keeps.bind isPath (Keeps.modify ?_) fun _ => Keeps.update isPath fun b c h => ?_
  · exact movePosition (OrderedMap.mem_keys_of_get? hget) f.signedQuantity
  · obtain ⟨flow, -, h⟩ := Except.bind_eq_ok.mp h
    exact credit (OrderedMap.mem_values_of_get? hget) h

theorem applyDividend (l : Listings) (a : Asset) (perShare : Amount) :
    Keeps (Evolves l) (Book.applyDividend l a perShare) := by
  refine Keeps.bind isPath (Keeps.get isPath) fun b => ?_
  dsimp only
  split
  · exact Keeps.pure isPath 0
  refine Keeps.bind_of_ok isPath (Keeps.ofExcept isPath _) fun {_ _ c} hlisted => ?_
  have hget := Listings.currencyOf_eq_ok.mp (Action.ofExcept_eq_ok.mp hlisted).2
  refine Keeps.bind isPath (Keeps.ofExcept isPath _) fun amount => ?_
  refine Keeps.bind isPath (Keeps.update isPath fun b c h => ?_) fun _ => Keeps.pure isPath _
  exact credit (OrderedMap.mem_values_of_get? hget) h

theorem applySplit {a : Asset} {ratio : Amount} (h : b.applySplit a ratio = .ok b') :
    Evolves l b b' := by
  rcases applySplit_eq_ok h with ⟨-, rfl⟩ | ⟨k, k', hk, rfl⟩
  · exact isPath.refl _
  · exact ⟨rfl, fun x hx => Or.inl (OrderedMap.keys_put_of_get? k' hk ▸ hx), fun _ => Or.inl⟩

end Evolves

/-- Positions in listed assets only. -/
def HoldsOnly (l : Listings) (b : Book) : Prop := ∀ a ∈ b.positions.keys, a ∈ l.keys

theorem HoldsOnly.position_eq_zero (h : HoldsOnly l b) {a : Asset} (ha : l.contains a = false) :
    b.positions.get? a = none ∧ b.position a = 0 := by
  have hnone : b.positions.get? a = none := by
    rw [OrderedMap.get?_eq_none_iff]
    intro hmem
    rw [OrderedMap.contains_eq_true_iff.mpr (h a hmem)] at ha
    exact Bool.noConfusion ha
  refine ⟨hnone, ?_⟩
  rw [position, OrderedMap.getD, hnone, Option.getD_none]

theorem HoldsOnly.of_evolves (h : HoldsOnly l b) (he : Evolves l b b') : HoldsOnly l b' :=
  fun a ha => (he.positions a ha).elim (h a) id

theorem HoldsOnly.applyFill {f : Fill} (h : HoldsOnly l b)
    (hb : Book.applyFill l f b = (b', .ok ())) : HoldsOnly l b' :=
  h.of_evolves (by simpa [hb] using Evolves.applyFill l f b)

theorem HoldsOnly.applyDividend {a : Asset} {perShare : Amount} {amount : Decimal}
    (h : HoldsOnly l b) (hb : Book.applyDividend l a perShare b = (b', .ok amount)) :
    HoldsOnly l b' :=
  h.of_evolves (by simpa [hb] using Evolves.applyDividend l a perShare b)

theorem HoldsOnly.applySplit {a : Asset} {ratio : Amount} (h : HoldsOnly l b)
    (hb : b.applySplit a ratio = .ok b') : HoldsOnly l b' := h.of_evolves (.applySplit hb)

/-- Books that differ in nothing but their target capital. -/
def SameHoldings (b c : Book) : Prop := b.positions = c.positions ∧ b.cash = c.cash

theorem mirrors_update {f : Book → Except Error Book}
    (h : ∀ (b : Book) (target : Balances),
      f { b with target } = (f b).map fun b => { b with target }) :
    Mirrors SameHoldings Eq (Action.update f) (Action.update f) := by
  apply Mirrors.update
  rintro b ⟨positions, cash, target⟩ ⟨rfl, rfl⟩
  have hf : f { b with target } = (f b).map fun b => { b with target } := h b target
  rw [hf]
  cases f b with
  | error e => exact .error e
  | ok b' => exact .ok ⟨rfl, rfl⟩

theorem credit_withTarget (c : Currency) (amount : Decimal) (b : Book) (target : Balances) :
    credit { b with target } c amount = (b.credit c amount).map fun b => { b with target } := by
  have hbalance : balance { b with target } c = b.balance c := rfl
  rw [credit, credit, hbalance]
  cases Decimal.lift ((b.balance c).add amount) <;> rfl

theorem mirrors_applyFill (l : Listings) (f : Fill) :
    Mirrors SameHoldings Eq (Book.applyFill l f) (Book.applyFill l f) := by
  refine Mirrors.bind (Mirrors.ofExcept _) ?_
  rintro c _ rfl
  refine Mirrors.bind (Mirrors.modify fun b b' h => ?_) fun _ _ _ => mirrors_update fun b target => ?_
  · simp only [SameHoldings, movePosition, position, h.1, h.2, and_self]
  · cases Decimal.lift f.cashFlow with
    | error e => rfl
    | ok flow => exact credit_withTarget c flow b target

theorem mirrors_applyDividend (l : Listings) (a : Asset) (perShare : Amount) :
    Mirrors SameHoldings Eq (Book.applyDividend l a perShare) (Book.applyDividend l a perShare) := by
  refine Mirrors.bind Mirrors.get fun b b' h => ?_
  have hposition : b.position a = b'.position a := by
    rw [position, position, h.1]
  simp only [hposition]
  split
  · exact Mirrors.pure rfl
  · refine Mirrors.bind (Mirrors.ofExcept _) ?_
    rintro c _ rfl
    refine Mirrors.bind (Mirrors.ofExcept _) ?_
    rintro amount _ rfl
    refine Mirrors.bind (mirrors_update fun b target => credit_withTarget c amount b target) ?_
    rintro _ _ _
    exact Mirrors.pure rfl

theorem mirrors_applySplit (a : Asset) (ratio : Amount) :
    Mirrors SameHoldings Eq (Action.update (·.applySplit a ratio))
      (Action.update (·.applySplit a ratio)) := by
  refine mirrors_update fun b target => ?_
  have hget : ({ b with target } : Book).positions.get? a = b.positions.get? a := rfl
  unfold Book.applySplit
  rw [hget]
  cases b.positions.get? a with
  | none => rfl
  | some quantity =>
    cases hratio : ratio.read with
    | error e => rfl
    | ok ratio =>
      simp only [Except.ok_bind]
      cases Decimal.lift ((Decimal.ofInt quantity).mul ratio >>= Decimal.nearestInt) <;> rfl

end Book
end Backtesting
