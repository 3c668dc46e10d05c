import Backtesting.Proofs.Decimal.Defect
import Backtesting.Proofs.Market.Domain
import Backtesting.Proofs.Market.Order

/-!
The money that days bring. Bars and rates are compared with zero where they come in, so no NaN does; an
infinity is above zero like any other price.
-/
namespace Backtesting

open Backtesting.Decimal (Domain)

variable {D : Domain}

theorem Quote.Within.isFinite {q : Quote} (h : ∀ f, q.Within (Domain.without f)) :
    q.Within Domain.finite where
  opening := Decimal.isFinite_iff_defect?.mpr fun f => (h f).opening
  high := Decimal.isFinite_iff_defect?.mpr fun f => (h f).high
  low := Decimal.isFinite_iff_defect?.mpr fun f => (h f).low
  close := Decimal.isFinite_iff_defect?.mpr fun f => (h f).close
  adjustedClose := Decimal.isFinite_iff_defect?.mpr fun f => (h f).adjustedClose
  dividend := Decimal.isFinite_iff_defect?.mpr fun f => (h f).dividend
  split := Decimal.isFinite_iff_defect?.mpr fun f => (h f).split

/-- A bar is compared with zero in all its fields. -/
theorem Bar.within_undefined (b : Bar) : b.Within (Domain.without .undefined) := by
  obtain ⟨hopening, hhigh, hlow, hclose, hadjusted, hdividend, -, -⟩ := check_eq_ok.mp b.accepted
  have hfield : ∀ {x : Decimal}, x.IsNonneg → (Domain.without .undefined).Has x :=
    fun hx => Decimal.has_of_ordered (Decimal.isLess_zero.mpr hx)
  exact ⟨hfield hopening, hfield hhigh, hfield hlow, hfield hclose, hfield hadjusted,
    hfield hdividend, Decimal.has_of_ordered b.isAtMost_split⟩

/-- A volume is scaled to a whole number by nothing but a finite split. -/
theorem Bar.isFinite_of_adjustedForSplit {b b' : Bar} {c : Decimal}
    (h : b.adjustedForSplit c = .ok b') : c.IsFinite := by
  obtain ⟨opening, -, h⟩ := Except.bind_eq_ok.mp h
  obtain ⟨high, -, h⟩ := Except.bind_eq_ok.mp h
  obtain ⟨low, -, h⟩ := Except.bind_eq_ok.mp h
  obtain ⟨close, -, h⟩ := Except.bind_eq_ok.mp h
  obtain ⟨adjusted, -, h⟩ := Except.bind_eq_ok.mp h
  obtain ⟨volume, hvolume, -⟩ := Except.bind_eq_ok.mp h
  exact Decimal.isFinite_of_scale (Decimal.lift_eq_ok.mp hvolume)

/-- Where there is no split, the coefficient is one. -/
theorem Bar.isFinite_of_not_hasSplit {b : Bar} (h : b.hasSplit = false) : b.split.IsFinite := by
  have hone : ∀ x : Decimal, (x.ordering? (.finite false 1 0) != some .eq) = false → x.IsFinite := by
    intro x hx
    cases x with
    | finite n c e => trivial
    | infinity n => cases n <;> exact nomatch hx
    | nan n signaling p => exact nomatch hx
  exact hone b.split h

/-- What a day brings is in the domain as far as it is accepted. -/
structure MarketDay.Brings (D : Domain) (day : MarketDay) : Prop where
  bars : ∀ a b, day.bars.get? a = some b → b.Within D
  rates : ∀ e ∈ day.rates, ∀ x, FxHistory.readRate day.date e = .ok x → D.Has x.2

theorem MarketDay.brings_undefined (day : MarketDay) : day.Brings (Domain.without .undefined) :=
  ⟨fun _ b _ => b.within_undefined,
    fun _ _ _ hx => Decimal.has_of_ordered (FxHistory.readRate_eq_ok hx).2⟩

theorem MarketDay.get?_of_mem_splits {day : MarketDay} {e : Asset × Bar} (h : e ∈ day.splits) :
    day.bars.get? e.1 = some e.2 := OrderedMap.get?_eq_some_iff.mpr (List.mem_of_mem_filter h)

/-- No infinity comes with a day, except perhaps as a split. -/
structure MarketDay.Bounded (day : MarketDay) : Prop where
  bars : ∀ a b, day.bars.get? a = some b → ∀ x ∈
    [b.opening, b.high, b.low, b.close, b.adjustedClose, b.dividend], x.defect? ≠ some .endless
  rates : ∀ e ∈ day.rates, ∀ x, e.2.read = .ok x → x.defect? ≠ some .endless

instance (day : MarketDay) : Decidable day.Bounded :=
  decidable_of_iff ((∀ b ∈ day.bars.values, ∀ x ∈
      [b.opening, b.high, b.low, b.close, b.adjustedClose, b.dividend], x.defect? ≠ some .endless) ∧
    ∀ e ∈ day.rates, ∀ x, e.2.read = .ok x → x.defect? ≠ some .endless)
    ⟨fun h => ⟨OrderedMap.forall_get?_iff.mpr h.1, h.2⟩,
      fun h => ⟨OrderedMap.forall_get?_iff.mp h.bars, h.rates⟩⟩

end Backtesting
