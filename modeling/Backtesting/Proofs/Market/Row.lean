import Backtesting.Proofs.Market.Selection
import Backtesting.Proofs.Market.Split

/-!
What a row of a table says. A row of bars describes the values of at most one bar, which it has if
these make one; a row of rates names a currency and its rate.
-/
namespace Backtesting

namespace DatedRow

variable {r : DatedRow}

/-- A cell that may be left out holds `x`, or it is vacant and `x` is what stands for it. -/
def Gives (r : DatedRow) (name : String) (default_ x : Decimal) : Prop :=
  if isVacant (r.cell name) then x = default_ else (r.cell name).toDecimal = .ok x

/-- The values that a row describes. What may be left out is the close, or nothing traded and neither
dividend nor split. -/
structure Describes (r : DatedRow) (q : Quote) : Prop where
  opening : (r.cell "open").toDecimal = .ok q.opening
  high : (r.cell "high").toDecimal = .ok q.high
  low : (r.cell "low").toDecimal = .ok q.low
  close : (r.cell "close").toDecimal = .ok q.close
  adjustedClose : r.Gives "adjusted_close" q.close q.adjustedClose
  volume : ∃ x, r.Gives "volume" 0 x ∧ x.truncate = .ok q.volume
  dividend : r.Gives "dividend_per_share" 0 q.dividend
  split : r.Gives "split_coefficient" 1 q.split

theorem gives_of_cellOr {name : String} {n : Int} {x : Decimal} :
    (r.cellOr name (.integer n)).toDecimal = .ok x ↔ r.Gives name (Decimal.ofInt n) x := by
  unfold cellOr Gives
  split
  · exact ⟨fun h => (Except.ok.inj h).symm, fun h => congrArg Except.ok h.symm⟩
  · exact Iff.rfl

theorem gives_adjustedClose {close x : Decimal} :
    (if isVacant (r.cell "adjusted_close") then Except.ok close
      else (r.cell "adjusted_close").toDecimal) = .ok x ↔ r.Gives "adjusted_close" close x := by
  unfold Gives
  split
  · exact ⟨fun h => (Except.ok.inj h).symm, fun h => congrArg Except.ok h.symm⟩
  · exact Iff.rfl

/-- The cells in the order in which they are read. -/
theorem readQuote_eq (r : DatedRow) : r.readQuote = (do
    let close ← (r.cell "close").toDecimal
    let opening ← (r.cell "open").toDecimal
    let high ← (r.cell "high").toDecimal
    let low ← (r.cell "low").toDecimal
    let adjustedClose ← ite (isVacant (r.cell "adjusted_close")) (.ok close)
      (r.cell "adjusted_close").toDecimal
    let traded ← (r.cellOr "volume" (.integer 0)).toDecimal
    let volume ← Decimal.lift traded.truncate
    let dividend ← (r.cellOr "dividend_per_share" (.integer 0)).toDecimal
    let split ← (r.cellOr "split_coefficient" (.integer 1)).toDecimal
    pure { opening, high, low, close, adjustedClose, volume, dividend, split }) := by
  unfold readQuote
  by_cases hvacant : isVacant (r.cell "adjusted_close") = true
  · simp only [if_pos hvacant]
    rfl
  · simp only [if_neg hvacant]

theorem readQuote_eq_ok {q : Quote} : r.readQuote = .ok q ↔ r.Describes q := by
  simp only [readQuote_eq, Except.bind_eq_ok, Except.pure_eq_ok, Decimal.lift_eq_ok,
    gives_of_cellOr, gives_adjustedClose]
  constructor
  · intro h
    obtain ⟨close, hclose, opening, hopening, high, hhigh, low, hlow, adjusted, hadjusted, traded,
      htraded, volume, hvolume, dividend, hdividend, split, hsplit, rfl⟩ := h
    exact ⟨hopening, hhigh, hlow, hclose, hadjusted, ⟨traded, htraded, hvolume⟩, hdividend, hsplit⟩
  · intro h
    obtain ⟨traded, htraded, hvolume⟩ := h.volume
    exact ⟨_, h.close, _, h.opening, _, h.high, _, h.low, _, h.adjustedClose, traded, htraded, _,
      hvolume, _, h.dividend, _, h.split, rfl⟩

/-- A row has the bar that it describes, if that is a bar at all. -/
theorem bar_eq_ok {b : Bar} : r.bar = .ok b ↔ r.Describes b.toQuote := by
  unfold bar
  rw [Except.mapError_eq_ok, Except.bind_eq_ok]
  constructor
  · intro h
    obtain ⟨q, hq, hb⟩ := h
    rw [Bar.eq_of_ofQuote hb]
    exact readQuote_eq_ok.mp hq
  · intro h
    exact ⟨b.toQuote, readQuote_eq_ok.mpr h, Bar.ofQuote_toQuote b⟩

theorem rate_eq_ok {c : Currency} {x : Decimal} :
    r.rate = .ok (c, x) ↔ r.currencyCode = c.code ∧ (r.cell "rate").toDecimal = .ok x := by
  unfold rate
  rw [Except.bind_eq_ok]
  constructor
  · intro h
    obtain ⟨c', hcode, h⟩ := h
    obtain ⟨x', hrate, h⟩ := Except.bind_eq_ok.mp h
    obtain ⟨rfl, rfl⟩ := Prod.mk.inj (Except.pure_eq_ok.mp h)
    exact ⟨(Currency.code_of_ofCode hcode).symm, Except.mapError_eq_ok.mp hrate⟩
  · intro h
    obtain ⟨hcode, hrate⟩ := h
    refine ⟨c, ?_, Except.bind_eq_ok.mpr ⟨x, Except.mapError_eq_ok.mpr hrate, rfl⟩⟩
    rw [hcode, Currency.ofCode_code]

end DatedRow

end Backtesting
