import Backtesting.Document.Number

/-!
The daily observation of one asset. A bar exists only if it passed `check`: no price, dividend or
volume below zero and a positive split coefficient. None of these comparisons lets a NaN through.
-/
namespace Backtesting

abbrev Asset := String

structure Quote where
  opening : Decimal
  high : Decimal
  low : Decimal
  close : Decimal
  adjustedClose : Decimal
  volume : Int
  dividend : Decimal
  split : Decimal
deriving DecidableEq

namespace Quote

def requireNonnegative (field : String) (x : Decimal) : Except Error Unit := do
  if ← Decimal.lift (x.isLess 0) then throw (.negativeBarField field x)

def check (q : Quote) : Except Error Unit := do
  requireNonnegative "open" q.opening
  requireNonnegative "high" q.high
  requireNonnegative "low" q.low
  requireNonnegative "close" q.close
  requireNonnegative "adjusted_close" q.adjustedClose
  requireNonnegative "dividend_per_share" q.dividend
  if q.volume < 0 then throw (.negativeVolume q.volume)
  if ← Decimal.lift (q.split.isAtMost 0) then throw (.splitNotPositive q.split)

end Quote

structure Bar extends Quote where
  accepted : toQuote.check = .ok ()
deriving DecidableEq

namespace Bar

def ofQuote (q : Quote) : Except Error Bar :=
  match h : q.check with
  | .ok () => .ok ⟨q, h⟩
  | .error e => .error e

theorem ofQuote_toQuote (b : Bar) : ofQuote b.toQuote = .ok b := by
  unfold ofQuote
  split
  · rfl
  · next e h => simp [b.accepted] at h

/-- A bar from values that are still to be read: the prices in the order of their fields, then the
volume, and only then the rules. -/
def read (opening high low close adjustedClose : Document) (volume : Document)
    (dividend split : Document) : Except Error Bar := do
  let opening ← opening.toDecimal
  let high ← high.toDecimal
  let low ← low.toDecimal
  let close ← close.toDecimal
  let adjustedClose ← adjustedClose.toDecimal
  let dividend ← dividend.toDecimal
  let split ← split.toDecimal
  let volume ← volume.toInt
  ofQuote ⟨opening, high, low, close, adjustedClose, volume, dividend, split⟩

def hasDividend (b : Bar) : Bool := b.dividend.ordering? 0 == some .gt

def hasSplit (b : Bar) : Bool := b.split.ordering? 1 != some .eq

/-- Prices over the coefficient and volume times it. Dividend and split coefficient are facts of
the day and stay. -/
def adjustedForSplit (b : Bar) (coefficient : Decimal) : Except Error Bar := do
  let opening ← Decimal.lift (b.opening.div coefficient)
  let high ← Decimal.lift (b.high.div coefficient)
  let low ← Decimal.lift (b.low.div coefficient)
  let close ← Decimal.lift (b.close.div coefficient)
  let adjustedClose ← Decimal.lift (b.adjustedClose.div coefficient)
  let volume ← Decimal.lift ((Decimal.ofInt b.volume).mul coefficient >>= Decimal.nearestInt)
  ofQuote { b.toQuote with opening, high, low, close, adjustedClose, volume }

end Bar
end Backtesting
