import Backtesting.Portfolio.Events
import Backtesting.Proofs.Market.Split
import Backtesting.Proofs.Strategy.Book

/-!
What a strategy holds, kept by hand. A ledger is told the fills, dividends and splits and does the
sums itself; it knows nothing of books, and where a book says how it failed, the ledger just has no
next entry. So it is a measure for what becomes of a book.
-/
namespace Backtesting

/-- A dividend is paid where it is not zero. -/
theorem Bar.hasDividend_eq (b : Bar) : b.hasDividend = decide (b.dividend.isSame 0 ≠ .ok true) := by
  obtain ⟨-, -, -, -, -, hnonneg, -⟩ := check_eq_ok.mp b.accepted
  unfold hasDividend
  generalize b.dividend = x at hnonneg ⊢
  show (x.ordering? (.finite false 0 0) == some .gt) = decide (x.isSame (.finite false 0 0) ≠ .ok true)
  cases x with
  | nan n signaling p => exact absurd hnonneg id
  | infinity n =>
    obtain rfl : n = false := hnonneg
    simp [Decimal.isSame, Decimal.ordering?]
  | finite n c e =>
    by_cases hc : c = 0
    · simp [Decimal.isSame, Decimal.ordering?, hc]
    · obtain rfl := hnonneg.resolve_right hc
      simp [Decimal.isSame, Decimal.ordering?, hc]

/-- There is a split where the coefficient is not one. -/
theorem Bar.hasSplit_eq (b : Bar) : b.hasSplit = decide (b.split.isSame 1 ≠ .ok true) := by
  obtain ⟨-, -, -, -, -, -, -, hpositive⟩ := check_eq_ok.mp b.accepted
  unfold hasSplit
  generalize b.split = x at hpositive ⊢
  show (x.ordering? (.finite false 1 0) != some .eq) = decide (x.isSame (.finite false 1 0) ≠ .ok true)
  cases x with
  | nan n signaling p => exact nomatch hpositive
  | infinity n => simp [Decimal.isSame, bne, beq_eq_decide]
  | finite n c e => simp [Decimal.isSame, bne, beq_eq_decide]

structure Ledger where
  positions : OrderedMap Asset Int
  cash : Balances
deriving DecidableEq

namespace Ledger

def held (x : Ledger) (a : Asset) : Int := (x.positions.get? a).getD 0

/-- Money for an asset comes in the currency in which the asset is listed. -/
def pay (l : Listings) (a : Asset) (amount : Decimal) (x : Ledger) : Option Ledger := do
  let c ← l.get? a
  let balance ← (((x.cash.get? c).getD 0).add amount).toOption
  some { x with cash := x.cash.put c balance }

/-- The shares that come in with a fill, below zero where they go out. -/
def sharesIn (f : Fill) : Int :=
  match f.action with
  | .buy => f.quantity
  | .sell => -f.quantity

/-- The shares of a fill against their price, less the commission. -/
def fill (l : Listings) (x : Ledger) (f : Fill) : Option Ledger := do
  let price ← (f.price.mul (Decimal.ofInt (sharesIn f))).toOption
  let proceeds ← price.neg.toOption
  let income ← (proceeds.sub f.commission).toOption
  pay l f.asset income { x with positions := x.positions.put f.asset (x.held f.asset + sharesIn f) }

/-- So much for each share that is held, if there are any. -/
def dividend (l : Listings) (x : Ledger) (a : Asset) (perShare : Decimal) : Option Ledger :=
  if x.held a = 0 then some x
  else do
    let amount ← (perShare.mul (Decimal.ofInt (x.held a))).toOption
    pay l a amount x

/-- A position times the coefficient, to the nearest whole share. -/
def split (x : Ledger) (a : Asset) (coefficient : Decimal) : Option Ledger :=
  match x.positions.get? a with
  | none => some x
  | some k => do
      let scaled ← ((Decimal.ofInt k).mul coefficient).toOption
      if scaled.IsFinite then
        some { x with positions := x.positions.put a (halfUp scaled.value) }
      else none

def onDate (d : Date) (fs : List Fill) : List Fill := fs.filter (·.date = d)

/-- The dividends of a day on what was held before it, then its splits, then its fills. -/
def goThrough (l : Listings) (fs : List Fill) (x : Ledger) (day : MarketDay) : Option Ledger := do
  let x ← (day.bars.toList.filter (·.2.dividend.isSame 0 ≠ .ok true)).foldlM
    (fun x e => x.dividend l e.1 e.2.dividend) x
  let x ← (day.bars.toList.filter (·.2.split.isSame 1 ≠ .ok true)).foldlM
    (fun x e => x.split e.1 e.2.split) x
  (onDate day.date fs).foldlM (fill l) x

/-- Days one after the other, each with those of the fills that are of its date. -/
def replay (l : Listings) (fs : List Fill) (days : List MarketDay) (x : Ledger) : Option Ledger :=
  days.foldlM (goThrough l fs) x

variable {l : Listings} {fs gs : List Fill} {days : List MarketDay}

theorem onDate_eq_self {d : Date} (h : ∀ f ∈ fs, f.date = d) : onDate d fs = fs := by
  apply List.filter_eq_self.mpr
  intro f hf
  simpa using h f hf

theorem onDate_eq_nil {d : Date} (h : ∀ f ∈ fs, f.date ≠ d) : onDate d fs = [] := by
  apply List.filter_eq_nil_iff.mpr
  intro f hf
  simpa using h f hf

/-- The fills of one date, before fills of others. -/
theorem onDate_append_left {d : Date} (h : ∀ f ∈ fs, f.date = d) (h' : ∀ f ∈ gs, f.date ≠ d) :
    onDate d (fs ++ gs) = fs := by
  rw [onDate, List.filter_append, ← onDate, ← onDate, onDate_eq_self h, onDate_eq_nil h',
    List.append_nil]

theorem onDate_append_right {d : Date} (h : ∀ f ∈ fs, f.date ≠ d) :
    onDate d (fs ++ gs) = onDate d gs := by
  rw [onDate, List.filter_append, ← onDate, ← onDate, onDate_eq_nil h, List.nil_append]

theorem replay_cons (day : MarketDay) (x : Ledger) :
    replay l fs (day :: days) x = (x.goThrough l fs day).bind (replay l fs days) := rfl

/-- Only fills on the dates of the days matter. -/
theorem replay_congr (h : ∀ day ∈ days, onDate day.date fs = onDate day.date gs) :
    replay l fs days = replay l gs days := by
  induction days with
  | nil => rfl
  | cons day days ih =>
    obtain ⟨hday, hdays⟩ := List.forall_mem_cons.mp h
    funext x
    have hfirst : x.goThrough l fs day = x.goThrough l gs day := by
      rw [goThrough, goThrough, hday]
    rw [replay_cons, replay_cons, hfirst, ih hdays]

end Ledger

namespace Book

open Backtesting.Action (bind_eq_ok)

variable {l : Listings} {b c : Book} {a : Asset}

/-- A book as a ledger shows it. -/
def ledger (b : Book) : Ledger := ⟨b.positions, b.cash⟩

theorem SameHoldings.ledger_eq (h : b.SameHoldings c) : b.ledger = c.ledger := by
  rw [ledger, ledger, h.1, h.2]

theorem held_ledger (b : Book) (a : Asset) : b.ledger.held a = b.position a := rfl

theorem pay_ledger {ccy : Currency} {amount v : Decimal} (hc : l.get? a = some ccy)
    (hv : (b.balance ccy).add amount = .ok v) :
    b.ledger.pay l a amount = some { b with cash := b.cash.put ccy v }.ledger :=
  Option.bind_eq_some_iff.mpr ⟨ccy, hc, Option.bind_eq_some_iff.mpr
    ⟨v, Except.toOption_of_eq_ok hv, rfl⟩⟩

theorem fill_ledger {f : Fill} (h : applyFill l f b = (c, .ok ())) :
    b.ledger.fill l f = some c.ledger := by
  obtain ⟨ccy, flow, v, hc, hflow, hv, rfl⟩ := applyFill_eq_ok h
  obtain ⟨price, hprice, hflow⟩ := Except.bind_eq_ok.mp hflow
  obtain ⟨proceeds, hproceeds, hflow⟩ := Except.bind_eq_ok.mp hflow
  have hshares : f.signedQuantity = Ledger.sharesIn f := by
    unfold Fill.signedQuantity Ledger.sharesIn
    cases f.action <;> simp [TradeAction.sign]
  rw [hshares] at hprice ⊢
  exact Option.bind_eq_some_iff.mpr ⟨price, Except.toOption_of_eq_ok hprice,
    Option.bind_eq_some_iff.mpr ⟨proceeds, Except.toOption_of_eq_ok hproceeds,
      Option.bind_eq_some_iff.mpr ⟨flow, Except.toOption_of_eq_ok hflow,
        pay_ledger (b := b.movePosition f.asset (Ledger.sharesIn f)) hc hv⟩⟩⟩

theorem dividend_ledger {perShare amount : Decimal}
    (h : applyDividend l a (.known perShare) b = (c, .ok amount)) :
    b.ledger.dividend l a perShare = some c.ledger := by
  rcases applyDividend_eq_ok h with ⟨hflat, rfl⟩ | ⟨hheld, ccy, x, v, hc, hx, hamount, hv, rfl⟩
  · exact if_pos hflat
  · obtain rfl := Except.ok.inj hx
    rw [Ledger.dividend, held_ledger, if_neg hheld]
    exact Option.bind_eq_some_iff.mpr ⟨amount, Except.toOption_of_eq_ok hamount, pay_ledger hc hv⟩

theorem split_ledger {coefficient : Decimal} (h : b.applySplit a (.known coefficient) = .ok c) :
    b.ledger.split a coefficient = some c.ledger := by
  unfold applySplit at h
  unfold Ledger.split
  show (match b.positions.get? a with | none => _ | some k => _) = _
  cases hk : b.positions.get? a with
  | none =>
    rw [hk] at h
    obtain rfl := Except.ok.inj h
    rfl
  | some k =>
    rw [hk] at h
    obtain ⟨ratio, hratio, h⟩ := Except.bind_eq_ok.mp h
    obtain rfl := Except.ok.inj hratio
    obtain ⟨k', hk', h⟩ := Except.bind_eq_ok.mp h
    obtain rfl := Except.pure_eq_ok.mp h
    obtain ⟨scaled, hscaled, hround⟩ := Except.bind_eq_ok.mp (Decimal.lift_eq_ok.mp hk')
    have hfinite := Decimal.isFinite_of_nearestInt hround
    obtain rfl := Except.ok.inj ((Decimal.nearestInt_of_isFinite hfinite).symm.trans hround)
    exact Option.bind_eq_some_iff.mpr ⟨scaled, Except.toOption_of_eq_ok hscaled, if_pos hfinite⟩

end Book
end Backtesting
