import Backtesting.Market.Tables
import Backtesting.Portfolio.Events
import Backtesting.Proofs.Tearsheet

/-!
Errors of three classes speak of the data of a day: that there is no bar or no rate where one is
looked up, and that the day comes too late. Most of what a portfolio does looks nothing up, so it
cannot end with one of these whatever it is given. What fails only as its parts do is stated for any
class of errors.
-/
namespace Backtesting

/-- The errors of a lookup that finds nothing and of a day that comes too late. -/
@[simp] def Error.IsGap : Error → Prop
  | noMarketData .. | noFxRate .. | outOfOrder .. => True
  | _ => False

/-- All other errors. -/
@[simp] def Error.IsOther (e : Error) : Prop := ¬ e.IsGap

theorem Error.isGap_iff (e : Error) :
    e.IsGap ↔ e.label? = some "MarketDataNotFoundError" ∨ e.label? = some "FxRateNotFoundError" ∨
      e.label? = some "TemporalOrderError" := by
  cases e <;> simp [label?]

/-- A result that is no gap. -/
abbrev Gapless (r : Except Error α) : Prop := Except.FailsOnly Error.IsOther r

open Backtesting.Except (FailsOnly)

@[simp] theorem Decimal.gapless_lift (r : Except Fault α) : Gapless (lift r) :=
  failsOnly_lift fun _ _ => by simp

namespace Document

@[simp] theorem gapless_toDecimal (x : Document) : Gapless x.toDecimal := by
  unfold toDecimal
  split <;> simp

@[simp] theorem gapless_truncated (x : Float) : Gapless (truncated x) := by
  unfold truncated
  split <;> simp

@[simp] theorem gapless_toInt (x : Document) : Gapless x.toInt := by
  unfold toInt
  split
  · simp
  · simp
  · simp
  · unfold intOfText
    dsimp only
    split <;> simp
  · simp

end Document

@[simp] theorem Amount.gapless_read (x : Amount) : Gapless x.read := by
  cases x <;> simp [read]

@[simp] theorem Currency.gapless_ofCode (s : String) : Gapless (ofCode s) := by
  unfold ofCode
  split <;> simp

namespace Date

@[simp] theorem gapless_readOptional (x : Document) : Gapless (readOptional x) := by
  unfold readOptional
  split
  · simp
  · simp only [Except.FailsOnly.map_iff]
    unfold read
    split
    · simp
    · split <;> simp

@[simp] theorem gapless_addDays (d : Date) (n : Int) : Gapless (d.addDays n) := by
  unfold addDays
  split <;> simp

@[simp] theorem gapless_addMonths (d : Date) (n : Int) : Gapless (d.addMonths n) := by
  unfold addMonths
  dsimp only
  split
  · simp
  · split <;> simp

end Date

namespace Bar

@[simp] theorem gapless_check (q : Quote) : Gapless q.check := by
  simp [Quote.check, Quote.requireNonnegative]

/-- Building a bar fails as its checks do. -/
theorem failsOnly_ofQuote {E : Error → Prop} {q : Quote} (hcheck : FailsOnly E q.check) :
    FailsOnly E (ofQuote q) := by
  unfold ofQuote
  split
  · exact FailsOnly.ok _
  · next e he => exact FailsOnly.error (hcheck e he)

@[simp] theorem gapless_ofQuote (q : Quote) : Gapless (ofQuote q) := failsOnly_ofQuote (gapless_check q)

@[simp] theorem gapless_adjustedForSplit (b : Bar) (c : Decimal) :
    Gapless (b.adjustedForSplit c) := by
  simp [adjustedForSplit]

end Bar

@[simp] theorem DatedRow.gapless_bar (r : DatedRow) : Gapless r.bar := by
  simp [bar]

@[simp] theorem DatedRow.gapless_rate (r : DatedRow) : Gapless r.rate := by
  simp [rate]

@[simp] theorem Listings.gapless_currencyOf (l : Listings) (a : Asset) :
    Gapless (l.currencyOf a) := by
  unfold currencyOf
  split <;> simp

namespace OrderRequest

theorem gapless_validate (r : OrderRequest) : Gapless r.validate := by
  have hprice : ∀ p, Gapless (readPrice p) := by
    intro p
    cases p <;> simp [readPrice]
  have hquantity : Gapless (wholeQuantity r.quantity) := by
    refine FailsOnly.bind (by simp) fun n _ => ?_
    split
    · simp
    · split <;> simp
    · simp
  have hterms : ∀ p s, Gapless (r.terms p s) := by
    intro p s
    unfold terms
    split <;> simp
  have hpositive : ∀ f p, Gapless (requirePositive f p) := by
    intro f p
    cases p <;> simp [requirePositive]
  refine FailsOnly.bind (hprice _) fun primary _ => FailsOnly.bind (hprice _) fun secondary _ => ?_
  refine FailsOnly.bind hquantity fun quantity _ => ?_
  split
  · simp [hterms, hpositive]
  · simp

end OrderRequest

@[simp] theorem Brokerage.gapless_execute (c : Commission) (o : Order) (bar : Option Bar) :
    Gapless (execute c o bar) := by
  cases bar with
  | none => simp [execute]
  | some bar =>
    refine FailsOnly.bind (by simp) fun price _ => ?_
    cases price <;> simp

/-- Submitting an order fails as its execution does. -/
theorem Brokerage.failsOnly_submit {E : Error → Prop} {b : Brokerage} {h : MarketHistory} {o : Order}
    (hexecute : FailsOnly E (execute b.commission o (h.bar? o.date o.asset))) :
    FailsOnly E (b.submit h o).2 := by
  unfold submit
  dsimp only
  split
  · next e he => exact FailsOnly.error (hexecute e he)
  · exact FailsOnly.ok _
  · exact FailsOnly.ok _

theorem Brokerage.gapless_submit (b : Brokerage) (h : MarketHistory) (o : Order) :
    Gapless (b.submit h o).2 := failsOnly_submit (gapless_execute _ _ _)

theorem Frequency.gapless_next (f : Frequency) (d : Date) : Gapless (f.next d) := by
  cases f <;> simp [next, Date.addYears]

namespace Rule

variable {E : Error → Prop} {market : MarketHistory} {d : Date}

theorem failsOnly_isDue {frequency : Frequency} (hnext : ∀ e, FailsOnly E (frequency.next e))
    (last : Option Date) (d : Date) : FailsOnly E (isDue frequency last d) := by
  cases last with
  | none => exact FailsOnly.ok true
  | some e =>
    refine FailsOnly.bind (hnext e) fun due _ => ?_
    cases due with
    | none => exact FailsOnly.ok false
    | some due => exact FailsOnly.ok _

theorem failsOnly_averages {a : Asset}
    (hclose : ∀ e ∈ market.closes a (some d), FailsOnly E (Decimal.lift e.2.toFloat))
    (fast slow : Nat) : FailsOnly E (averages fast slow market a d) := by
  unfold averages
  dsimp only
  split
  · exact FailsOnly.ok none
  · exact FailsOnly.bind (FailsOnly.mapM fun e he => hclose e (List.mem_of_mem_drop he))
      fun _ _ => FailsOnly.ok _

/-- Signaling fails where the next day of a schedule cannot be reckoned or a close cannot be read. -/
theorem failsOnly_signals {r : Rule}
    (hnext : ∀ frequency last, r = rebalancing frequency last → ∀ e, FailsOnly E (frequency.next e))
    (hclose : ∀ a, ∀ e ∈ market.closes a (some d), FailsOnly E (Decimal.lift e.2.toFloat))
    (position : Asset → Int) (assets : List Asset) :
    FailsOnly E (r.signals market position assets d) := by
  cases r with
  | buyAndHold initial => exact FailsOnly.ok _
  | rebalancing frequency last =>
    refine FailsOnly.bind (failsOnly_isDue (hnext frequency last rfl) last d) fun due _ => ?_
    cases due with
    | true => exact FailsOnly.ok _
    | false => exact FailsOnly.ok _
  | crossover fast slow =>
    refine FailsOnly.bind (FailsOnly.bind (FailsOnly.mapM fun a _ => ?_) fun _ _ => FailsOnly.ok _)
      fun _ _ => FailsOnly.ok _
    refine FailsOnly.bind (failsOnly_averages (hclose a) fast slow) fun means _ => ?_
    cases means with
    | none => exact FailsOnly.ok none
    | some means => exact FailsOnly.ok _

theorem gapless_signals (r : Rule) (market : MarketHistory) (position : Asset → Int)
    (assets : List Asset) (d : Date) : Gapless (r.signals market position assets d) :=
  failsOnly_signals (fun frequency _ _ => frequency.gapless_next)
    (fun _ _ _ => Decimal.gapless_lift _) position assets

end Rule

namespace Sizer

variable {E : Error → Prop}

theorem failsOnly_volatility (hfault : ∀ f, E (.decimal f)) (lookback : Nat) (market : MarketHistory)
    (a : Asset) (d : Date) : FailsOnly E (volatility lookback market a d) := by
  unfold volatility
  dsimp only
  split
  · exact FailsOnly.ok 0
  refine FailsOnly.bind (FailsOnly.mapM fun e _ => Decimal.failsOnly_lift fun f _ => hfault f)
    fun prices _ => ?_
  split
  · exact FailsOnly.ok 0
  · exact FailsOnly.ok _

theorem failsOnly_inverseWeights (hfault : ∀ f, E (.decimal f)) (assets : List Asset)
    (deviations : List Float) : FailsOnly E (inverseWeights assets deviations) := by
  unfold inverseWeights
  split
  · exact FailsOnly.bind (Decimal.failsOnly_lift fun f _ => hfault f) fun _ _ => FailsOnly.ok _
  · refine FailsOnly.mapM fun e _ => FailsOnly.bind ?_ fun _ _ => FailsOnly.ok _
    exact Decimal.failsOnly_lift fun f _ => hfault f

/-- A table has no weight for an asset, or decimals are at fault where weights come from binary
numbers. -/
theorem failsOnly_weightsFor {s : Sizer} (hmissing : ∀ a, E (.assetNotConfigured a "weight"))
    (hfault : ∀ lookback, s = inverseVolatility lookback → ∀ f, E (.decimal f)) (d : Date)
    (signals : Signals) (market : MarketHistory) : FailsOnly E (s.weightsFor d signals market) := by
  cases s with
  | fixedWeight weights =>
    refine FailsOnly.bind (FailsOnly.mapM fun a _ => ?_) fun _ _ => FailsOnly.ok _
    split
    · exact FailsOnly.ok _
    · exact FailsOnly.error (hmissing a)
  | inverseVolatility lookback =>
    have hfault := hfault lookback rfl
    unfold weightsFor
    dsimp only
    split
    · exact FailsOnly.ok _
    refine FailsOnly.bind (FailsOnly.mapM fun a _ => failsOnly_volatility hfault lookback market a d)
      fun deviations _ => ?_
    exact FailsOnly.bind (failsOnly_inverseWeights hfault _ _) fun _ _ => FailsOnly.ok _

theorem gapless_weightsFor (s : Sizer) (d : Date) (signals : Signals) (market : MarketHistory) :
    Gapless (s.weightsFor d signals market) :=
  failsOnly_weightsFor (fun _ => id) (fun _ _ _ => id) d signals market

end Sizer

namespace Performance

@[simp] theorem gapless_requireSample (xs : List Float) : Gapless (requireSample xs) := by
  simp [requireSample, requireSome, requireCount]

@[simp] theorem gapless_requirePair (xs ys : List Float) : Gapless (requirePair xs ys) := by
  simp [requirePair, requireSome, requireCount]

@[simp] theorem gapless_dailyReturns (equity : List Float) : Gapless (dailyReturns equity) := by
  refine FailsOnly.bind (gapless_requireSample equity) fun _ _ => ?_
  split <;> simp

@[simp] theorem gapless_annualizedReturn (returns : List Float) (days : Float) :
    Gapless (annualizedReturn returns days) := by
  have hpower : Gapless (Growth.power (totalGrowth returns) (days / Series.count returns)) := by
    refine FailsOnly.imp (Growth.failsOnly_power _ _) ?_
    rintro e (rfl | ⟨-, rfl⟩) <;> simp
  simp [annualizedReturn, requireSome, hpower]

end Performance

theorem Relative.gapless_ofCurves (equity benchmark : Curve Decimal) :
    Gapless (ofCurves Tearsheet.readDecimal equity benchmark) := by
  have hread : ∀ x, Gapless (Tearsheet.readDecimal x) := fun x => Decimal.gapless_lift _
  have hreturns : ∀ xs ys, Gapless (ofReturns xs ys) := by
    simp [ofReturns, Performance.alpha, Performance.beta, Performance.informationRatio]
  unfold ofCurves
  refine FailsOnly.bind (FailsOnly.mapM fun e _ => hread e.1) fun values _ => ?_
  refine FailsOnly.bind (by simp) fun returns _ => ?_
  refine FailsOnly.bind (FailsOnly.mapM fun e _ => hread e.2) fun others _ => ?_
  exact FailsOnly.bind (by simp) fun other _ => hreturns returns other

/-- What sums up the curves looks at no day that is not theirs. -/
theorem Tearsheet.gapless_ofCurves (equity : Curve Decimal) (benchmark : Option (Curve Decimal)) :
    Gapless (ofCurves readDecimal equity benchmark) := by
  have hread : ∀ x, Gapless (readDecimal x) := fun x => Decimal.gapless_lift _
  refine FailsOnly.bind (FailsOnly.mapM fun e _ => ?_) fun points _ => ?_
  · simp [hread]
  refine FailsOnly.bind (by simp) fun returns _ => ?_
  refine FailsOnly.bind ?_ fun relative _ => ?_
  · cases benchmark with
    | none => simp
    | some curve => exact FailsOnly.map_iff.mpr (Relative.gapless_ofCurves equity curve)
  · apply failsOnly_ofReturns
    · simp [Performance.requireCount]
    · simp
    · simp
    · exact Performance.failsOnly_yearlyGrowth (by simp) (by simp) (by simp) (by simp) _

end Backtesting
