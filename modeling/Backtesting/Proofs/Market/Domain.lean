import Backtesting.Proofs.Decimal.Domain
import Backtesting.Proofs.Market.Rates
import Backtesting.Proofs.Market.Split

/-!
Data of a domain of numbers. Bars that were accepted and rates that were taken in stay in the domain
through every split, since splits and rates are above zero, and whatever is looked up or converted is
in it too. So the only errors without a class that data can end a replay with are the faults that the
domain has.
-/
namespace Backtesting

open Backtesting.Decimal (Domain)
open Backtesting.Except (FailsOnly Gives)

/-- The errors that a replay can end with: those that have a class, the faults that the domain has and,
where the next day of a schedule is reckoned, the end of the calendar. -/
def Error.EndsReplay (D : Domain) (reckons : Prop) : Error → Prop
  | .decimal f => D.Faults f
  | .dateOutOfRange | .daysOutOfRange => reckons
  | e => e.label?.isSome = true

variable {D : Domain} {reckons : Prop}

theorem Decimal.gives_lift {P : α → Prop} {r : Except Decimal.Fault α} (h : Gives D.Faults P r) :
    Gives (Error.EndsReplay D reckons) P (Decimal.lift r) :=
  ⟨Decimal.failsOnly_lift h.fails, fun a ha => h.value a (Decimal.lift_eq_ok.mp ha)⟩

/-- All decimals of a quote are in the domain. -/
structure Quote.Within (D : Domain) (q : Quote) : Prop where
  opening : D.Has q.opening
  high : D.Has q.high
  low : D.Has q.low
  close : D.Has q.close
  adjustedClose : D.Has q.adjustedClose
  dividend : D.Has q.dividend
  split : D.Has q.split

instance (q : Quote) : Decidable (q.Within Domain.finite) :=
  decidable_of_iff (∀ x ∈ [q.opening, q.high, q.low, q.close, q.adjustedClose, q.dividend, q.split],
    x.IsFinite) <| by
  constructor
  · intro h
    simp only [List.forall_mem_cons, List.not_mem_nil, false_implies, implies_true, and_true] at h
    obtain ⟨hopening, hhigh, hlow, hclose, hadjusted, hdividend, hsplit⟩ := h
    exact ⟨hopening, hhigh, hlow, hclose, hadjusted, hdividend, hsplit⟩
  · rintro ⟨hopening, hhigh, hlow, hclose, hadjusted, hdividend, hsplit⟩
    simp only [List.forall_mem_cons, List.not_mem_nil, false_implies, implies_true, and_true]
    exact ⟨hopening, hhigh, hlow, hclose, hadjusted, hdividend, hsplit⟩

/-- All decimals of a bar are in the domain. -/
abbrev Bar.Within (D : Domain) (b : Bar) : Prop := b.toQuote.Within D

/-- All decimals of all bars are in the domain. -/
def MarketHistory.Within (D : Domain) (h : MarketHistory) : Prop := h.All (Bar.Within D)

/-- All rates are in the domain; they are positive as well. -/
def FxHistory.Within (D : Domain) (h : FxHistory) : Prop :=
  h.rates.All fun rates => ∀ c r, rates.get? c = some r → D.Has r ∧ r.isAtMost 0 = .ok false

/-- All decimals of a day are in the domain, and its rates are those of currencies that there are. -/
structure MarketDay.Within (D : Domain) (day : MarketDay) : Prop where
  bars : ∀ a b, day.bars.get? a = some b → b.Within D
  rates : ∀ e ∈ day.rates, ∃ (c : Currency) (r : Decimal), e = (c.code, .known r) ∧ D.Has r

namespace Bar

theorem isAtMost_split (b : Bar) : b.split.isAtMost 0 = .ok false :=
  Decimal.lift_eq_ok.mp (check_eq_ok.mp b.accepted).2.2.2.2.2.2.2

theorem endsReplay_check {q : Quote} (hq : q.Within D) :
    FailsOnly (Error.EndsReplay D reckons) q.check := by
  have hfield : ∀ field {x}, D.Has x →
      FailsOnly (Error.EndsReplay D reckons) (Quote.requireNonnegative field x) := by
    intro field x hx
    refine FailsOnly.bind (Decimal.failsOnly_lift (Domain.isLess hx)) fun negative _ => ?_
    cases negative with
    | false => exact FailsOnly.ok ()
    | true => exact FailsOnly.error rfl
  refine FailsOnly.bind (hfield _ hq.opening) fun _ _ => FailsOnly.bind (hfield _ hq.high) fun _ _ => ?_
  refine FailsOnly.bind (hfield _ hq.low) fun _ _ => FailsOnly.bind (hfield _ hq.close) fun _ _ => ?_
  refine FailsOnly.bind (hfield _ hq.adjustedClose) fun _ _ => ?_
  refine FailsOnly.bind (hfield _ hq.dividend) fun _ _ => ?_
  dsimp only
  split
  · exact FailsOnly.error rfl
  refine FailsOnly.bind (Decimal.failsOnly_lift (Domain.isAtMost hq.split)) fun low _ => ?_
  cases low with
  | false => exact FailsOnly.ok ()
  | true => exact FailsOnly.error rfl

theorem gives_ofQuote {q : Quote} (hq : q.Within D) :
    Gives (Error.EndsReplay D reckons) (Bar.Within D) (Bar.ofQuote q) := by
  refine ⟨failsOnly_ofQuote (endsReplay_check hq), fun b hb => ?_⟩
  rwa [Bar.Within, eq_of_ofQuote hb]

/-- A coefficient that is not at most zero can be divided by. -/
theorem gives_adjustedForSplit {c : Decimal} (hc : D.Has c) (hpos : c.isAtMost 0 = .ok false) {b : Bar}
    (hb : b.Within D) :
    Gives (Error.EndsReplay D reckons) (Bar.Within D) (b.adjustedForSplit c) := by
  have hprice : ∀ {x}, D.Has x → Gives (Error.EndsReplay D reckons) D.Has (Decimal.lift (x.div c)) :=
    fun hx => Decimal.gives_lift (D.div hx hc hpos)
  have hvolume : FailsOnly (Error.EndsReplay D reckons)
      (Decimal.lift ((Decimal.ofInt b.volume).mul c >>= Decimal.nearestInt)) :=
    Decimal.failsOnly_lift ((D.mul (D.ofInt b.volume) hc).failsOnly_bind fun _ hx => D.nearestInt hx)
  refine Gives.bind (hprice hb.opening) fun opening hopening => ?_
  refine Gives.bind (hprice hb.high) fun high hhigh => Gives.bind (hprice hb.low) fun low hlow => ?_
  refine Gives.bind (hprice hb.close) fun close hclose => ?_
  refine Gives.bind (hprice hb.adjustedClose) fun adjusted hadjusted => ?_
  refine Gives.bind_of_fails hvolume fun volume => ?_
  exact gives_ofQuote ⟨hopening, hhigh, hlow, hclose, hadjusted, hb.dividend, hb.split⟩

end Bar

namespace MarketHistory

variable {h : MarketHistory} {d : Date} {a : Asset}

theorem Within.requireBar (hh : h.Within D) :
    Gives (Error.EndsReplay D reckons) (Bar.Within D) (h.requireBar d a) := by
  unfold MarketHistory.requireBar
  split
  · next b hb => exact Gives.ok (All.bar? hh hb)
  · exact Gives.error rfl

theorem Within.append {bars : Bars} (hh : h.Within D)
    (hbars : ∀ a b, bars.get? a = some b → b.Within D) :
    Gives (Error.EndsReplay D reckons) (Within D) (h.append d bars) := by
  refine ⟨?_, fun _ hg => All.append hh hbars hg⟩
  unfold MarketHistory.append
  split
  · exact FailsOnly.error rfl
  · exact FailsOnly.ok _

theorem Within.split (hh : h.Within D) (a : Asset) {c : Decimal} (hc : D.Has c)
    (hpos : c.isAtMost 0 = .ok false) :
    (h.split a c).1.Within D ∧ FailsOnly (Error.EndsReplay D reckons) (h.split a c).2 :=
  All.split hh a fun _ hb => Bar.gives_adjustedForSplit hc hpos hb

theorem Within.closes (hh : h.Within D) {cap : Option Date} {e : Date × Decimal}
    (he : e ∈ h.closes a cap) : D.Has e.2 := by
  have hwalk : ∀ l : List (Date × Bars), (∀ x ∈ l, ∀ a b, x.2.get? a = some b → b.Within D) →
      ∀ e ∈ closesIn a cap l, D.Has e.2 := by
    intro l
    induction l with
    | nil => exact fun _ e he => absurd he List.not_mem_nil
    | cons x l ih =>
      intro hl e he
      obtain ⟨hx, hl⟩ := List.forall_mem_cons.mp hl
      unfold closesIn at he
      split at he
      · exact absurd he List.not_mem_nil
      split at he
      · next b hb =>
        rcases List.mem_cons.mp he with rfl | he
        · exact (hx a b hb).close
        · exact ih hl e he
      · exact ih hl e he
  exact hwalk h.bars.days hh e he

/-- Closes are read as binary numbers. -/
theorem Within.endsReplay_toFloat (hh : h.Within D) {cap : Option Date} {e : Date × Decimal}
    (he : e ∈ h.closes a cap) : FailsOnly (Error.EndsReplay D reckons) (Decimal.lift e.2.toFloat) :=
  Decimal.failsOnly_lift (D.toFloat (hh.closes he))

end MarketHistory

namespace FxHistory

variable {h : FxHistory} {d : Date}

theorem Within.rate (hh : h.Within D) (c : Currency) :
    Gives (Error.EndsReplay D reckons) (fun r => D.Has r ∧ r.isAtMost 0 = .ok false) (h.rate d c) := by
  unfold FxHistory.rate
  split
  · exact Gives.ok ⟨D.ofInt 1, Decimal.isAtMost_ofInt (i := 1) (by decide)⟩
  split
  · exact Gives.error rfl
  · next rates hrates =>
    split
    · next r hr => exact Gives.ok (Chronicle.All.get? hh hrates c r hr)
    · exact Gives.error rfl

/-- What is divided by is a rate, so it is positive. -/
theorem Within.convert (hh : h.Within D) {amount : Decimal} (hamount : D.Has amount)
    (source target : Currency) :
    Gives (Error.EndsReplay D reckons) D.Has (h.convert d amount source target) := by
  unfold FxHistory.convert
  split
  · exact Gives.ok hamount
  refine Gives.bind (hh.rate source) fun r hr => ?_
  refine Gives.bind (Decimal.gives_lift (D.mul hamount hr.1)) fun inBase hinBase => ?_
  split
  · exact Gives.ok hinBase
  · refine Gives.bind (hh.rate target) fun r' hr' => ?_
    exact Decimal.gives_lift (D.div hinBase hr'.1 hr'.2)

theorem gives_readRate {e : String × Amount} {c : Currency} {r : Decimal}
    (he : e = (c.code, .known r)) (hr : D.Has r) :
    Gives (Error.EndsReplay D reckons) (fun x => D.Has x.2 ∧ x.2.isAtMost 0 = .ok false)
      (readRate d e) := by
  subst he
  refine ⟨?_, fun x hx => ⟨?_, (readRate_eq_ok hx).2⟩⟩
  · refine FailsOnly.bind (FailsOnly.ok r) fun r' hr' => ?_
    obtain rfl := Except.ok.inj hr'
    refine FailsOnly.bind (Decimal.failsOnly_lift (Domain.isAtMost hr)) fun low _ => ?_
    cases low with
    | true => exact FailsOnly.error rfl
    | false => exact FailsOnly.bind (by simp [Currency.ofCode_code]) fun _ _ => FailsOnly.ok _
  · have hread : Except.ok r = .ok x.2 := read_of_readRate hx
    rwa [← Except.ok.inj hread]

theorem Within.append (hh : h.Within D) {rates : List (String × Amount)}
    (hrates : ∀ e ∈ rates, ∃ (c : Currency) (r : Decimal), e = (c.code, .known r) ∧ D.Has r) :
    Gives (Error.EndsReplay D reckons) (Within D) (h.append d rates) := by
  unfold FxHistory.append
  split
  · exact Gives.error rfl
  have hread : ∀ e ∈ rates, Gives (Error.EndsReplay D reckons)
      (fun x => D.Has x.2 ∧ x.2.isAtMost 0 = .ok false) (readRate d e) := by
    intro e he
    obtain ⟨c, r, hcode, hr⟩ := hrates e he
    exact gives_readRate hcode hr
  refine Gives.bind (Gives.mapM hread) fun read hread => Gives.ok ?_
  refine Chronicle.All.put hh d fun c r hr => ?_
  exact hread (c, r) (OrderedMap.mem_ofList (OrderedMap.get?_eq_some_iff.mp hr))

end FxHistory
end Backtesting
