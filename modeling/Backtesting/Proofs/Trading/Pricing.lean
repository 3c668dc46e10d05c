import Backtesting.Proofs.Decimal.Faithful
import Backtesting.Proofs.Decimal.Order
import Backtesting.Trading.Brokerage
import Backtesting.Trading.Pricing

/-!
Orders that meet the close they are priced from. An offset moves a price away from the close on the
side that its sign says, and no rounding brings the price to the other side of a close that fits; so a
limit that gives way is met at once, as is a stop that has been passed already. Where nothing is
rounded nothing else is filled.
-/
namespace Backtesting

open Decimal (Fits)

variable {action : TradeAction} {close offset x : Decimal} {o : Ordering}

namespace TradeAction

/-- A comparison as the two sides see it: what is more to the buyer is less to the seller. -/
def turned : TradeAction → Ordering → Ordering
  | buy, o => o
  | sell, o => o.swap

@[simp] theorem turned_turned (action : TradeAction) (o : Ordering) :
    action.turned (action.turned o) = o := by
  cases action <;> cases o <;> rfl

@[simp] theorem turned_eq (action : TradeAction) : action.turned .eq = .eq := by
  cases action <;> rfl

theorem compares_turned (h : o.Compares offset.value 0) (action : TradeAction) :
    (action.turned o).Compares (action.sign * offset.value) 0 := by
  cases action with
  | buy => simpa [turned, sign] using h
  | sell =>
    have hneg := Decimal.compares_neg (Ordering.compares_swap.mpr h)
    simpa [turned, sign] using hneg

end TradeAction

namespace Order

theorem limitMet_of_ordering (h : Decimal.ordering? x close = some (action.turned o)) :
    limitMet action x close = .ok (o != .lt) := by
  cases action with
  | buy => exact Decimal.ordered_of_ordering h _
  | sell =>
    refine (Decimal.ordered_of_ordering h _).trans ?_
    cases o <;> rfl

theorem stopMet_of_ordering (h : Decimal.ordering? x close = some (action.turned o)) :
    stopMet action x close = .ok (o != .gt) := by
  cases action with
  | buy => exact Decimal.ordered_of_ordering h _
  | sell =>
    refine (Decimal.ordered_of_ordering h _).trans ?_
    cases o <;> rfl

variable {order : Order} {secondary : Option Decimal} {trigger : Decimal} {met reached : Bool}

theorem fillPrice_limit (hterms : order.terms = .limit x secondary)
    (h : limitMet order.action x close = .ok met) :
    order.fillPrice close = .ok (if met then some x else none) := by
  simp only [fillPrice, hterms, h, Except.ok_bind]
  rfl

theorem fillPrice_stop (hterms : order.terms = .stop x secondary)
    (h : stopMet order.action x close = .ok met) :
    order.fillPrice close = .ok (if met then some x else none) := by
  simp only [fillPrice, hterms, h, Except.ok_bind]
  rfl

theorem fillPrice_stopLimit (hterms : order.terms = .stopLimit trigger x)
    (hstop : stopMet order.action trigger close = .ok reached)
    (hlimit : limitMet order.action x close = .ok met) :
    order.fillPrice close = .ok (if reached && met then some x else none) := by
  simp only [fillPrice, hterms, hstop, hlimit, Except.ok_bind]
  cases reached <;> rfl

end Order

section OffsetPrice

/-- The exact price that an offset leads to. -/
def exactPrice (close : Decimal) (action : TradeAction) (offset : Decimal) : ℚ :=
  close.value * (1 + action.sign * offset.value / 10000)

theorem value_tenThousand : (10000 : Decimal).value = 10000 := by
  exact_mod_cast Decimal.value_ofInt 10000

/-- A price is on the side of the close on which its offset puts it, or it is the close. -/
theorem offsetPrice_side (hclose : 0 < close.value) (hfits : Fits close.value)
    (hoffset : offset.IsFinite) (h : offsetPrice close action offset = .ok x) :
    x.IsFinite ∧ (0 ≤ (action.sign : ℚ) * offset.value → close.value ≤ x.value) ∧
      ((action.sign : ℚ) * offset.value ≤ 0 → x.value ≤ close.value) := by
  obtain ⟨sided, hsided, h⟩ := Except.bind_eq_ok.mp h
  obtain ⟨part, hpart, h⟩ := Except.bind_eq_ok.mp h
  obtain ⟨factor, hfactor, h⟩ := Except.bind_eq_ok.mp h
  have hscale : (10000 : Decimal).value ≠ 0 := by
    rw [value_tenThousand]
    norm_num
  have hsign : (Decimal.ofInt action.sign).IsFinite := trivial
  have hone : (1 : Decimal).IsFinite := trivial
  have hsidedfinite := (Decimal.near_mul hsign hoffset hsided).1
  have hpartfinite := (Decimal.near_div hsidedfinite hscale hpart).1
  have hfactorfinite := Decimal.isFinite_add hone hpartfinite hfactor
  have hclosefinite := Decimal.isFinite_of_pos hclose
  have hzero : Fits 0 := by exact_mod_cast Decimal.fits_intCast (i := 0) (by decide)
  have hunit : Fits 1 := by exact_mod_cast Decimal.fits_intCast (i := 1) (by decide)
  obtain ⟨hsidedup, hsideddown⟩ := Decimal.faithful_mul hsign hoffset hsided 0 hzero
  obtain ⟨hpartup, hpartdown⟩ := Decimal.faithful_div hsidedfinite hscale hpart 0 hzero
  obtain ⟨hfactorup, hfactordown⟩ := Decimal.faithful_add hone hpartfinite hfactor 1 hunit
  obtain ⟨hup, hdown⟩ := Decimal.faithful_mul hclosefinite hfactorfinite h close.value hfits
  rw [Decimal.value_ofInt] at hsidedup hsideddown
  rw [value_tenThousand] at hpartup hpartdown
  rw [Decimal.value_one] at hfactorup hfactordown
  refine ⟨(Decimal.near_mul hclosefinite hfactorfinite h).1, fun hside => ?_, fun hside => ?_⟩
  · have hpartside : 0 ≤ part.value := hpartup (div_nonneg (hsidedup hside) (by norm_num))
    have hfactorside : 1 ≤ factor.value := hfactorup (by linarith)
    exact hup (le_mul_of_one_le_right hclose.le hfactorside)
  · have hpartside : part.value ≤ 0 :=
      hpartdown (div_nonpos_of_nonpos_of_nonneg (hsideddown hside) (by norm_num))
    have hfactorside : factor.value ≤ 1 := hfactordown (by linarith)
    exact hdown (mul_le_of_le_one_right hclose.le hfactorside)

theorem compares_exactPrice (hclose : 0 < close.value)
    (h : o.Compares ((action.sign : ℚ) * offset.value) 0) :
    o.Compares (exactPrice close action offset) close.value := by
  have hmono : StrictMono fun side : ℚ => close.value * (1 + side / 10000) := by
    intro side side' hlt
    exact mul_lt_mul_of_pos_left (by linarith) hclose
  simpa [exactPrice] using hmono.compares.mpr h

/-- What moves no way but the one that `r` says moves that way or stays. -/
theorem eq_or_eq_of_compares {r : Ordering} {y v w : ℚ} (ho : o.Compares v w) (hr : r.Compares y 0)
    (hup : 0 ≤ y → w ≤ v) (hdown : y ≤ 0 → v ≤ w) : o = r ∨ o = .eq := by
  cases r with
  | lt =>
    have hmore : o ≠ .gt := ho.ne_gt.mpr (hdown (le_of_lt hr))
    cases o <;> simp at hmore ⊢
  | eq =>
    have hsame : y = 0 := hr
    exact Or.inl (ho.eq_eq.mpr (le_antisymm (hdown hsame.le) (hup hsame.ge)))
  | gt =>
    have hless : o ≠ .lt := ho.ne_lt.mpr (hup (le_of_lt hr))
    cases o <;> simp at hless ⊢

theorem offsetPrice_infinity {k : Nat} (hk : k ≠ 0) (e : Int) (action : TradeAction) (n : Bool) :
    offsetPrice (.finite false k e) action (.infinity n) =
      .ok (.infinity ((action == .sell) != n)) := by
  have hclose : ∀ m, (Decimal.finite false k e).mul (.infinity m) = .ok (.infinity m) := by
    intro m
    show (if k = 0 then _ else _) = _
    rw [if_neg hk]
    cases m <;> rfl
  cases action with
  | buy => cases n <;> exact hclose _
  | sell => cases n <;> exact hclose _

/-- The price of an offset stands to the close as the offset stands to zero, seen from the side of
the action, or it is rounded to the close itself. -/
theorem exists_ordering_offsetPrice (hclose : 0 < close.value) (hfits : Fits close.value)
    (hoffset : offset.extended ≠ .undefined) (h : offsetPrice close action offset = .ok x) :
    ∃ o o', offset.ordering? 0 = some o ∧ x.ordering? close = some (action.turned o') ∧
      (o' = o ∨ o' = .eq) ∧
      ((offset.IsFinite → x.value = exactPrice close action offset) → o' = o) := by
  cases offset with
  | nan n signaling p => exact absurd rfl hoffset
  | infinity n =>
    obtain ⟨k, e, rfl, hk⟩ := Decimal.eq_finite_of_pos hclose
    rw [offsetPrice_infinity hk] at h
    obtain rfl := Except.ok.inj h
    refine ⟨if n then .lt else .gt, if n then .lt else .gt, rfl, ?_, Or.inl rfl, fun _ => rfl⟩
    cases action <;> cases n <;> rfl
  | finite n k e =>
    have hfinite : (Decimal.finite n k e).IsFinite := trivial
    obtain ⟨hx, hup, hdown⟩ := offsetPrice_side hclose hfits hfinite h
    obtain ⟨o, ho, hside⟩ := Decimal.exists_ordering (b := Decimal.zero) hfinite trivial
    obtain ⟨r, hr, hmoved⟩ := Decimal.exists_ordering hx (Decimal.isFinite_of_pos hclose)
    rw [Decimal.value_zero] at hside
    have hturned := TradeAction.compares_turned hside action
    have hplaced : x.ordering? close = some (action.turned (action.turned r)) := by
      rw [TradeAction.turned_turned]
      exact hr
    refine ⟨o, action.turned r, ho, hplaced, ?_, fun hexact => ?_⟩
    · rcases eq_or_eq_of_compares hmoved hturned hup hdown with rfl | rfl
      · exact Or.inl (TradeAction.turned_turned action o)
      · exact Or.inr (TradeAction.turned_eq action)
    · rw [hexact hfinite] at hmoved
      rw [hmoved.inj (compares_exactPrice hclose hturned), TradeAction.turned_turned]

/-- An offset that is not a number leads to no price that is one. -/
theorem extended_offsetPrice (hoffset : offset.extended = .undefined)
    (h : offsetPrice close action offset = .ok x) : x.extended = .undefined := by
  obtain ⟨sided, hsided, h⟩ := Except.bind_eq_ok.mp h
  obtain ⟨part, hpart, h⟩ := Except.bind_eq_ok.mp h
  obtain ⟨factor, hfactor, h⟩ := Except.bind_eq_ok.mp h
  have hsided' := Decimal.handsOn_mul.extended_eq hsided fun hboth => hboth.2 hoffset
  have hpart' := Decimal.handsOn_div.extended_eq hpart fun hboth => hboth.1 hsided'
  have hfactor' := Decimal.handsOn_add.extended_eq hfactor fun hboth => hboth.2 hpart'
  exact Decimal.handsOn_mul.extended_eq h fun hboth => hboth.2 hfactor'

end OffsetPrice

namespace OrderRequest

variable {p : Option Decimal} {field : String}

theorem requirePositive_eq_ok :
    requirePositive field p = .ok () ↔ ∀ x ∈ p, x.isAtMost 0 = .ok false := by
  cases p with
  | none => simp [requirePositive]
  | some x =>
    cases hx : x.isAtMost 0 with
    | error f => simp [requirePositive, hx, Decimal.lift, Except.mapError, bind, Except.bind]
    | ok low => cases low <;> simp [requirePositive, hx]

/-- A number that is not above zero is refused as a price. -/
theorem requirePositive_of_not_positive (hnumber : ∀ x ∈ p, x.extended ≠ .undefined)
    (h : ¬ ∀ x ∈ p, x.isAtMost 0 = .ok false) :
    ∃ e, requirePositive field p = .error e ∧ e.label? = some "OrderValidationError" := by
  cases p with
  | none => exact absurd (fun x hx => nomatch hx) h
  | some x =>
    cases hx : x.isAtMost 0 with
    | error f => exact absurd (Decimal.isAtMost_zero_eq_error hx).2 (hnumber x rfl)
    | ok low =>
      cases low with
      | false =>
        refine absurd (fun y hy => ?_) h
        obtain rfl := Option.some.inj hy
        exact hx
      | true =>
        refine ⟨.orderPrice field x, ?_, rfl⟩
        simp [requirePositive, hx]
        rfl

end OrderRequest

namespace OrderPrices

/-- The request that names these prices. -/
def request (prices : OrderPrices) (d : Date) (n : String) (a : Asset) (action : TradeAction)
    (quantity : Document) : OrderRequest where
  date := d
  strategy := n
  asset := a
  action := action
  type := prices.type
  quantity := quantity
  primary := prices.primary.map .known
  secondary := prices.secondary.map .known

/-- All prices are above zero. -/
def Positive (prices : OrderPrices) : Prop :=
  (∀ p ∈ prices.primary, p.isAtMost 0 = .ok false) ∧
    ∀ p ∈ prices.secondary, p.isAtMost 0 = .ok false

/-- No price is a NaN. -/
def Defined (prices : OrderPrices) : Prop :=
  (∀ p ∈ prices.primary, p.extended ≠ .undefined) ∧ ∀ p ∈ prices.secondary, p.extended ≠ .undefined

/-- The price at which an order with these prices is filled, where it is. -/
def paid? (prices : OrderPrices) (close : Decimal) : Option Decimal :=
  match prices.type with
  | .market => some close
  | .limit => prices.primary
  | .stop => prices.primary
  | .stopLimit => prices.secondary

variable {prices : OrderPrices} {d : Date} {n : String} {a : Asset} {quantity : Document} {k : Int}

theorem positive_of_primary {t : OrderType} (h : x.isAtMost 0 = .ok false) :
    (⟨t, some x, none⟩ : OrderPrices).Positive := by
  refine ⟨?_, by rintro p ⟨⟩⟩
  rintro p ⟨⟩
  exact h

theorem validate_request (hquantity : OrderRequest.wholeQuantity quantity = .ok k) (hk : 0 < k)
    {t : OrderTerms} (hterms : (prices.request d n a action quantity).terms prices.primary
      prices.secondary = .ok t) :
    (prices.request d n a action quantity).validate =
      OrderRequest.requirePositive "primary_price" prices.primary >>= fun _ =>
        OrderRequest.requirePositive "secondary_price" prices.secondary >>= fun _ =>
          .ok ⟨d, n, a, action, t, k, hk⟩ := by
  have hread : ∀ p : Option Decimal, OrderRequest.readPrice (p.map .known) = .ok p := by
    intro p
    cases p <;> rfl
  have hprimary : OrderRequest.readPrice (prices.request d n a action quantity).primary =
      .ok prices.primary := hread _
  have hsecondary : OrderRequest.readPrice (prices.request d n a action quantity).secondary =
      .ok prices.secondary := hread _
  have hcount : OrderRequest.wholeQuantity (prices.request d n a action quantity).quantity =
      .ok k := hquantity
  unfold OrderRequest.validate
  rw [hprimary, hsecondary, hcount]
  simp only [Except.ok_bind]
  rw [dif_pos hk, hterms]
  rfl

/-- A request with prices that its type has is an order if they are above zero. -/
theorem validate_of_positive (hquantity : OrderRequest.wholeQuantity quantity = .ok k) (hk : 0 < k)
    {t : OrderTerms} (hterms : (prices.request d n a action quantity).terms prices.primary
      prices.secondary = .ok t) (hpositive : prices.Positive) :
    (prices.request d n a action quantity).validate = .ok ⟨d, n, a, action, t, k, hk⟩ := by
  rw [validate_request hquantity hk hterms,
    OrderRequest.requirePositive_eq_ok.mpr hpositive.1,
    OrderRequest.requirePositive_eq_ok.mpr hpositive.2]
  rfl

/-- A price that is not above zero makes no order. -/
theorem validate_of_not_positive (hquantity : OrderRequest.wholeQuantity quantity = .ok k)
    (hk : 0 < k) {t : OrderTerms} (hterms : (prices.request d n a action quantity).terms
      prices.primary prices.secondary = .ok t) (hdefined : prices.Defined)
    (hlow : ¬ prices.Positive) :
    ∃ e, (prices.request d n a action quantity).validate = .error e ∧
      e.label? = some "OrderValidationError" := by
  rw [validate_request hquantity hk hterms]
  by_cases hprimary : ∀ p ∈ prices.primary, p.isAtMost 0 = .ok false
  · have hsecondary : ¬ ∀ p ∈ prices.secondary, p.isAtMost 0 = .ok false :=
      fun hsecondary => hlow ⟨hprimary, hsecondary⟩
    obtain ⟨e, he, hlabel⟩ := OrderRequest.requirePositive_of_not_positive hdefined.2 hsecondary
    refine ⟨e, ?_, hlabel⟩
    rw [OrderRequest.requirePositive_eq_ok.mpr hprimary, he]
    rfl
  · obtain ⟨e, he, hlabel⟩ := OrderRequest.requirePositive_of_not_positive hdefined.1 hprimary
    refine ⟨e, ?_, hlabel⟩
    rw [he]
    rfl

end OrderPrices

namespace Pricing

def offsets : Pricing → List Decimal
  | closePrice => []
  | limit offset => [offset]
  | stop offset => [offset]
  | stopLimit stopOffset limitOffset => [stopOffset, limitOffset]

/-- Limits give way to the other side, and stops are such as the close has passed. -/
def Concedes : Pricing → Prop
  | closePrice => True
  | limit offset => offset.isAtLeast 0 = .ok true
  | stop offset => offset.isAtMost 0 = .ok true
  | stopLimit stopOffset limitOffset =>
      stopOffset.isAtMost 0 = .ok true ∧ limitOffset.isAtLeast 0 = .ok true

/-- No price is rounded on its way from the close; an infinite one is not. -/
def RoundsNothing (p : Pricing) (close : Decimal) (action : TradeAction) : Prop :=
  ∀ offset ∈ p.offsets, ∀ x, offsetPrice close action offset = .ok x → offset.IsFinite →
    x.value = exactPrice close action offset

/-- How a price that could be had, and is above zero, is met by the close. -/
theorem met_of_offsetPrice (hclose : 0 < close.value) (hfits : Fits close.value)
    (h : offsetPrice close action offset = .ok x) (hx : x.isAtMost 0 = .ok false) :
    ∃ limit stop, Order.limitMet action x close = .ok limit ∧
      Order.stopMet action x close = .ok stop ∧
      (offset.isAtLeast 0 = .ok true → limit = true) ∧
      (offset.isAtMost 0 = .ok true → stop = true) ∧
      ((offset.IsFinite → x.value = exactPrice close action offset) →
        (limit = true → offset.isAtLeast 0 = .ok true) ∧
          (stop = true → offset.isAtMost 0 = .ok true)) := by
  have hoffset : offset.extended ≠ .undefined := by
    intro hundefined
    exact Decimal.extended_of_isAtMost_zero hx (extended_offsetPrice hundefined h)
  obtain ⟨o, o', ho, ho', hor, hexact⟩ := exists_ordering_offsetPrice hclose hfits hoffset h
  have hleast : offset.isAtLeast 0 = .ok (o != .lt) := Decimal.ordered_of_ordering ho _
  have hmost : offset.isAtMost 0 = .ok (o != .gt) := Decimal.ordered_of_ordering ho _
  refine ⟨_, _, Order.limitMet_of_ordering ho', Order.stopMet_of_ordering ho', ?_, ?_, fun h => ?_⟩
  · rw [hleast]
    rcases hor with rfl | rfl
    · exact Except.ok.inj
    · exact fun _ => rfl
  · rw [hmost]
    rcases hor with rfl | rfl
    · exact Except.ok.inj
    · exact fun _ => rfl
  · obtain rfl := hexact h
    exact ⟨fun hmet => hmet ▸ hleast, fun hmet => hmet ▸ hmost⟩

/-- What is filled if it is met is filled where it concedes, if only conceding makes it met. -/
theorem filled_of_conceding {concedes exact : Prop} {met : Bool} (hgives : concedes → met = true)
    (honly : exact → met = true → concedes) (paid : Decimal) :
    (concedes → (if met then some paid else none) = some paid) ∧
      (exact → ¬ concedes → (if met then some paid else none) = none) := by
  refine ⟨fun h => if_pos (hgives h), fun hexact h => if_neg fun hmet => h (honly hexact hmet)⟩

variable {p : Pricing} {prices : OrderPrices}

/-- What the prices of a policy make of an order, and when the close they come from meets it. -/
theorem exists_terms (hclose : 0 < close.value) (hfits : Fits close.value)
    (h : p.pricesAt close action = .ok prices) :
    ∃ t, (∀ d n a quantity, (prices.request d n a action quantity).terms prices.primary
        prices.secondary = .ok t) ∧
      (prices.Positive → ∃ paid, prices.paid? close = some paid ∧
        ∀ order : Order, order.action = action → order.terms = t →
          ∃ filled, order.fillPrice close = .ok filled ∧ (p.Concedes → filled = some paid) ∧
            (p.RoundsNothing close action → ¬ p.Concedes → filled = none)) := by
  cases p with
  | closePrice =>
    obtain rfl := Except.ok.inj h
    refine ⟨.market (some close) none, fun _ _ _ _ => rfl, fun _ => ⟨close, rfl, ?_⟩⟩
    intro order _ hterms
    refine ⟨some close, ?_, fun _ => rfl, fun _ hnever => absurd trivial hnever⟩
    rw [Order.fillPrice, hterms]
  | limit offset =>
    obtain ⟨x, hx, h⟩ := Except.bind_eq_ok.mp h
    obtain rfl := Except.pure_eq_ok.mp h
    refine ⟨.limit x none, fun _ _ _ _ => rfl, fun hpositive => ⟨x, rfl, ?_⟩⟩
    rintro order rfl hterms
    obtain ⟨met, _, hmet, -, hgives, -, hexact⟩ :=
      met_of_offsetPrice hclose hfits hx (hpositive.1 x rfl)
    refine ⟨_, Order.fillPrice_limit hterms hmet, filled_of_conceding hgives (fun hnothing => ?_) x⟩
    exact (hexact (hnothing offset List.mem_cons_self x hx)).1
  | stop offset =>
    obtain ⟨x, hx, h⟩ := Except.bind_eq_ok.mp h
    obtain rfl := Except.pure_eq_ok.mp h
    refine ⟨.stop x none, fun _ _ _ _ => rfl, fun hpositive => ⟨x, rfl, ?_⟩⟩
    rintro order rfl hterms
    obtain ⟨_, met, -, hmet, -, hpassed, hexact⟩ :=
      met_of_offsetPrice hclose hfits hx (hpositive.1 x rfl)
    refine ⟨_, Order.fillPrice_stop hterms hmet, filled_of_conceding hpassed (fun hnothing => ?_) x⟩
    exact (hexact (hnothing offset List.mem_cons_self x hx)).2
  | stopLimit stopOffset limitOffset =>
    obtain ⟨trigger, htrigger, h⟩ := Except.bind_eq_ok.mp h
    obtain ⟨x, hx, h⟩ := Except.bind_eq_ok.mp h
    obtain rfl := Except.pure_eq_ok.mp h
    refine ⟨.stopLimit trigger x, fun _ _ _ _ => rfl, fun hpositive => ⟨x, rfl, ?_⟩⟩
    rintro order rfl hterms
    obtain ⟨_, reached, -, hreached, -, hpassed, hstop⟩ :=
      met_of_offsetPrice hclose hfits htrigger (hpositive.1 trigger rfl)
    obtain ⟨met, _, hmet, -, hgives, -, hlimit⟩ :=
      met_of_offsetPrice hclose hfits hx (hpositive.2 x rfl)
    refine ⟨_, Order.fillPrice_stopLimit hterms hreached hmet,
      filled_of_conceding (fun hoffsets => ?_) (fun hnothing hboth => ?_) x⟩
    · rw [hpassed hoffsets.1, hgives hoffsets.2]
      rfl
    · obtain ⟨hreached', hmet'⟩ := Bool.and_eq_true_iff.mp hboth
      have hfirst := hnothing stopOffset List.mem_cons_self trigger htrigger
      have hsecond := hnothing limitOffset (List.mem_cons_of_mem _ List.mem_cons_self) x hx
      exact ⟨(hstop hfirst).2 hreached', (hlimit hsecond).1 hmet'⟩

/-- An order with the prices that a policy makes of a close that fits is met by this close where the
offsets concede, and only there if nothing is rounded: their signs decide, not the side and not the
close. Prices that are numbers, but not all above zero, make no order. -/
theorem order_meets_its_close (hclose : 0 < close.value) (hfits : Fits close.value)
    (hprices : p.pricesAt close action = .ok prices) {quantity : Document} {k : Int}
    (hquantity : OrderRequest.wholeQuantity quantity = .ok k) (hk : 0 < k) (d : Date) (n : String)
    (a : Asset) :
    (prices.Positive →
        ∃ order paid filled, (prices.request d n a action quantity).validate = .ok order ∧
          prices.paid? close = some paid ∧ order.fillPrice close = .ok filled ∧
          (p.Concedes → filled = some paid) ∧
          (p.RoundsNothing close action → ¬ p.Concedes → filled = none)) ∧
      (prices.Defined → ¬ prices.Positive →
        ∃ e, (prices.request d n a action quantity).validate = .error e ∧
          e.label? = some "OrderValidationError") := by
  obtain ⟨t, hterms, hfilled⟩ := exists_terms hclose hfits hprices
  have hcomplete := hterms d n a quantity
  refine ⟨fun hpositive => ?_, OrderPrices.validate_of_not_positive hquantity hk hcomplete⟩
  obtain ⟨paid, hpaid, hmeets⟩ := hfilled hpositive
  have hvalid := OrderPrices.validate_of_positive hquantity hk hcomplete hpositive
  obtain ⟨filled, hfill, hmet⟩ := hmeets ⟨d, n, a, action, t, k, hk⟩ rfl rfl
  exact ⟨_, paid, filled, hvalid, hpaid, hfill, hmet⟩

/-- Sold at 100.00 with a stop of 50 and a limit of 25 basis points: the stop of 100.50 has been
passed, and the order is filled at 99.75. Bought with the opposite limit it is not filled, and a limit
that takes all of the price off makes no order. -/
theorem order_meets_its_close_at_limit :
    let close : Decimal := .finite false 10000 (-2)
    let sold : Pricing := .stopLimit (.finite true 50 0) (.finite false 25 0)
    let limit : Decimal := .finite false 99750000 (-6)
    let soldAt : OrderPrices := ⟨.stopLimit, some (.finite false 10050000 (-5)), some limit⟩
    let bought : Pricing := .limit (.finite true 25 0)
    let boughtAt : OrderPrices := ⟨.limit, some limit, none⟩
    let freeAt : OrderPrices := ⟨.limit, some (.finite false 0 (-2)), none⟩
    let d : Date := ⟨2024, 1, 2, by decide, by decide, by decide⟩
    sold.pricesAt close .sell = .ok soldAt ∧ sold.Concedes ∧
      (∃ order, (soldAt.request d "S" "A" .sell (.integer 3)).validate = .ok order ∧
        order.fillPrice close = .ok (some limit)) ∧
      bought.pricesAt close .buy = .ok boughtAt ∧ bought.RoundsNothing close .buy ∧
      (∃ order, (boughtAt.request d "S" "A" .buy (.integer 3)).validate = .ok order ∧
        order.fillPrice close = .ok none) ∧
      (Pricing.limit (.finite true 10000 0)).pricesAt close .buy = .ok freeAt ∧
      ∃ e, (freeAt.request d "S" "A" .buy (.integer 3)).validate = .error e ∧
        e.label? = some "OrderValidationError" := by
  intro close sold limit soldAt bought boughtAt freeAt d
  have hclose : close.value = 100 := by norm_num [close, Decimal.value, Decimal.signed]
  have hfits : Fits close.value := ⟨100, 0, by norm_num [hclose], by decide, by decide⟩
  have hpos : 0 < close.value := by norm_num [hclose]
  have hsold : sold.pricesAt close .sell = .ok soldAt := rfl
  have hbought : bought.pricesAt close .buy = .ok boughtAt := rfl
  have hconcedes : sold.Concedes := ⟨rfl, rfl⟩
  have hnothing : bought.RoundsNothing close .buy := by
    intro offset hoffset x hx _
    obtain rfl := List.mem_singleton.mp hoffset
    obtain rfl : limit = x := Except.ok.inj hx
    rw [exactPrice, hclose]
    norm_num [limit, Decimal.value, Decimal.signed, TradeAction.sign]
  have hthree : OrderRequest.wholeQuantity (.integer 3) = .ok 3 := rfl
  have hnever : ¬ bought.Concedes := fun h => Bool.noConfusion (Except.ok.inj h)
  have hfree : (Pricing.limit (.finite true 10000 0)).pricesAt close .buy = .ok freeAt := rfl
  have hdefined : freeAt.Defined := by simp [OrderPrices.Defined, freeAt, Decimal.extended]
  have hzero : ¬ freeAt.Positive := fun h => Bool.noConfusion (Except.ok.inj (h.1 _ rfl))
  refine ⟨hsold, hconcedes, ?_, hbought, hnothing, ?_, hfree, ?_⟩
  · obtain ⟨order, paid, filled, hvalid, hpaid, hfill, hgives, -⟩ :=
      (order_meets_its_close hpos hfits hsold hthree (by decide) d "S" "A").1
        ⟨by rintro p ⟨⟩; rfl, by rintro p ⟨⟩; rfl⟩
    obtain rfl : limit = paid := Option.some.inj hpaid
    exact ⟨order, hvalid, by rw [hfill, hgives hconcedes]⟩
  · obtain ⟨order, paid, filled, hvalid, -, hfill, -, honly⟩ :=
      (order_meets_its_close hpos hfits hbought hthree (by decide) d "S" "A").1
        (OrderPrices.positive_of_primary rfl)
    exact ⟨order, hvalid, by rw [hfill, honly hnothing hnever]⟩
  · exact (order_meets_its_close hpos hfits hfree hthree (by decide) d "S" "A").2 hdefined hzero

/-- A close with a digit below the smallest place is no result: times one it is another number. Here
a limit without any offset is above the close, so an order to sell at it is not filled. -/
theorem lost_digit_unmet :
    let close : Decimal := .finite false 15 (-1000027)
    let prices : OrderPrices := ⟨.limit, some (.finite false 2 (-1000026)), none⟩
    let d : Date := ⟨2024, 1, 2, by decide, by decide, by decide⟩
    0 < close.value ∧ (limit 0).pricesAt close .sell = .ok prices ∧ prices.Positive ∧
      (limit 0).Concedes ∧
      ∃ order, (prices.request d "S" "A" .sell (.integer 3)).validate = .ok order ∧
        order.fillPrice close = .ok none := by
  intro close prices d
  have hclose : 0 < close.value := by
    show (0 : ℚ) < (Decimal.signed false 15 : Int) * 10 ^ (-1000027 : Int)
    simp only [Decimal.signed, Bool.false_eq_true, if_false]
    positivity
  refine ⟨hclose, rfl, OrderPrices.positive_of_primary rfl, rfl, ?_⟩
  exact ⟨⟨d, "S", "A", .sell, .limit (.finite false 2 (-1000026)) none, 3, by decide⟩, rfl, rfl⟩

end Pricing

end Backtesting
