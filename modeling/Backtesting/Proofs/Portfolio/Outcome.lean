import Backtesting.Proofs.Portfolio.Trading

/-!
What becomes of one order. A valid order has an outcome that depends on the order, the commission and
the bar that it is matched against: it is filled as a whole, and the fill goes into the book of its
strategy, or it is rejected, and nothing but counting happens. The order for a holding is for what is
missing of it.
-/
namespace Backtesting

open Backtesting.Action (IsPath bind_eq_ok bind_error bind_ok)

/-- The side on which `desired` is reached from `held`. -/
def TradeAction.toward (held desired : Int) : TradeAction :=
  if 0 < desired - held then .buy else .sell

theorem TradeAction.toward_eq_buy_iff {held desired : Int} :
    toward held desired = .buy ↔ held < desired := by
  unfold toward
  split
  · simp only [true_iff]
    omega
  · simp only [reduceCtorEq, false_iff]
    omega

theorem TradeAction.sign_toward_mul {held desired : Int} :
    (toward held desired).sign * ((desired - held).natAbs : Int) = desired - held := by
  unfold toward
  split <;> simp only [sign] <;> omega

/-- The order for what is missing of an asset. -/
def OrderRequest.toward (n : String) (d : Date) (a : Asset) (held desired : Int)
    (prices : OrderPrices) : OrderRequest where
  date := d
  strategy := n
  asset := a
  action := TradeAction.toward held desired
  type := prices.type
  quantity := .integer (desired - held).natAbs
  primary := prices.primary.map Amount.known
  secondary := prices.secondary.map Amount.known

theorem OrderRequest.validate_toward {n : String} {d : Date} {a : Asset} {held desired : Int}
    {prices : OrderPrices} {o : Order} (h : (toward n d a held desired prices).validate = .ok o) :
    o.date = d ∧ o.strategy = n ∧ o.asset = a ∧ o.action = TradeAction.toward held desired ∧
      o.quantity = (desired - held).natAbs := by
  obtain ⟨hdate, hstrategy, hasset, haction, hquantity⟩ := Portfolio.validate_eq_ok h
  exact ⟨hdate, hstrategy, hasset, haction, (Except.ok.inj hquantity).symm⟩

namespace Portfolio

/-- The terms of an order come from its type and prices that could be read. -/
theorem terms_of_validate {r : OrderRequest} {o : Order} (h : r.validate = .ok o) :
    ∃ primary secondary, r.terms primary secondary = .ok o.terms := by
  obtain ⟨primary, -, h⟩ := Except.bind_eq_ok.mp h
  obtain ⟨secondary, -, h⟩ := Except.bind_eq_ok.mp h
  obtain ⟨quantity, -, h⟩ := Except.bind_eq_ok.mp h
  split at h
  · obtain ⟨terms, hterms, h⟩ := Except.bind_eq_ok.mp h
    obtain ⟨-, -, h⟩ := Except.bind_eq_ok.mp h
    obtain ⟨-, -, h⟩ := Except.bind_eq_ok.mp h
    obtain rfl := Except.pure_eq_ok.mp h
    exact ⟨primary, secondary, hterms⟩
  · exact absurd h Except.throw_ne_ok

variable {d : Date} {n m : String} {a : Asset} {p q r u : Portfolio} {s t : Strategy}
  {held desired : Int}

/-- The bar that an order is matched against. -/
def matchedBar (p : Portfolio) (d : Date) (a : Asset) : Option Bar :=
  (p.venue.getD p.market).bar? d a

/-- What the brokerage would make of an order now. -/
def outcomeOf (p : Portfolio) (o : Order) : Except Error Brokerage.Outcome :=
  Brokerage.execute p.brokerage.commission o (p.matchedBar o.date o.asset)

/-- Orders were counted and rejected, and nothing else has happened. -/
def Idle (p q : Portfolio) : Prop :=
  ∃ signalCount orderCount submitted rejected journal, q = { p with
    signalCount, orderCount, journal
    brokerage := { p.brokerage with submitted, rejected } }

theorem Idle.isPath : IsPath Idle where
  refl p := ⟨_, _, _, _, _, rfl⟩
  trans := by
    rintro p q r ⟨_, _, _, _, _, rfl⟩ ⟨_, _, _, _, _, rfl⟩
    exact ⟨_, _, _, _, _, rfl⟩

theorem submit_snd (o : Order) (p : Portfolio) : (submit o p).2 = p.outcomeOf o := by
  show (p.brokerage.submit (p.venue.getD p.market) o).2 =
    Brokerage.execute p.brokerage.commission o ((p.venue.getD p.market).bar? o.date o.asset)
  unfold Brokerage.submit
  dsimp only
  split <;> simp_all

/-- An order that succeeds has an outcome: a fill that goes into the book of its strategy, or none. -/
theorem handleOrder_outcome {o : OrderRequest} (h : handleOrder o p = (q, .ok ())) :
    ∃ order outcome, o.validate = .ok order ∧ p.outcomeOf order = .ok outcome ∧
      q.orderCount = p.orderCount + 1 ∧
      ((∀ f, outcome ≠ .filled f) ∧ Idle p q ∨
        ∃ f t b, outcome = .filled f ∧ p.strategies.get? f.strategy = some t ∧
          Book.applyFill t.assets f t.book = (b, .ok ()) ∧
          q.strategies = p.strategies.put f.strategy { t with book := b } ∧
          q.fills = p.fills ++ [f]) := by
  obtain ⟨u, _, hread, hvalidated⟩ := bind_eq_ok.mp h
  obtain ⟨hu, -⟩ := Action.read_eq_ok.mp hread
  obtain ⟨v, order, hvalidate, hcounted⟩ := bind_eq_ok.mp hvalidated
  obtain ⟨hv, hvalid⟩ := Action.ofExcept_eq_ok.mp hvalidate
  obtain ⟨w, _, hcount, hsubmitted⟩ := bind_eq_ok.mp hcounted
  rw [Action.modify_eq_ok, hv, hu] at hcount
  obtain ⟨x, outcome, hsubmit, hrest⟩ := bind_eq_ok.mp hsubmitted
  have houtcome : p.outcomeOf order = .ok outcome := by
    have hsnd := submit_snd order w
    rw [hsubmit, hcount] at hsnd
    exact hsnd.symm
  refine ⟨order, outcome, hvalid, houtcome, ?_⟩
  rcases submit_eq_ok hsubmit with ⟨f, rfl, -, hx⟩ | ⟨hrejected, hx⟩
  · obtain ⟨y, _, hlog, hfill⟩ := bind_eq_ok.mp hrest
    obtain rfl := Action.modify_eq_ok.mp hlog
    obtain ⟨t, b, journal, ht, hbook, rfl⟩ := handleFill_eq_ok hfill
    subst hx hcount
    exact ⟨rfl, Or.inr ⟨f, t, b, rfl, ht, hbook, rfl, rfl⟩⟩
  · have hlogged : ∃ journal, q = { x with journal } := by
      cases outcome with
      | noBar => exact ⟨_, Action.modify_eq_ok.mp hrest⟩
      | unmatched close => exact ⟨_, Action.modify_eq_ok.mp hrest⟩
      | filled f => exact absurd rfl (hrejected f)
    obtain ⟨journal, rfl⟩ := hlogged
    subst hx hcount
    exact ⟨rfl, Or.inl ⟨hrejected, _, _, _, _, _, rfl⟩⟩

/-- An order that is valid does what its outcome says. -/
theorem handleOrder_of_valid {o : OrderRequest} {order : Order}
    (hs : p.strategies.get? o.strategy = some s) (hvalid : o.validate = .ok order) :
    (∀ e, p.outcomeOf order = .error e → ∃ q, handleOrder o p = (q, .error e)) ∧
      (∀ outcome, p.outcomeOf order = .ok outcome → (∀ f, outcome ≠ .filled f) →
        ∃ q, handleOrder o p = (q, .ok ()) ∧ Idle p q) ∧
      ∀ f, p.outcomeOf order = .ok (.filled f) →
        ∃ u, u.strategies = p.strategies ∧ u.fills = p.fills ∧
          handleOrder o p = handleFill f u := by
  have hknown : Action.read (·.strategy o.strategy) p = (p, .ok s) :=
    Action.read_eq_ok.mpr ⟨rfl, strategy_eq_ok.mpr hs⟩
  have hread : Action.ofExcept o.validate p = (p, .ok order) :=
    Action.ofExcept_eq_ok.mpr ⟨rfl, hvalid⟩
  let counted : Portfolio := { p with orderCount := p.orderCount + 1 }
  have hcount : Action.modify (fun p : Portfolio => { p with orderCount := p.orderCount + 1 }) p =
      (counted, .ok ()) := rfl
  have hsubmit : ∀ {outcome}, p.outcomeOf order = outcome →
      submit order counted = ((submit order counted).1, outcome) :=
    fun houtcome => Prod.ext rfl ((submit_snd order counted).trans houtcome)
  unfold handleOrder
  rw [bind_ok hknown, bind_ok hread, bind_ok hcount]
  refine ⟨fun e houtcome => ⟨_, bind_error (hsubmit houtcome)⟩,
    fun outcome houtcome hrejected => ?_, fun f houtcome => ?_⟩
  · rw [bind_ok (hsubmit houtcome)]
    have hidle : Idle p (submit order counted).1 := by
      rcases submit_eq_ok (hsubmit houtcome) with ⟨f, hfilled, -⟩ | ⟨-, hx⟩
      · exact absurd hfilled (hrejected f)
      · rw [hx]
        exact ⟨_, _, _, _, _, rfl⟩
    have hlogged : ∀ level text, ∃ q, log level text (submit order counted).1 = (q, .ok ()) ∧
        Idle p q :=
      fun level text => ⟨_, rfl, Idle.isPath.trans hidle ⟨_, _, _, _, _, rfl⟩⟩
    cases outcome with
    | noBar => exact hlogged _ _
    | unmatched close => exact hlogged _ _
    | filled f => exact absurd rfl (hrejected f)
  · rw [bind_ok (hsubmit houtcome)]
    obtain ⟨-, hx⟩ := submit_filled (hsubmit houtcome)
    refine ⟨_, ?_, ?_, bind_ok rfl⟩
    · rw [hx]
    · rw [hx]

/-- Nothing is ordered where nothing is missing, else what is missing is ordered. -/
theorem submitTarget_eq (hs : p.strategies.get? n = some s) (e : Asset × Int) :
    (s.position e.1 = e.2 → submitTarget n d e p = (p, .ok ())) ∧
      ∀ {prices}, s.position e.1 ≠ e.2 →
        s.pricing.prices p.market d e.1 (TradeAction.toward (s.position e.1) e.2) = .ok prices →
        submitTarget n d e p =
          handleOrder (OrderRequest.toward n d e.1 (s.position e.1) e.2 prices) p := by
  have hknown : Action.read (·.strategy n) p = (p, .ok s) :=
    Action.read_eq_ok.mpr ⟨rfl, strategy_eq_ok.mpr hs⟩
  unfold submitTarget
  rw [bind_ok hknown]
  dsimp only
  refine ⟨fun hreached => ?_, fun {prices} hmissing hprices => ?_⟩
  · rw [if_pos (by omega)]
    rfl
  · have hpriced : Action.read (fun p : Portfolio => s.pricing.prices p.market d e.1
        (TradeAction.toward (s.position e.1) e.2)) p = (p, .ok prices) :=
      Action.read_eq_ok.mpr ⟨rfl, hprices⟩
    rw [if_neg (by omega)]
    exact bind_ok hpriced

theorem submitTarget_cases {e : Asset × Int} (h : submitTarget n d e p = (q, .ok ())) :
    ∃ s, p.strategies.get? n = some s ∧ (s.position e.1 = e.2 ∧ q = p ∨
      s.position e.1 ≠ e.2 ∧ ∃ prices,
        s.pricing.prices p.market d e.1 (TradeAction.toward (s.position e.1) e.2) = .ok prices ∧
        handleOrder (OrderRequest.toward n d e.1 (s.position e.1) e.2 prices) p = (q, .ok ())) := by
  obtain ⟨u, s, hread, hrest⟩ := bind_eq_ok.mp h
  obtain ⟨rfl, hknown⟩ := Action.read_eq_ok.mp hread
  refine ⟨s, strategy_eq_ok.mp hknown, ?_⟩
  dsimp only at hrest
  split at hrest
  · obtain ⟨rfl, -⟩ := Action.pure_eq_ok.mp hrest
    exact Or.inl ⟨by omega, rfl⟩
  · obtain ⟨v, prices, hprices, horder⟩ := bind_eq_ok.mp hrest
    obtain ⟨rfl, hpriced⟩ := Action.read_eq_ok.mp hprices
    exact Or.inr ⟨by omega, prices, hpriced, horder⟩

end Portfolio
end Backtesting
