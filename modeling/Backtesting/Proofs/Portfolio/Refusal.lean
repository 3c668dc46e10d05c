import Backtesting.Proofs.Portfolio.Day
import Backtesting.Proofs.Portfolio.Trading

/-!
Refused orders and fills. What is asked of a portfolio before anything is written is whether there
is such a strategy and whether the order is valid. From then on the order counts as an attempt, and
the brokerage keeps the fill it made even when the book of the strategy does not take it. No book is
paid, and no fill or rejection recorded, for what was refused.
-/
namespace Backtesting

open Backtesting.Action (bind_eq_ok bind_eq_error)

/-- A credit fails by arithmetic alone. -/
theorem Book.credit_eq_error {b : Book} {c : Currency} {x : Except Decimal.Fault Decimal}
    {e : Error} (h : (do b.credit c (← Decimal.lift x)) = .error e) :
    ∃ fault, e = .decimal fault := by
  rcases Except.bind_eq_error.mp h with hflow | ⟨amount, -, hcredit⟩
  · obtain ⟨fault, -, rfl⟩ := Decimal.lift_eq_error.mp hflow
    exact ⟨fault, rfl⟩
  · rcases Except.bind_eq_error.mp hcredit with hsum | ⟨sum, -, hpure⟩
    · obtain ⟨fault, -, rfl⟩ := Decimal.lift_eq_error.mp hsum
      exact ⟨fault, rfl⟩
    · simp [pure, Except.pure] at hpure

/-- A book refuses the fill of an asset without a currency as a whole; any other fill is refused by
the arithmetic of its cash. -/
theorem Book.applyFill_eq_error {l : Listings} {f : Fill} {b c : Book} {e : Error}
    (h : Book.applyFill l f b = (c, .error e)) :
    (c = b ∧ l.get? f.asset = none) ∨
      (c = b.movePosition f.asset f.signedQuantity ∧ (∃ fault, e = .decimal fault) ∧
        l.get? f.asset ≠ none) := by
  rcases bind_eq_error.mp h with hlisted | ⟨b₁, currency, hlisted, hrest⟩
  · obtain ⟨rfl, hnone⟩ := Action.ofExcept_eq_error.mp hlisted
    exact Or.inl ⟨rfl, (Listings.currencyOf_eq_error.mp hnone).1⟩
  obtain ⟨rfl, hsome⟩ := Action.ofExcept_eq_ok.mp hlisted
  rcases bind_eq_error.mp hrest with hmove | ⟨b₂, _, hmove, hcredit⟩
  · exact absurd hmove Action.modify_ne_error
  obtain rfl := Action.modify_eq_ok.mp hmove
  obtain ⟨rfl, herror⟩ := Action.update_eq_error.mp hcredit
  refine Or.inr ⟨rfl, Book.credit_eq_error herror, fun hnone => ?_⟩
  simp [Listings.currencyOf, hnone] at hsome

namespace Portfolio

/-- What an order has to be before it is counted: valid, and of a strategy that there is. -/
def Admits (p : Portfolio) (r : OrderRequest) : Prop :=
  p.strategies.get? r.strategy ≠ none ∧ ∃ o, r.validate = .ok o

variable {p q : Portfolio} {e : Error}

theorem log_ne_error {level : Level} {text : String} : log level text p ≠ (q, .error e) :=
  Action.modify_ne_error

theorem strategy_eq_error {n : String} :
    p.strategy n = .error e ↔ p.strategies.get? n = none ∧ e = .unknownStrategy n := by
  unfold strategy
  cases p.strategies.get? n <;> simp [eq_comm]

theorem handleFill_eq_error {f : Fill} (h : handleFill f p = (q, .error e)) :
    (q = p ∧ ∀ s, p.strategies.get? f.strategy = some s → s.assets.get? f.asset = none) ∨
    ∃ s, p.strategies.get? f.strategy = some s ∧ s.assets.get? f.asset ≠ none ∧
      (∃ fault, e = .decimal fault) ∧
      q = { p with
        strategies := p.strategies.put f.strategy { s with
          book := s.book.movePosition f.asset f.signedQuantity } } := by
  rcases bind_eq_error.mp h with hfill | ⟨u, _, -, hrest⟩
  · rcases onStrategy_eq_error hfill with ⟨hs, -, rfl⟩ | ⟨s, t, hs, hrun, rfl⟩
    · exact Or.inl ⟨rfl, fun s hs' => by simp [hs] at hs'⟩
    · obtain ⟨b, hbook, rfl⟩ := Strategy.onBook_eq hrun
      rcases Book.applyFill_eq_error hbook with ⟨rfl, hunlisted⟩ | ⟨rfl, hfault, hlisted⟩
      · refine Or.inl ⟨by rw [OrderedMap.put_of_get? hs], fun s' hs' => ?_⟩
        rw [hs] at hs'
        exact Option.some.inj hs' ▸ hunlisted
      · exact Or.inr ⟨s, hs, hlisted, hfault, rfl⟩
  · rcases bind_eq_error.mp hrest with hrecord | ⟨v, _, -, hlog⟩
    · exact absurd hrecord Action.modify_ne_error
    · exact absurd hlog log_ne_error

/-- Pricing an order fails after the brokerage has counted it. -/
theorem submit_eq_error {o : Order} (h : submit o p = (q, .error e)) :
    q = { p with brokerage := { p.brokerage with submitted := p.brokerage.submitted + 1 } } := by
  simp only [submit, Brokerage.submit] at h
  split at h
  · exact (Prod.mk.inj h).1.symm
  · simp at h
  · simp at h

/-- An order is refused before it is counted, or when it is priced, or when its fill is refused. -/
theorem handleOrder_eq_error {r : OrderRequest} (h : handleOrder r p = (q, .error e)) :
    (q = p ∧ ¬ p.Admits r) ∨
    p.Admits r ∧ (q = { p with
      orderCount := p.orderCount + 1
      brokerage := { p.brokerage with submitted := p.brokerage.submitted + 1 } } ∨
    ∃ f journal, f.strategy = r.strategy ∧ f.asset = r.asset ∧ handleFill f { p with
      orderCount := p.orderCount + 1
      brokerage := { p.brokerage with
        fills := p.brokerage.fills ++ [f], submitted := p.brokerage.submitted + 1 }
      journal } = (q, .error e)) := by
  rcases bind_eq_error.mp h with hread | ⟨u, s, hread, hvalidated⟩
  · obtain ⟨rfl, hunknown⟩ := Action.read_eq_error.mp hread
    have hnone := (strategy_eq_error.mp hunknown).1
    exact Or.inl ⟨rfl, fun hadmits => hadmits.1 hnone⟩
  obtain ⟨rfl, hknown⟩ := Action.read_eq_ok.mp hread
  have hs := strategy_eq_ok.mp hknown
  rcases bind_eq_error.mp hvalidated with hvalidate | ⟨v, o, hvalidate, hcounted⟩
  · obtain ⟨rfl, hinvalid⟩ := Action.ofExcept_eq_error.mp hvalidate
    exact Or.inl ⟨rfl, fun ⟨_, o, ho⟩ => by simp [hinvalid] at ho⟩
  obtain ⟨rfl, hvalid⟩ := Action.ofExcept_eq_ok.mp hvalidate
  refine Or.inr ⟨⟨by simp [hs], o, hvalid⟩, ?_⟩
  obtain ⟨-, hstrategy, hasset, -⟩ := validate_eq_ok hvalid
  rcases bind_eq_error.mp hcounted with hcount | ⟨w, _, hcount, hsubmitted⟩
  · exact absurd hcount Action.modify_ne_error
  obtain rfl := Action.modify_eq_ok.mp hcount
  rcases bind_eq_error.mp hsubmitted with hsubmit | ⟨x, outcome, hsubmit, hrest⟩
  · exact Or.inl (submit_eq_error hsubmit)
  cases outcome with
  | noBar => exact absurd hrest log_ne_error
  | unmatched close => exact absurd hrest log_ne_error
  | filled f =>
    obtain ⟨hexecute, rfl⟩ := submit_filled hsubmit
    obtain ⟨-, hstrategy', hasset', -⟩ := execute_filled hexecute
    rcases bind_eq_error.mp hrest with hlog | ⟨y, _, hlog, hfill⟩
    · exact absurd hlog log_ne_error
    obtain rfl := Action.modify_eq_ok.mp hlog
    exact Or.inr ⟨f, _, hstrategy'.trans hstrategy, hasset'.trans hasset, hfill⟩

/-- The books after `e` was raised over strategy `n` and asset `a`. Whether a position has moved
when it was the arithmetic of its cash that failed is left open. -/
structure RefusedBooks (n : String) (a : Asset) (e : Error) (p q : Portfolio) : Prop where
  keys : q.strategies.keys = p.strategies.keys
  others : ∀ m, m ≠ n → q.strategies.get? m = p.strategies.get? m
  own : ∀ s, p.strategies.get? n = some s → ∃ positions,
    q.strategies.get? n = some { s with book := { s.book with positions } } ∧
      ∀ b, b ≠ a → positions.get? b = s.book.positions.get? b
  moved : q.strategies ≠ p.strategies → (∃ fault, e = .decimal fault) ∧
    ∃ s, p.strategies.get? n = some s ∧ s.assets.get? a ≠ none

/-- Nothing is recorded of what was refused but the attempt. -/
structure RefusedAttempt (p q : Portfolio) : Prop extends SameStores p q where
  fills : q.fills = p.fills
  signalCount : q.signalCount = p.signalCount
  rejected : q.brokerage.rejected = p.brokerage.rejected
  attempts : q.orderCount + p.brokerage.submitted = p.orderCount + q.brokerage.submitted
  once : q.orderCount = p.orderCount ∨ q.orderCount = p.orderCount + 1

theorem RefusedBooks.of_strategies_eq {n : String} {a : Asset}
    (h : q.strategies = p.strategies) : RefusedBooks n a e p q where
  keys := by rw [h]
  others m _ := by rw [h]
  own s hs := ⟨s.book.positions, by rw [h, hs], fun _ _ => rfl⟩
  moved hne := absurd h hne

theorem refusedBooks_of_handleFill {f : Fill} (h : handleFill f p = (q, .error e)) :
    RefusedBooks f.strategy f.asset e p q := by
  rcases handleFill_eq_error h with ⟨rfl, -⟩ | ⟨s, hs, hlisted, hfault, rfl⟩
  · exact .of_strategies_eq rfl
  · exact {
      keys := OrderedMap.keys_put_of_get? _ hs
      others := fun m hm => by simp [hm]
      own := by
        intro s' hs'
        obtain rfl : s = s' := Option.some.inj (hs.symm.trans hs')
        refine ⟨s.book.positions.put f.asset (s.book.position f.asset + f.signedQuantity), ?_, ?_⟩
        · simp [Book.movePosition]
        · intro b hb
          simp [hb]
      moved := fun _ => ⟨hfault, s, hs, hlisted⟩ }

/-- A fill that is refused is neither recorded nor counted. -/
theorem handleFill_refused {f : Fill} (h : handleFill f p = (q, .error e)) :
    ∃ strategies, q = { p with strategies } := by
  rcases handleFill_eq_error h with ⟨rfl, -⟩ | ⟨s, -, -, -, rfl⟩
  · exact ⟨q.strategies, rfl⟩
  · exact ⟨_, rfl⟩

theorem refusedBooks_of_handleOrder {r : OrderRequest} (h : handleOrder r p = (q, .error e)) :
    RefusedBooks r.strategy r.asset e p q := by
  rcases handleOrder_eq_error h with ⟨rfl, -⟩ | ⟨-, rfl | ⟨f, journal, hstrategy, hasset, hfill⟩⟩
  · exact .of_strategies_eq rfl
  · exact .of_strategies_eq rfl
  · have hbooks := refusedBooks_of_handleFill hfill
    rw [hstrategy, hasset] at hbooks
    exact ⟨hbooks.keys, hbooks.others, hbooks.own, hbooks.moved⟩

theorem refusedAttempt_of_handleOrder {r : OrderRequest} (h : handleOrder r p = (q, .error e)) :
    RefusedAttempt p q := by
  rcases handleOrder_eq_error h with ⟨rfl, -⟩ | ⟨-, rfl | ⟨f, journal, -, -, hfill⟩⟩
  · exact ⟨SameStores.isPath.refl q, rfl, rfl, rfl, rfl, Or.inl rfl⟩
  · exact ⟨⟨rfl, rfl, rfl, rfl⟩, rfl, rfl, rfl, by dsimp only; omega, Or.inr rfl⟩
  · obtain ⟨strategies, rfl⟩ := handleFill_refused hfill
    exact ⟨⟨rfl, rfl, rfl, rfl⟩, rfl, rfl, rfl, by dsimp only; omega, Or.inr rfl⟩

/-- What the brokerage has recorded from `p` to `q`. -/
def brokeredSince (p q : Portfolio) : List Fill := q.brokerage.fills.drop p.brokerage.fills.length

/-- The fills of orders that failed although the brokerage had filled them. -/
def refusedFills : List OrderRequest → Portfolio → List Fill
  | [], _ => []
  | r :: rs, p =>
      match handleOrder r p with
      | (q, .ok ()) => refusedFills rs q
      | (q, .error _) => brokeredSince p q ++ refusedFills rs q

/-- An order that fails adds to the fills of the brokerage only. -/
theorem fills_of_handleOrder_error {r : OrderRequest} (h : handleOrder r p = (q, .error e)) :
    q.fills = p.fills ∧ q.brokerage.fills = p.brokerage.fills ++ brokeredSince p q := by
  refine ⟨(refusedAttempt_of_handleOrder h).fills, ?_⟩
  rcases handleOrder_eq_error h with ⟨rfl, -⟩ | ⟨-, rfl | ⟨f, journal, -, -, hfill⟩⟩
  · simp [brokeredSince]
  · simp [brokeredSince]
  · obtain ⟨strategies, rfl⟩ := handleFill_refused hfill
    simp [brokeredSince]

/-- An order that succeeds adds the same fills to both records. -/
theorem fills_of_handleOrder_ok {r : OrderRequest} (h : handleOrder r p = (q, .ok ())) :
    ∃ fs, q.fills = p.fills ++ fs ∧ q.brokerage.fills = p.brokerage.fills ++ fs := by
  rcases handleOrder_eq_ok h with htrades | ⟨f, -, -, htrades⟩
  · exact ⟨[], htrades.fills, htrades.brokered⟩
  · exact ⟨[f], htrades.fills, htrades.brokered⟩

/-- Over any orders the brokerage records, beside the fills of the portfolio and in between them,
those it made for orders that failed. -/
theorem brokered_of_orders (rs : List OrderRequest) (p : Portfolio) :
    ∃ fs gs, (after (rs.map .order) p).fills = p.fills ++ fs ∧
      (after (rs.map .order) p).brokerage.fills = p.brokerage.fills ++ gs ∧
      fs.Sublist gs ∧ gs.length = fs.length + (refusedFills rs p).length := by
  induction rs generalizing p with
  | nil => exact ⟨[], [], by simp [after], by simp [after], .refl [], rfl⟩
  | cons r rs ih =>
    rcases hr : handleOrder r p with ⟨q, e | ⟨⟩⟩
    · obtain ⟨fs, gs, hfs, hgs, hsub, hlength⟩ := ih q
      obtain ⟨hfills, hbrokered⟩ := fills_of_handleOrder_error hr
      refine ⟨fs, brokeredSince p q ++ gs, ?_, ?_, hsub.trans (List.sublist_append_right ..), ?_⟩
      · simpa [after, handle, hr, hfills] using hfs
      · simpa [after, handle, hr, hbrokered] using hgs
      · simp only [refusedFills, hr, List.length_append, hlength]
        omega
    · obtain ⟨fs, gs, hfs, hgs, hsub, hlength⟩ := ih q
      obtain ⟨ks, hfills, hbrokered⟩ := fills_of_handleOrder_ok hr
      refine ⟨ks ++ fs, ks ++ gs, ?_, ?_, hsub.append_left ks, ?_⟩
      · simpa [after, handle, hr, hfills] using hfs
      · simpa [after, handle, hr, hbrokered] using hgs
      · simp only [refusedFills, hr, List.length_append, hlength]
        omega

/-- What a refused order or fill leaves behind: cash and capital, the recorded fills and the
rejections as they were, and the positions too unless arithmetic failed. Nothing has changed at all
where there is no such strategy, the order is invalid or the asset of a fill is not listed; any other
refused order has been counted once by the portfolio and once by the brokerage. Over any orders the
two records of fills differ by the fills of refused orders alone. -/
theorem refused_leaves_attempt (p : Portfolio) :
    (∀ {r q e}, handle (.order r) p = (q, .error e) →
      RefusedBooks r.strategy r.asset e p q ∧ RefusedAttempt p q ∧
        (¬ p.Admits r → q = p) ∧ (p.Admits r → q.orderCount = p.orderCount + 1)) ∧
    (∀ {f q e}, handle (.fill f) p = (q, .error e) →
      RefusedBooks f.strategy f.asset e p q ∧ RefusedAttempt p q ∧
        q.brokerage = p.brokerage ∧ q.orderCount = p.orderCount ∧
        ((∀ s, p.strategies.get? f.strategy = some s → s.assets.get? f.asset = none) → q = p)) ∧
    (p.fills = p.brokerage.fills → ∀ rs : List OrderRequest,
      (after (rs.map .order) p).fills.Sublist (after (rs.map .order) p).brokerage.fills ∧
        ((after (rs.map .order) p).fills = (after (rs.map .order) p).brokerage.fills ↔
          refusedFills rs p = [])) := by
  refine ⟨fun {r q e} h => ⟨refusedBooks_of_handleOrder h, refusedAttempt_of_handleOrder h, ?_⟩,
    fun {f q e} h => ⟨refusedBooks_of_handleFill h, ?_⟩, fun hagree rs => ?_⟩
  · rcases handleOrder_eq_error h with ⟨hq, hnot⟩ | ⟨hadmits, rfl | ⟨f, journal, -, -, hfill⟩⟩
    · exact ⟨fun _ => hq, fun hadmits => absurd hadmits hnot⟩
    · exact ⟨fun hnot => absurd hadmits hnot, fun _ => rfl⟩
    · obtain ⟨strategies, rfl⟩ := handleFill_refused hfill
      exact ⟨fun hnot => absurd hadmits hnot, fun _ => rfl⟩
  · have hunlisted : (∀ s, p.strategies.get? f.strategy = some s →
        s.assets.get? f.asset = none) → q = p := by
      intro hnone
      rcases handleFill_eq_error h with ⟨hq, -⟩ | ⟨s, hs, hlisted, -, -⟩
      · exact hq
      · exact absurd (hnone s hs) hlisted
    obtain ⟨strategies, rfl⟩ := handleFill_refused h
    exact ⟨⟨⟨rfl, rfl, rfl, rfl⟩, rfl, rfl, rfl, rfl, Or.inl rfl⟩, rfl, rfl, hunlisted⟩
  · obtain ⟨fs, gs, hfs, hgs, hsub, hlength⟩ := brokered_of_orders rs p
    rw [hfs, hgs, hagree]
    refine ⟨hsub.append_left _, ?_⟩
    rw [List.append_cancel_left_eq, ← List.length_eq_zero_iff]
    constructor
    · rintro rfl
      omega
    · intro hnone
      exact hsub.eq_of_length (by omega)

/-- The order of a strategy for an asset that it does not list. -/
def unlistedOrder (d : Date) : OrderRequest where
  date := d
  strategy := "A"
  asset := "B"
  action := .buy
  type := .market
  quantity := .integer 3
  primary := none
  secondary := none

/-- An order for an asset that the strategy does not list is refused only after the brokerage has
filled it: it stays counted and its fill stays on record there. -/
theorem refused_fill_stays_brokered :
    let day : MarketDay := .flat ⟨2024, 1, 2, by decide, by decide, by decide⟩ ["A", "B"]
    let p := after [.market day] (holding ["A"])
    let q := (handle (.order (unlistedOrder day.date)) p).1
    (handle (.order (unlistedOrder day.date)) p).2.mapError Error.label? =
        .error (some "AssetNotConfiguredError") ∧
      (p.orderCount, p.brokerage.submitted) = (1, 1) ∧
      (q.orderCount, q.brokerage.submitted) = (2, 2) ∧
      p.fills = p.brokerage.fills ∧ q.fills ≠ q.brokerage.fills := by
  decide +kernel

/-- An order that is filled and one for an asset that is not listed. -/
theorem refused_leaves_attempt_holding :
    let day : MarketDay := .flat ⟨2024, 1, 2, by decide, by decide, by decide⟩ ["A", "B"]
    let listed : OrderRequest := { unlistedOrder day.date with asset := "A" }
    let p := after [.market day] (holding ["A"])
    let q := (handle (.order (unlistedOrder day.date)) p).1
    let r := after ([listed, unlistedOrder day.date].map .order) p
    q.strategies = p.strategies ∧ q.fills = p.fills ∧
      q.brokerage.rejected = p.brokerage.rejected ∧ q.orderCount = p.orderCount + 1 ∧
      r.fills.Sublist r.brokerage.fills ∧ r.fills ≠ r.brokerage.fills := by
  intro day listed p q r
  have hlabel : (handle (.order (unlistedOrder day.date)) p).2.mapError Error.label? =
      .error (some "AssetNotConfiguredError") := by decide +kernel
  have hagree : p.fills = p.brokerage.fills := by decide +kernel
  have hlost : refusedFills [listed, unlistedOrder day.date] p ≠ [] := by decide +kernel
  have hcount : q.orderCount ≠ p.orderCount := by decide +kernel
  have hunlisted : (p.strategies.get? "A").map (·.assets.get? "B") = some none := by
    decide +kernel
  clear_value p
  obtain ⟨horder, -, hrun⟩ := refused_leaves_attempt p
  have hrefused : ∃ e, handle (.order (unlistedOrder day.date)) p = (q, .error e) := by
    rcases hq : handle (.order (unlistedOrder day.date)) p with ⟨q', e | u⟩
    · exact ⟨e, by simp [q, hq]⟩
    · simp [hq, Except.mapError] at hlabel
  obtain ⟨e, he⟩ := hrefused
  obtain ⟨hbooks, hattempt, hkept, hcounted⟩ := horder he
  obtain ⟨hsub, hiff⟩ := hrun hagree [listed, unlistedOrder day.date]
  have hstrategies : q.strategies = p.strategies := by
    by_contra hmoved
    obtain ⟨-, s, hs, hlisted⟩ := hbooks.moved hmoved
    rw [show p.strategies.get? "A" = some s from hs, Option.map_some, Option.some_inj] at hunlisted
    exact hlisted hunlisted
  have hadmits : p.Admits (unlistedOrder day.date) := by
    by_contra hnot
    exact hcount (congrArg Portfolio.orderCount (hkept hnot))
  exact ⟨hstrategies, hattempt.fills, hattempt.rejected, hcounted hadmits, hsub,
    fun heq => hlost (hiff.mp heq)⟩

end Portfolio
end Backtesting
