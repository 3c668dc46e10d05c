import Backtesting.Proofs.Portfolio.Redelivery
import Backtesting.Proofs.Portfolio.Targets
import Backtesting.Proofs.Trading.Pricing

/-!
Getting out of a position. An exit asks for a holding of zero, whatever the weights and the prices are,
so it goes out as an order for all that is held. Sold or bought back at the close, it passes every check
where the close is above zero, and the brokerage fills it where it has a bar: what is left that can fail
is the arithmetic of the commission and the balance.
-/
namespace Backtesting

/-- What is not below zero is at most zero if it is zero. -/
theorem Decimal.IsNonneg.isAtMost_zero {x : Decimal} (h : x.IsNonneg) :
    x.isAtMost 0 = .ok x.isZero := by
  show x.isAtMost (finite false 0 0) = _
  cases x with
  | nan n signaling payload => exact absurd h id
  | infinity n =>
    obtain rfl : n = false := h
    simp [isAtMost, ordered, ordering?, isZero]
  | finite n k e =>
    by_cases hk : k = 0
    · simp [isAtMost, ordered, ordering?, isZero, hk]
    · obtain rfl : n = false := h.resolve_right hk
      simp [isAtMost, ordered, ordering?, isZero, hk]

/-- An exit is sized zero, if only there is a weight and the capital can be computed. -/
theorem Sizer.sizesFor_exit {weights : Weights} {b : Book} {l : Listings} {d : Date} {a : Asset}
    {market : MarketHistory} {fx : FxHistory} {c : Decimal} (hweight : weights.contains a = true)
    (hcapital : capital b l d market fx = .ok c) :
    (fixedWeight weights).sizesFor b l d (OrderedMap.ofList [(a, .exit)]) market fx =
      .ok (OrderedMap.ofList [(a, 0)]) := by
  obtain ⟨w, hw⟩ := Option.isSome_iff_exists.mp hweight
  have hkeys : (OrderedMap.ofList [(a, Signal.exit)]).keys = [a] := rfl
  have hweights : (fixedWeight weights).weightsFor d (OrderedMap.ofList [(a, .exit)]) market =
      .ok (OrderedMap.ofList [(a, w)]) := by
    simp only [weightsFor, hkeys, List.mapM_cons, List.mapM_nil, hw]
    rfl
  have hlist : (OrderedMap.ofList [(a, Signal.exit)]).toList = [(a, .exit)] := rfl
  unfold sizesFor
  rw [hweights, hcapital]
  simp only [OrderedMap.isEmpty, hlist, List.isEmpty_cons, List.mapM_cons, List.mapM_nil, size,
    Signal.direction]
  rfl

namespace Book

/-- The balance that a fill is paid from or into, after it. -/
def balanceAfter (b : Book) (c : Currency) (f : Fill) : Except Decimal.Fault Decimal := do
  (b.balance c).add (← f.cashFlow)

/-- A fill of a listed asset goes into the book if the balance after it can be computed. -/
theorem applyFill_of_listed {l : Listings} {f : Fill} {c : Currency} (hc : l.get? f.asset = some c)
    (b : Book) :
    (∀ v, b.balanceAfter c f = .ok v → ∃ b', applyFill l f b = (b', .ok ())) ∧
      ∀ e, b.balanceAfter c f = .error e → ∃ b', applyFill l f b = (b', .error (.decimal e)) := by
  have hlisted : Action.ofExcept (l.currencyOf f.asset) b = (b, .ok c) :=
    Action.ofExcept_eq_ok.mpr ⟨rfl, Listings.currencyOf_eq_ok.mpr hc⟩
  let moved := b.movePosition f.asset f.signedQuantity
  have hmove : Action.modify (·.movePosition f.asset f.signedQuantity) b = (moved, .ok ()) := rfl
  unfold applyFill balanceAfter
  rw [Action.bind_ok hlisted, Action.bind_ok hmove]
  refine ⟨fun v hv => ?_, fun e he => ⟨moved, ?_⟩⟩
  · obtain ⟨flow, hflow, hsum⟩ := Except.bind_eq_ok.mp hv
    refine ⟨{ moved with cash := moved.cash.put c v }, Action.update_eq_ok.mpr ?_⟩
    refine Except.bind_eq_ok.mpr ⟨flow, Decimal.lift_eq_ok.mpr hflow, ?_⟩
    exact Except.bind_eq_ok.mpr ⟨v, Decimal.lift_eq_ok.mpr hsum, rfl⟩
  · refine Action.update_eq_error.mpr ⟨rfl, Except.bind_eq_error.mpr ?_⟩
    rcases Except.bind_eq_error.mp he with hflow | ⟨flow, hflow, hsum⟩
    · exact Or.inl (Decimal.lift_eq_error.mpr ⟨e, hflow, rfl⟩)
    · refine Or.inr ⟨flow, Decimal.lift_eq_ok.mpr hflow, Except.bind_eq_error.mpr (Or.inl ?_)⟩
      exact Decimal.lift_eq_error.mpr ⟨e, hsum, rfl⟩

end Book

namespace Portfolio

variable {d : Date} {n : String} {a : Asset} {p q : Portfolio} {s : Strategy} {bar : Bar} {c : Currency}

/-- A fill of a listed asset is recorded if the balance after it can be computed. -/
theorem handleFill_of_listed {f : Fill} (hs : p.strategies.get? f.strategy = some s)
    (hc : s.assets.get? f.asset = some c) :
    (∀ v, s.book.balanceAfter c f = .ok v →
      ∃ q, handleFill f p = (q, .ok ()) ∧ q.fills = p.fills ++ [f]) ∧
      ∀ e, s.book.balanceAfter c f = .error e → ∃ q, handleFill f p = (q, .error (.decimal e)) := by
  have hstep : ∀ {b r}, Book.applyFill s.assets f s.book = (b, r) →
      onStrategy f.strategy (Strategy.applyFill f) p =
        ({ p with strategies := p.strategies.put f.strategy { s with book := b } }, r) := by
    intro b r hb
    simp only [onStrategy, hs, Strategy.applyFill, Strategy.onBook, hb]
  obtain ⟨hpaid, hfails⟩ := Book.applyFill_of_listed hc s.book
  refine ⟨fun v hv => ?_, fun e he => ?_⟩
  · obtain ⟨b, hb⟩ := hpaid v hv
    exact ⟨_, (Action.bind_ok (hstep hb)).trans rfl, rfl⟩
  · obtain ⟨b, hb⟩ := hfails e he
    exact ⟨_, Action.bind_error (hstep hb)⟩

/-- An order at the close for what is missing is valid if anything is missing and the close is above
zero. -/
theorem validate_at_close {held desired : Int} {close : Decimal} (hmissing : held ≠ desired)
    (hclose : close.isAtMost 0 = .ok false) :
    ∃ o, (OrderRequest.toward n d a held desired ⟨.market, some close, none⟩).validate = .ok o ∧
      o.terms = .market (some close) none := by
  have hquantity : 0 < ((desired - held).natAbs : Int) := by omega
  have hpositive := OrderPrices.positive_of_primary (t := .market) hclose
  exact ⟨_, OrderPrices.validate_of_positive rfl hquantity rfl hpositive, rfl⟩

/-- The fill by which a strategy gets out of an asset at a price, where its commission and the balance
after it can be computed. -/
def exitFill (p : Portfolio) (s : Strategy) (n : String) (d : Date) (a : Asset) (price : Decimal) :
    Except Error Fill := do
  let c ← s.currencyOf a
  let cost ← Decimal.lift (p.brokerage.commission.on price (s.position a).natAbs)
  let f : Fill :=
    ⟨d, n, a, TradeAction.toward (s.position a) 0, price, (s.position a).natAbs, cost⟩
  let _ ← Decimal.lift (s.book.balanceAfter c f)
  pure f

/-- With one order for all that is held the position is gone, unless the arithmetic fails. -/
theorem submitTarget_zero {matched : Bar} (hs : p.strategies.get? n = some s)
    (hpricing : s.pricing = .closePrice) (hheld : s.position a ≠ 0)
    (hbar : p.market.bar? d a = some bar) (hclose : bar.close.isAtMost 0 = .ok false)
    (hmatched : p.matchedBar d a = some matched) (hc : s.assets.get? a = some c) :
    (∀ f, p.exitFill s n d a matched.close = .ok f → ∃ q, submitTarget n d (a, 0) p = (q, .ok ()) ∧
      q.positionOf n a = 0 ∧ q.fills = p.fills ++ [f]) ∧
      ∀ e, p.exitFill s n d a matched.close = .error e →
        (∃ fault, e = .decimal fault) ∧ ∃ q, submitTarget n d (a, 0) p = (q, .error e) := by
  have hprices : s.pricing.prices p.market d a (TradeAction.toward (s.position a) 0) =
      .ok ⟨.market, some bar.close, none⟩ := by
    rw [hpricing]
    exact Except.bind_eq_ok.mpr ⟨bar, Book.requireBar_eq_ok.mpr hbar, rfl⟩
  have horder := (submitTarget_eq (d := d) hs (a, 0)).2 hheld hprices
  obtain ⟨o, hvalid, hterms⟩ := validate_at_close (n := n) (d := d) (a := a) hheld hclose
  obtain ⟨hdate, hstrategy, hasset, haction, hquantity⟩ := OrderRequest.validate_toward hvalid
  have hsize : (0 - s.position a).natAbs = (s.position a).natAbs := by omega
  have houtcome := outcomeOf_at_close hterms (by rw [hdate, hasset]; exact hmatched)
  rw [hdate, hstrategy, hasset, haction, hquantity, hsize] at houtcome
  obtain ⟨hrefused, -, hfilled⟩ := handleOrder_of_valid hs hvalid
  have hlisted : s.currencyOf a = .ok c := Listings.currencyOf_eq_ok.mpr hc
  unfold exitFill
  rw [hlisted, Except.ok_bind]
  cases hcost : Decimal.lift (p.brokerage.commission.on matched.close (s.position a).natAbs) with
  | error e =>
    rw [hcost] at houtcome
    obtain ⟨q, hq⟩ := hrefused e houtcome
    obtain ⟨fault, -, hfault⟩ := Decimal.lift_eq_error.mp hcost
    refine ⟨fun f hf => (nomatch hf), fun e' he => ?_⟩
    obtain rfl : e = e' := Except.error.inj he
    exact ⟨⟨fault, hfault⟩, q, horder.trans hq⟩
  | ok cost =>
    rw [hcost] at houtcome
    let f : Fill := ⟨d, n, a, TradeAction.toward (s.position a) 0, matched.close,
      (s.position a).natAbs, cost⟩
    obtain ⟨u, hstrategies, hfills, hfill⟩ := hfilled f houtcome
    obtain ⟨hpaid, hfails⟩ := handleFill_of_listed (p := u) (f := f) (by rw [hstrategies]; exact hs) hc
    rw [Except.ok_bind]
    refine ⟨fun f' hf => ?_, fun e he => ?_⟩
    · obtain ⟨v, hbalance, hf⟩ := Except.bind_eq_ok.mp hf
      obtain rfl : f = f' := Except.pure_eq_ok.mp hf
      obtain ⟨q, hq, hrecorded⟩ := hpaid v (Decimal.lift_eq_ok.mp hbalance)
      have hdone := horder.trans (hfill.trans hq)
      obtain ⟨t, ht, -, -, -, hreached⟩ := strategy_of_submitTarget hs hdone
      refine ⟨q, hdone, ?_, by rw [hrecorded, hfills]⟩
      rw [positionOf_of_get? ht]
      exact hreached.resolve_right fun hkept =>
        not_rejects_of_closePrice hpricing (Or.inr (by rw [hmatched]; rfl)) hkept.2.2
    · obtain hbalance | ⟨v, -, he⟩ := Except.bind_eq_error.mp he
      · obtain ⟨fault, hfault, rfl⟩ := Decimal.lift_eq_error.mp hbalance
        obtain ⟨q, hq⟩ := hfails fault hfault
        exact ⟨⟨fault, rfl⟩, q, horder.trans (hfill.trans hq)⟩
      · exact nomatch he

section Build

variable {name : String} {base : Document} {named : List (String × Strategy)}
  {allocator : Allocator} {commission : Commission} {fxBase : Option Currency}
  {explicit : List (Asset × Document)} {venue : Option MarketHistory} {fresh : Portfolio}
  {events : List Event}

/-- An exit gets out. A strategy with fixed weights that trades at the close is rid of its position, long
or short, with one fill at the close that its order is matched against, on every day with a close above
zero on which its capital can be computed. Nothing but the arithmetic of the commission and of the
balance can keep it from that. -/
theorem exit_gets_out {weights : Weights} {matched : Bar} {capital : Decimal}
    (hbuild : build name base named allocator commission fxBase explicit venue = .ok fresh)
    (hflat : ∀ e ∈ named, e.2.book.positions = OrderedMap.empty)
    (hreached : p = after events fresh) (hs : p.strategies.get? n = some s)
    (hsizer : s.sizer = .fixedWeight weights) (hweight : weights.contains a = true)
    (hpricing : s.pricing = .closePrice) (hheld : s.position a ≠ 0)
    (hcapital : s.capital d p.market p.fx = .ok capital) (hbar : p.market.bar? d a = some bar)
    (hclose : bar.close.isZero = false) (hmatched : p.matchedBar d a = some matched) :
    (∀ f, p.exitFill s n d a matched.close = .ok f →
      ∃ q, handle (.signal d n (OrderedMap.ofList [(a, .exit)])) p = (q, .ok ()) ∧
        q.positionOf n a = 0 ∧ q.fills = p.fills ++ [f]) ∧
      ∀ e, p.exitFill s n d a matched.close = .error e → (∃ fault, e = .decimal fault) ∧
        ∃ q, handle (.signal d n (OrderedMap.ofList [(a, .exit)])) p = (q, .error e) := by
  have hlisted : s.assets.contains a = true := by
    by_contra hnone
    exact hheld ((holdsOnly_of_reached hbuild hflat hreached hs).position_eq_zero
      (Bool.eq_false_iff.mpr hnone)).2
  obtain ⟨c, hc⟩ := Option.isSome_iff_exists.mp hlisted
  have hpositive : bar.close.isAtMost 0 = .ok false := by
    rw [bar.isNonneg_close.isAtMost_zero, hclose]
  have hsizes : s.sizesFor s.sizer d (OrderedMap.ofList [(a, .exit)]) p.market p.fx =
      .ok (OrderedMap.ofList [(a, 0)]) := by
    rw [hsizer]
    exact Sizer.sizesFor_exit hweight hcapital
  let e : Event := .signal d n (OrderedMap.ofList [(a, .exit)])
  have hhandle : handle e p = submitTarget n d (a, 0) (p.counting e) := by
    rw [(Asks.signal hs hsizes).handle_eq]
    exact congrFun (Action.forEach_singleton (a, 0) (submitTarget n d)) (p.counting e)
  rw [hhandle]
  exact submitTarget_zero (p := p.counting e) hs hpricing hheld hbar hpositive hmatched hc

/-- Out of 100 shares on the second day. -/
theorem exit_gets_out_holding :
    let first : Date := ⟨2024, 1, 2, by decide, by decide, by decide⟩
    let second : Date := ⟨2024, 1, 3, by decide, by decide, by decide⟩
    let p := after [.market (.flat first ["A"]), .market (.flat second ["A"])] (holding ["A"])
    p.positionOf "A" "A" = 100 ∧
      ∃ q, handle (.signal second "A" (OrderedMap.ofList [("A", .exit)])) p = (q, .ok ()) ∧
        q.positionOf "A" "A" = 0 ∧
        q.fills = p.fills ++ [⟨second, "A", "A", .sell, 10, 100, .finite false 1000 (-3)⟩] := by
  intro first second p
  have hbuild : build "holding" (.text "USD") [("A", Strategy.holder "A")] .selfFunded
      Commission.standard none [] none = .ok (holding ["A"]) := rfl
  have hbefore : p.positionOf "A" "A" = 100 := by decide +kernel
  have hbar : p.market.bar? second "A" = some Bar.flat := by decide +kernel
  have hmatched : p.matchedBar second "A" = some Bar.flat := by decide +kernel
  have hreached : p = after [.market (.flat first ["A"]), .market (.flat second ["A"])]
      (holding ["A"]) := rfl
  obtain ⟨s, hs⟩ : ∃ s, p.strategies.get? "A" = some s :=
    Option.isSome_iff_exists.mp (by decide +kernel)
  have hstrategy : (p.strategies.get? "A").map (fun s => (s.sizer, s.pricing,
      (s.capital second p.market p.fx).toOption, (p.exitFill s "A" second "A" 10).toOption)) =
        some ((Strategy.holder "A").sizer, .closePrice, some (.finite false 999000 (-3)),
          some ⟨second, "A", "A", .sell, 10, 100, .finite false 1000 (-3)⟩) := by
    decide +kernel
  rw [hs] at hstrategy
  simp only [Option.map_some, Option.some.injEq, Prod.mk.injEq] at hstrategy
  obtain ⟨hsizer, hpricing, hcapital, hfill⟩ := hstrategy
  have hheld : s.position "A" ≠ 0 := by
    rw [← positionOf_of_get? hs, hbefore]
    decide
  obtain ⟨q, hq, hflat, hfills⟩ := (exit_gets_out hbuild (by decide) hreached hs hsizer rfl
    hpricing hheld (Except.eq_ok_of_toOption hcapital) hbar rfl hmatched).1 _ (Except.eq_ok_of_toOption hfill)
  exact ⟨hbefore, q, hq, hflat, hfills⟩

/-- Positions that an exit leaves as they are: no order is valid at a close of zero, the commission on a
close may be too large a number, and a brokerage that looks at other bars may have none. -/
theorem exit_stays_in :
    let first : Date := ⟨2024, 1, 2, by decide, by decide, by decide⟩
    let second : Date := ⟨2024, 1, 3, by decide, by decide, by decide⟩
    let zero : Bar := ⟨⟨0, 0, 0, 0, 0, 100, 0, 1⟩, rfl⟩
    let huge : Decimal := .finite false 1 999999
    let priceless : Bar := ⟨⟨huge, huge, huge, huge, huge, 100, 0, 1⟩, rfl⟩
    let bought (bar : Bar) := after [.market (.flat first ["A"]),
      .market ⟨second, OrderedMap.ofList [("A", bar)], []⟩] (holding ["A"])
    let unmatched := after [.fill ⟨second, "A", "A", .buy, 10, 100, 0⟩, .market (.flat second ["A"])]
      { holding ["A"] with venue := some MarketHistory.empty }
    let capital (p : Portfolio) := (p.strategies.get? "A").bind fun s =>
      (s.capital second p.market p.fx).toOption
    let exit : Event := .signal second "A" (OrderedMap.ofList [("A", .exit)])
    (∀ p ∈ [bought zero, bought priceless, unmatched], p.positionOf "A" "A" = 100 ∧
      (p.market.bar? second "A").isSome = true ∧ (capital p).isSome = true ∧
      (handle exit p).1.positionOf "A" "A" = 100) ∧
      (handle exit (bought zero)).2.toBool = false ∧
      (handle exit (bought priceless)).2.toBool = false ∧ (handle exit unmatched).2.toBool = true := by
  decide +kernel

end Build

end Portfolio
end Backtesting
