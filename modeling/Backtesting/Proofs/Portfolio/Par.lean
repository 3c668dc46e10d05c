import Backtesting.Proofs.Portfolio.Targets
import Backtesting.Proofs.Portfolio.Worth

/-!
Trading at par. Where all strategies trade at the close, the brokerage matches their orders against
the closes that the portfolio is valued at and takes nothing for it, no fill costs anything. So the
day leaves each strategy with what it was worth when it was given its capital.
-/
namespace Backtesting

/-- A product with a zero is worth nothing. -/
theorem Decimal.value_mul_of_isZero {a b x : Decimal} (hb : b.isZero = true) (h : a.mul b = .ok x) :
    x.value = 0 := by
  cases b with
  | infinity n => simp [isZero] at hb
  | nan n signaling k => simp [isZero] at hb
  | finite n c e =>
    obtain rfl : c = 0 := by simpa [isZero] using hb
    cases a with
    | infinity m => simp [mul, ofNaN?] at h
    | nan m signaling k =>
      cases signaling
      · obtain rfl := Except.ok.inj h
        rfl
      · simp [mul, ofNaN?] at h
    | finite m k f =>
      have hproduct : (finite m k f).mul (finite n 0 e) = round (m != n) (k * 0) (f + e) false := rfl
      rw [hproduct, Nat.mul_zero] at h
      obtain rfl := Except.ok.inj h
      simp [value, signed_zero]

theorem Commission.value_on {c : Commission} {price x : Decimal} {quantity : Int}
    (hfree : c.rate.isZero = true) (h : c.on price quantity = .ok x) : x.value = 0 := by
  obtain ⟨worth, -, hcost⟩ := Except.bind_eq_ok.mp h
  exact Decimal.value_mul_of_isZero hfree hcost

/-- A fill at the close of a day, without a commission. -/
structure Fill.AtPar (f : Fill) (d : Date) (market : MarketHistory) : Prop where
  commission : f.commission.value = 0
  price : f.price.value = market.closeOn d f.asset

theorem Fill.AtPar.cost_eq {f : Fill} {d : Date} {market : MarketHistory} (h : f.AtPar d market)
    (l : Listings) (fx : FxHistory) : f.cost l d market fx = 0 := by
  rw [cost, h.commission, h.price]
  ring

/-- What is bought and sold at par leaves the worth of a book. -/
theorem Book.worth_of_atPar {l : Listings} {d : Date} {market : MarketHistory} {fx : FxHistory}
    {b b' : Book} {fs : List Fill} (h : Action.forEach fs (applyFill l) b = (b', .ok ()))
    (hexact : CreditedExactly l fs b) (hpar : ∀ f ∈ fs, f.AtPar d market) :
    b'.worth l d market fx = b.worth l d market fx := by
  have hfree : (fs.map fun f => f.cost l d market fx).sum = 0 := by
    apply List.sum_eq_zero
    intro x hx
    obtain ⟨f, hf, rfl⟩ := List.mem_map.mp hx
    exact (hpar f hf).cost_eq l fx
  rw [worth_applyFills h hexact, hfree, sub_zero]

namespace Portfolio

open Backtesting.Action (IsPath Moves bind_eq_ok)

variable {d : Date} {n : String} {p q : Portfolio} {s : Strategy}

/-- Everyone trades at the close, the brokerage sees the closes of the portfolio, and trading is free. -/
structure Fair (d : Date) (p : Portfolio) : Prop where
  free : p.brokerage.commission.rate.isZero = true
  matched : ∀ a bar, p.market.bar? d a = some bar →
    ∃ matched, p.matchedBar d a = some matched ∧ matched.close = bar.close
  pricing : ∀ n s, p.strategies.get? n = some s → s.pricing = .closePrice

/-- Trading goes on under the same conditions. -/
structure SameTerms (p q : Portfolio) : Prop extends SameStage p q where
  setup : q.setup = p.setup

theorem SameTerms.isPath : IsPath SameTerms where
  refl p := ⟨SameStage.isPath.refl p, rfl⟩
  trans h h' := ⟨SameStage.isPath.trans h.toSameStage h'.toSameStage, h'.setup.trans h.setup⟩

theorem SameTerms.books (n : String) : AllowsBooks n SameTerms where
  path := isPath
  book hs hb := ⟨(SameStage.allowsFunding n).books.book hs hb,
    (allowsEvents_setup.actions.books n).book hs hb⟩
  fills p f hf := ⟨(SameStage.allowsFunding n).fills p f hf, rfl⟩
  signalCount p k := ⟨(SameStage.allowsFunding n).signalCount p k, rfl⟩
  orderCount p := ⟨(SameStage.allowsFunding n).orderCount p, rfl⟩
  brokerage p b hb := ⟨(SameStage.allowsFunding n).brokerage p b hb,
    (allowsEvents_setup.actions.books n).brokerage p b hb⟩
  journal p j := ⟨(SameStage.allowsFunding n).journal p j, rfl⟩

theorem Fair.congr (h : p.Fair d) (hpq : SameTerms p q) : q.Fair d where
  free := by rw [hpq.commission, h.free]
  matched a bar hbar := by
    rw [hpq.market] at hbar
    unfold matchedBar
    rw [hpq.venue, hpq.market]
    exact h.matched a bar hbar
  pricing n t ht := by
    obtain ⟨s, hs, hsetup⟩ := setup_of_get? hpq.setup ht
    rw [pricing_of_setup_eq hsetup, h.pricing n s hs]

/-- From a fair state there are only fills at par, and the state stays fair. -/
def TradesAtPar (d : Date) (p q : Portfolio) : Prop :=
  p.Fair d → SameTerms p q ∧ ∃ fs, q.fills = p.fills ++ fs ∧ ∀ f ∈ fs, f.AtPar d p.market

theorem TradesAtPar.isPath : IsPath (TradesAtPar d) where
  refl p _ := ⟨SameTerms.isPath.refl p, [], by simp⟩
  trans := by
    intro p q r h h' hp
    obtain ⟨hpq, fs, hfs, hpar⟩ := h hp
    obtain ⟨hqr, gs, hgs, hpar'⟩ := h' (hp.congr hpq)
    refine ⟨SameTerms.isPath.trans hpq hqr, fs ++ gs, by rw [hgs, hfs, List.append_assoc], ?_⟩
    intro f hf
    rcases List.mem_append.mp hf with hf | hf
    · exact hpar f hf
    · rw [← hpq.market]
      exact hpar' f hf

/-- Nothing is filled where the fills stay as they are. -/
theorem TradesAtPar.of_fills_eq (h : SameTerms p q) (hfills : q.fills = p.fills) :
    TradesAtPar d p q := fun _ => ⟨h, [], by simp [hfills]⟩

/-- An order for what is missing is filled at the close of the portfolio. -/
theorem tradesAtPar_submitTarget {e : Asset × Int} (h : submitTarget n d e p = (q, .ok ())) :
    TradesAtPar d p q := by
  intro hfair
  have hterms : SameTerms p q := by
    have hframe := (SameTerms.books n).submitTarget d e p
    rwa [h] at hframe
  refine ⟨hterms, ?_⟩
  obtain ⟨s, hs, ⟨-, rfl⟩ | ⟨-, prices, hprices, horder⟩⟩ := submitTarget_cases h
  · exact ⟨[], by simp⟩
  obtain ⟨order, outcome, hvalid, houtcome, -, ⟨-, hidle⟩ | ⟨f, t, b, rfl, -, -, -, hfills⟩⟩ :=
    handleOrder_outcome horder
  · obtain ⟨_, _, _, _, _, rfl⟩ := hidle
    exact ⟨[], by simp⟩
  rw [hfair.pricing n s hs] at hprices
  obtain ⟨⟨bar, hbar⟩, primary, secondary, hmarket⟩ := terms_at_close hprices hvalid
  obtain ⟨hdate, -, hasset, -⟩ := OrderRequest.validate_toward hvalid
  obtain ⟨matched, hmatched, hclose⟩ := hfair.matched e.1 bar hbar
  rw [outcomeOf_at_close hmarket (by rw [hdate, hasset]; exact hmatched)] at houtcome
  obtain ⟨cost, hcost, hfilled⟩ := Except.bind_eq_ok.mp houtcome
  obtain rfl := Brokerage.Outcome.filled.inj (Except.pure_eq_ok.mp hfilled)
  refine ⟨_, hfills, fun g hg => ?_⟩
  obtain rfl := List.mem_singleton.mp hg
  refine ⟨Commission.value_on hfair.free (Decimal.lift_eq_ok.mp hcost), ?_⟩
  rw [MarketHistory.closeOn, hasset, hbar, hclose]
  rfl

/-- To signal is to trade at nothing. -/
theorem sameTerms_signaling {rule : Rule} {signals : Signals} {sizes : OrderedMap Asset Int}
    (h : p.Runs d n s rule signals sizes) : SameTerms p (p.signaling d n s rule signals) := by
  have hsignals : s.signals d p.market = .ok ({ s with rule }, signals) :=
    Except.bind_eq_ok.mpr ⟨(rule, signals), h.found, rfl⟩
  refine ⟨⟨rfl, rfl, rfl, rfl, rfl, rfl, rfl, OrderedMap.keys_put_of_get? _ h.get?⟩, ?_⟩
  exact setup_put h.get? (Strategy.setup_signals hsignals)

theorem tradesAtPar_runStrategy (h : runStrategy d n p = (q, .ok ())) : TradesAtPar d p q := by
  obtain ⟨s, rule, signals, sizes, hruns⟩ := exists_runs h
  rw [hruns.eq] at h
  refine TradesAtPar.isPath.trans (TradesAtPar.of_fills_eq (sameTerms_signaling hruns) rfl) ?_
  exact Moves.forEach TradesAtPar.isPath (fun _ _ _ _ _ hstep => tradesAtPar_submitTarget hstep) h

/-- After a day of trading at par every strategy is worth what it was worth before. -/
theorem worth_of_runStrategies {ns : List String} {fs : List Fill} (hns : ns.Nodup)
    (h : Action.forEach ns (runStrategy d) p = (q, .ok ())) (hfair : p.Fair d)
    (hfills : q.fills = p.fills ++ fs) (hs : p.strategies.get? n = some s)
    (hexact : Book.CreditedExactly s.assets (fillsOf n fs) s.book) :
    ∃ t, q.strategies.get? n = some t ∧ t.setup = s.setup ∧
      t.book.worth s.assets d p.market p.fx = s.book.worth s.assets d p.market p.fx := by
  obtain ⟨gs, htrades, -, -⟩ := forEach_runStrategy hns h
  obtain ⟨-, gs', hgs', hpar⟩ :=
    Moves.forEach TradesAtPar.isPath (fun _ _ _ _ _ hstep => tradesAtPar_runStrategy hstep) h hfair
  obtain rfl : gs = fs := List.append_cancel_left (htrades.fills.symm.trans hfills)
  obtain rfl : gs' = gs := List.append_cancel_left (hgs'.symm.trans hfills)
  obtain ⟨t, ht, hsetup, hbook⟩ := htrades.books hs
  exact ⟨t, ht, hsetup, Book.worth_of_atPar hbook hexact fun f hf =>
    hpar f (List.mem_filter.mp hf).1⟩

end Portfolio
end Backtesting
