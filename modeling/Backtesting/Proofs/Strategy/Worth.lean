import Backtesting.Proofs.Decimal.Exact
import Backtesting.Proofs.Strategy.Book
import Backtesting.Proofs.Strategy.Value

/-!
What a book is exactly worth on a day, as a rational number: its positions at the closes and its
balances, in the base currency. A position or a balance that is not there is worth nothing, so a
change of one entry changes the worth by as much as the entry changed.
-/
namespace Backtesting

/-- Putting a value changes a sum over a map by the new value less the old one. -/
theorem OrderedMap.sum_put {κ ν : Type} [DecidableEq κ] (m : OrderedMap κ ν) (k : κ) (v : ν)
    (f : κ → ν → ℚ) :
    ((m.put k v).toList.map fun e => f e.1 e.2).sum =
      (m.toList.map fun e => f e.1 e.2).sum + f k v - ((m.get? k).map (f k)).getD 0 := by
  have hlist : ∀ l : List (κ × ν), ((putList k v l).map fun e => f e.1 e.2).sum =
      (l.map fun e => f e.1 e.2).sum + f k v - ((find? k l).map (f k)).getD 0 := by
    intro l
    induction l with
    | nil => simp [putList, find?]
    | cons e l ih =>
      by_cases he : e.1 = k
      · subst he
        simp only [putList, find?, if_true, List.map_cons, List.sum_cons, Option.map_some,
          Option.getD_some]
        ring
      · simp only [putList, find?, if_neg he, List.map_cons, List.sum_cons, ih]
        ring
  exact hlist m.toList

/-- A sum over the entries of a map is a sum over its keys. -/
theorem OrderedMap.sum_toList {κ ν : Type} [DecidableEq κ] (m : OrderedMap κ ν) (f : κ → ν → ℚ) :
    (m.toList.map fun e => f e.1 e.2).sum =
      (m.keys.map fun k => ((m.get? k).map (f k)).getD 0).sum := by
  unfold keys
  rw [List.map_map]
  congr 1
  apply List.map_congr_left
  intro e he
  have hget : m.get? e.1 = some e.2 := get?_eq_some_iff.mpr he
  simp [hget]

theorem OrderedMap.sum_values {κ ν : Type} [DecidableEq κ] (m : OrderedMap κ ν) (f : ν → ℚ) :
    (m.values.map f).sum = (m.keys.map fun k => ((m.get? k).map f).getD 0).sum := by
  rw [values, List.map_map]
  exact m.sum_toList fun _ v => f v

/-- The close of an asset, nothing where there is no bar. -/
def MarketHistory.closeOn (h : MarketHistory) (d : Date) (a : Asset) : ℚ :=
  ((h.bar? d a).map fun b => b.close.value).getD 0

/-- The rate of a currency, nothing where there is none. -/
def FxHistory.rateOn (h : FxHistory) (d : Date) (c : Currency) : ℚ :=
  match h.rate d c with
  | .ok r => r.value
  | .error _ => 0

/-- The rate of the currency that an asset is listed in. -/
def Listings.rateOn (l : Listings) (fx : FxHistory) (d : Date) (a : Asset) : ℚ :=
  ((l.get? a).map (fx.rateOn d)).getD 0

/-- What a fill costs beside what it brings at the close: the commission, and the distance of its
price from the close. -/
def Fill.cost (f : Fill) (l : Listings) (d : Date) (market : MarketHistory) (fx : FxHistory) : ℚ :=
  (f.commission.value + f.signedQuantity * (f.price.value - market.closeOn d f.asset)) *
    l.rateOn fx d f.asset

/-- Nothing is rounded on the way from a fill to the balance that it is added to. -/
def Fill.ExactFlow (f : Fill) (balance : Decimal) : Prop :=
  Decimal.ExactProduct f.price (Decimal.ofInt f.signedQuantity) ∧
    ∀ worth, f.price.mul (Decimal.ofInt f.signedQuantity) = .ok worth →
      ∀ change, worth.neg = .ok change → Decimal.ExactSum change f.commission.flipped ∧
        ∀ flow, change.sub f.commission = .ok flow → Decimal.ExactSum balance flow

instance (f : Fill) (balance : Decimal) : Decidable (f.ExactFlow balance) := by
  delta Fill.ExactFlow
  infer_instance

theorem Fill.ExactFlow.value_eq {f : Fill} {balance flow v : Decimal} (h : f.ExactFlow balance)
    (hflow : f.cashFlow = .ok flow) (hv : balance.add flow = .ok v) :
    v.value = balance.value - (f.signedQuantity * f.price.value + f.commission.value) := by
  obtain ⟨worth, hworth, hrest⟩ := Except.bind_eq_ok.mp hflow
  obtain ⟨change, hchange, hsub⟩ := Except.bind_eq_ok.mp hrest
  obtain ⟨hfinite, hproduct⟩ := h.1 worth hworth
  obtain ⟨hsum, hcredit⟩ := h.2 worth hworth change hchange
  have hneg := (Decimal.value_neg hfinite (Decimal.isResult_mul hworth) hchange).2
  have hdifference := (hsum flow hsub).2
  rw [(hcredit flow hsub v hv).2, hdifference, hneg, hproduct, Decimal.value_flipped,
    Decimal.value_ofInt]
  ring

/-- Nothing is rounded in a conversion to the base currency. -/
def FxHistory.ExactConversion (fx : FxHistory) (d : Date) (base : Currency) (amount : Decimal)
    (c : Currency) : Prop :=
  c ≠ base → ∀ r, fx.rate d c = .ok r → Decimal.ExactProduct amount r

instance (fx : FxHistory) (d : Date) (base : Currency) (amount : Decimal) (c : Currency) :
    Decidable (fx.ExactConversion d base amount c) := by
  delta FxHistory.ExactConversion
  infer_instance

theorem FxHistory.ExactConversion.value_eq {fx : FxHistory} {d : Date} {base c : Currency}
    {amount x : Decimal} (h : fx.ExactConversion d base amount c) (hbase : fx.base = base)
    (hx : fx.convert d amount c base = .ok x) : x.value = amount.value * fx.rateOn d c := by
  unfold FxHistory.convert at hx
  by_cases hc : c = base
  · rw [if_pos hc] at hx
    obtain rfl := Except.ok.inj hx
    have hrate : fx.rateOn d c = 1 := by
      rw [FxHistory.rateOn, FxHistory.rate, if_pos (hc.trans hbase.symm)]
      exact Decimal.value_one
    rw [hrate, mul_one]
  · rw [if_neg hc] at hx
    obtain ⟨r, hr, hrest⟩ := Except.bind_eq_ok.mp hx
    obtain ⟨y, hmul, hy⟩ := Except.bind_eq_ok.mp hrest
    rw [if_pos hbase.symm] at hy
    obtain rfl := Except.pure_eq_ok.mp hy
    rw [(h hc r hr y (Decimal.lift_eq_ok.mp hmul)).2, FxHistory.rateOn, hr]

namespace Book

variable {l : Listings} {d : Date} {market : MarketHistory} {fx : FxHistory} {b b' c : Book}
  {fs : List Fill}

/-- What one unit of an asset is worth. -/
def unitWorth (l : Listings) (d : Date) (market : MarketHistory) (fx : FxHistory) (a : Asset) : ℚ :=
  market.closeOn d a * l.rateOn fx d a

def worth (b : Book) (l : Listings) (d : Date) (market : MarketHistory) (fx : FxHistory) : ℚ :=
  (b.positions.toList.map fun e => (e.2 : ℚ) * unitWorth l d market fx e.1).sum +
    (b.cash.toList.map fun e => e.2.value * fx.rateOn d e.1).sum

theorem SameHoldings.worth_eq (h : SameHoldings b c) :
    b.worth l d market fx = c.worth l d market fx := by
  rw [worth, worth, h.1, h.2]

theorem SameHoldings.totalValue_eq (h : SameHoldings b c) (base : Currency) :
    b.totalValue l d base market fx = c.totalValue l d base market fx := by
  rw [totalValue, totalValue, h.1, h.2]

/-- Nothing is rounded while the fills are credited one after the other. -/
inductive CreditedExactly (l : Listings) : List Fill → Book → Prop
  | nil (b : Book) : CreditedExactly l [] b
  | cons {f : Fill} {fs : List Fill} {b : Book}
      (first : ∀ c, l.get? f.asset = some c → f.ExactFlow (b.balance c))
      (rest : ∀ b', applyFill l f b = (b', .ok ()) → CreditedExactly l fs b') :
      CreditedExactly l (f :: fs) b

theorem creditedExactly_cons {f : Fill} : CreditedExactly l (f :: fs) b ↔
    (∀ c, l.get? f.asset = some c → f.ExactFlow (b.balance c)) ∧
      ∀ b', applyFill l f b = (b', .ok ()) → CreditedExactly l fs b' := by
  constructor
  · rintro (_ | ⟨first, rest⟩)
    exact ⟨first, rest⟩
  · rintro ⟨first, rest⟩
    exact .cons first rest

instance CreditedExactly.decidable (l : Listings) :
    ∀ fs b, Decidable (CreditedExactly l fs b)
  | [], b => isTrue (.nil b)
  | _ :: fs, _ =>
      have : DecidablePred (CreditedExactly l fs) := CreditedExactly.decidable l fs
      decidable_of_iff _ creditedExactly_cons.symm

theorem CreditedExactly.of_sameHoldings (h : CreditedExactly l fs b) (hsame : SameHoldings b c) :
    CreditedExactly l fs c := by
  induction fs generalizing b c with
  | nil => exact .nil c
  | cons f fs ih =>
    obtain ⟨hfirst, hrest⟩ := creditedExactly_cons.mp h
    refine .cons (fun currency hlisted => ?_) fun c' hc' => ?_
    · rw [balance, ← hsame.2]
      exact hfirst currency hlisted
    · obtain ⟨b', _, hb', hsame', -⟩ := (mirrors_applyFill l f).ok ⟨hsame.1.symm, hsame.2.symm⟩ hc'
      exact ih (hrest b' hb') ⟨hsame'.1.symm, hsame'.2.symm⟩

/-- A fill that is credited exactly changes the worth by its cost. -/
theorem worth_applyFill {f : Fill} (h : applyFill l f b = (b', .ok ()))
    (hexact : ∀ c, l.get? f.asset = some c → f.ExactFlow (b.balance c)) :
    b'.worth l d market fx = b.worth l d market fx - f.cost l d market fx := by
  obtain ⟨c, flow, v, hc, hflow, hv, rfl⟩ := applyFill_eq_ok h
  have hcredit := (hexact c hc).value_eq hflow hv
  have hposition : ((b.positions.get? f.asset).map fun k : Int =>
      (k : ℚ) * unitWorth l d market fx f.asset).getD 0 =
        b.position f.asset * unitWorth l d market fx f.asset := by
    rw [position, OrderedMap.getD]
    cases b.positions.get? f.asset <;> simp
  have hcash : ((b.cash.get? c).map fun x : Decimal => x.value * fx.rateOn d c).getD 0 =
      (b.balance c).value * fx.rateOn d c := by
    have hzero : (0 : Decimal).value = 0 := Decimal.value_zero
    rw [balance, OrderedMap.getD]
    cases b.cash.get? c <;> simp [hzero]
  have hlisted : l.rateOn fx d f.asset = fx.rateOn d c := by
    rw [Listings.rateOn, hc]
    rfl
  unfold worth
  rw [OrderedMap.sum_put b.positions f.asset _ fun a k => (k : ℚ) * unitWorth l d market fx a,
    OrderedMap.sum_put b.cash c v fun c x => x.value * fx.rateOn d c, hposition, hcash, hcredit,
    Fill.cost, unitWorth, hlisted]
  push_cast
  ring

theorem worth_applyFills (h : Action.forEach fs (applyFill l) b = (b', .ok ()))
    (hexact : CreditedExactly l fs b) :
    b'.worth l d market fx =
      b.worth l d market fx - (fs.map fun f => f.cost l d market fx).sum := by
  induction fs generalizing b with
  | nil =>
    obtain rfl := Action.forEach_nil_eq_ok.mp h
    simp
  | cons f fs ih =>
    obtain ⟨u, hu, hrest⟩ := Action.forEach_cons_eq_ok.mp h
    obtain ⟨hfirst, hlater⟩ := creditedExactly_cons.mp hexact
    rw [ih hrest (hlater u hu), worth_applyFill hu hfirst, List.map_cons, List.sum_cons]
    ring

theorem position_applyFill {f : Fill} (h : applyFill l f b = (b', .ok ())) (a : Asset) :
    b'.position a = if a = f.asset then b.position a + f.signedQuantity else b.position a := by
  obtain ⟨c, flow, v, -, -, -, rfl⟩ := applyFill_eq_ok h
  simp only [position, OrderedMap.getD_put]
  split
  · next ha => rw [ha]
  · rfl

theorem position_of_notMem {a : Asset} (h : Action.forEach fs (applyFill l) b = (b', .ok ()))
    (ha : ∀ f ∈ fs, f.asset ≠ a) : b'.position a = b.position a := by
  induction fs generalizing b with
  | nil => rw [Action.forEach_nil_eq_ok.mp h]
  | cons f fs ih =>
    obtain ⟨u, hu, hrest⟩ := Action.forEach_cons_eq_ok.mp h
    rw [ih hrest fun g hg => ha g (List.mem_cons_of_mem f hg), position_applyFill hu,
      if_neg (ha f List.mem_cons_self).symm]

/-- The only fill for an asset moves its position by the quantity of the fill. -/
theorem position_of_mem {f : Fill} (h : Action.forEach fs (applyFill l) b = (b', .ok ()))
    (honce : fs.Pairwise fun f g => f.asset ≠ g.asset) (hf : f ∈ fs) :
    b'.position f.asset = b.position f.asset + f.signedQuantity := by
  induction fs generalizing b with
  | nil => exact absurd hf List.not_mem_nil
  | cons g fs ih =>
    obtain ⟨hg, honce⟩ := List.pairwise_cons.mp honce
    obtain ⟨u, hu, hrest⟩ := Action.forEach_cons_eq_ok.mp h
    rcases List.mem_cons.mp hf with rfl | hf
    · rw [position_of_notMem hrest fun k hk => (hg k hk).symm, position_applyFill hu, if_pos rfl]
    · rw [ih hrest honce hf, position_applyFill hu, if_neg (hg f hf).symm]

/-- Nothing is rounded where a position is added to a total. -/
def ExactPosition (l : Listings) (d : Date) (base : Currency) (market : MarketHistory)
    (fx : FxHistory) (total : Decimal) (e : Asset × Int) : Prop :=
  e.2 ≠ 0 → ∀ bar, market.bar? d e.1 = some bar → ∀ c, l.get? e.1 = some c →
    Decimal.ExactProduct bar.close (Decimal.ofInt e.2) ∧
      ∀ worth, bar.close.mul (Decimal.ofInt e.2) = .ok worth → fx.ExactConversion d base worth c ∧
        ∀ x, fx.convert d worth c base = .ok x → Decimal.ExactSum total x

/-- Nothing is rounded where a balance is added to a total. -/
def ExactBalance (d : Date) (base : Currency) (fx : FxHistory) (total : Decimal)
    (e : Currency × Decimal) : Prop :=
  e.2.isSame 0 = .ok false → fx.ExactConversion d base e.2 e.1 ∧
    ∀ x, fx.convert d e.2 e.1 base = .ok x → Decimal.ExactSum total x

/-- Nothing is rounded where the book is valued. -/
def ValuedExactly (b : Book) (l : Listings) (d : Date) (base : Currency) (market : MarketHistory)
    (fx : FxHistory) : Prop :=
  Decimal.Along (positionValue l d base market fx) (ExactPosition l d base market fx)
    b.positions.toList Decimal.zero ∧
  ∀ total, b.positions.toList.foldlM (positionValue l d base market fx) Decimal.zero = .ok total →
    Decimal.Along (balanceValue d base fx) (ExactBalance d base fx) b.cash.toList total

instance (l : Listings) (d : Date) (base : Currency) (market : MarketHistory) (fx : FxHistory)
    (total : Decimal) (e : Asset × Int) : Decidable (ExactPosition l d base market fx total e) := by
  delta ExactPosition
  infer_instance

instance (d : Date) (base : Currency) (fx : FxHistory) (total : Decimal) (e : Currency × Decimal) :
    Decidable (ExactBalance d base fx total e) := by
  delta ExactBalance
  infer_instance

instance (b : Book) (l : Listings) (d : Date) (base : Currency) (market : MarketHistory)
    (fx : FxHistory) : Decidable (b.ValuedExactly l d base market fx) := by
  delta ValuedExactly
  infer_instance

variable {base : Currency} {x : Decimal}

theorem requireBar_eq_ok {a : Asset} {bar : Bar} :
    market.requireBar d a = .ok bar ↔ market.bar? d a = some bar := by
  unfold MarketHistory.requireBar
  cases market.bar? d a <;> simp

theorem value_positionValue (hbase : fx.base = base) {total next : Decimal} {e : Asset × Int}
    (hexact : ExactPosition l d base market fx total e) (htotal : total.IsFinite)
    (h : positionValue l d base market fx total e = .ok next) :
    next.IsFinite ∧ next.value = total.value + e.2 * unitWorth l d market fx e.1 := by
  unfold positionValue at h
  by_cases he : e.2 = 0
  · rw [if_pos he] at h
    obtain rfl := Except.ok.inj h
    exact ⟨htotal, by simp [he]⟩
  · rw [if_neg he] at h
    obtain ⟨bar, hbar, h⟩ := Except.bind_eq_ok.mp h
    obtain ⟨worth, hworth, h⟩ := Except.bind_eq_ok.mp h
    obtain ⟨c, hc, h⟩ := Except.bind_eq_ok.mp h
    obtain ⟨converted, hconvert, hadd⟩ := Except.bind_eq_ok.mp h
    rw [Decimal.lift_eq_ok] at hworth hadd
    have hbar := requireBar_eq_ok.mp hbar
    have hc := Listings.currencyOf_eq_ok.mp hc
    obtain ⟨hproduct, hrest⟩ := hexact he bar hbar c hc
    obtain ⟨hconversion, hsum⟩ := hrest worth hworth
    obtain ⟨hfinite, hvalue⟩ := hsum converted hconvert next hadd
    have hclose : market.closeOn d e.1 = bar.close.value := by
      rw [MarketHistory.closeOn, hbar]
      rfl
    have hrate : l.rateOn fx d e.1 = fx.rateOn d c := by
      rw [Listings.rateOn, hc]
      rfl
    refine ⟨hfinite, ?_⟩
    rw [hvalue, hconversion.value_eq hbase hconvert, (hproduct worth hworth).2,
      Decimal.value_ofInt, unitWorth, hclose, hrate]
    ring

theorem value_balanceValue (hbase : fx.base = base) {total next : Decimal} {e : Currency × Decimal}
    (hexact : ExactBalance d base fx total e) (htotal : total.IsFinite)
    (h : balanceValue d base fx total e = .ok next) :
    next.IsFinite ∧ next.value = total.value + e.2.value * fx.rateOn d e.1 := by
  obtain ⟨zero, hzero, h⟩ := Except.bind_eq_ok.mp h
  cases zero with
  | true =>
    obtain rfl := Except.pure_eq_ok.mp h
    have hnothing := Decimal.value_of_isSame_zero (Decimal.lift_eq_ok.mp hzero)
    exact ⟨htotal, by simp [hnothing]⟩
  | false =>
    obtain ⟨converted, hconvert, hadd⟩ := Except.bind_eq_ok.mp h
    obtain ⟨hconversion, hsum⟩ := hexact (Decimal.lift_eq_ok.mp hzero)
    obtain ⟨hfinite, hvalue⟩ := hsum converted hconvert next (Decimal.lift_eq_ok.mp hadd)
    refine ⟨hfinite, ?_⟩
    rw [hvalue, hconversion.value_eq hbase hconvert]

theorem value_totalValue (hbase : fx.base = base) (h : b.ValuedExactly l d base market fx)
    (hx : b.totalValue l d base market fx = .ok x) :
    x.IsFinite ∧ x.value = b.worth l d market fx := by
  obtain ⟨total, hpositions, hcash⟩ := Except.bind_eq_ok.mp hx
  have hzero : Decimal.zero.IsFinite := trivial
  obtain ⟨hfinite, htotal⟩ := h.1.value_eq hzero hpositions (value_positionValue hbase)
  obtain ⟨hfinite', hvalue⟩ :=
    (h.2 total hpositions).value_eq hfinite hcash (value_balanceValue hbase)
  refine ⟨hfinite', ?_⟩
  rw [hvalue, htotal, Decimal.value_zero, zero_add, worth]

theorem rate_of_convert {amount y : Decimal} {c : Currency} (hbase : fx.base = base)
    (h : fx.convert d amount c base = .ok y) : ∃ r, fx.rate d c = .ok r := by
  unfold FxHistory.convert at h
  split at h
  · next hc => exact ⟨1, by rw [FxHistory.rate, if_pos (hc.trans hbase.symm)]⟩
  · obtain ⟨r, hr, -⟩ := Except.bind_eq_ok.mp h
    exact ⟨r, hr⟩

/-- What is held on a day that can be valued has a close and a rate on that day. -/
theorem listed_of_position_ne_zero (hbase : fx.base = base)
    (hx : b.totalValue l d base market fx = .ok x) {a : Asset} (ha : b.position a ≠ 0) :
    ∃ c bar r, l.get? a = some c ∧ market.bar? d a = some bar ∧ fx.rate d c = .ok r := by
  obtain ⟨total, hpositions, -⟩ := Except.bind_eq_ok.mp hx
  obtain ⟨k, hk, hne⟩ : ∃ k, b.positions.get? a = some k ∧ k ≠ 0 := by
    rw [position, OrderedMap.getD] at ha
    cases hget : b.positions.get? a with
    | none => simp [hget] at ha
    | some k => exact ⟨k, rfl, by simpa [hget] using ha⟩
  obtain ⟨start, next, hstep⟩ :=
    Except.exists_step_of_mem hpositions (OrderedMap.get?_eq_some_iff.mp hk)
  rw [positionValue, if_neg hne] at hstep
  obtain ⟨bar, hbar, hstep⟩ := Except.bind_eq_ok.mp hstep
  obtain ⟨worth, -, hstep⟩ := Except.bind_eq_ok.mp hstep
  obtain ⟨c, hc, hstep⟩ := Except.bind_eq_ok.mp hstep
  obtain ⟨converted, hconvert, -⟩ := Except.bind_eq_ok.mp hstep
  obtain ⟨r, hr⟩ := rate_of_convert hbase hconvert
  exact ⟨c, bar, r, Listings.currencyOf_eq_ok.mp hc, requireBar_eq_ok.mp hbar, hr⟩

/-- A balance that is worth something on a day that can be valued has a rate on that day. -/
theorem rate_of_balance_ne_zero (hbase : fx.base = base)
    (hx : b.totalValue l d base market fx = .ok x) {c : Currency} (hc : (b.balance c).value ≠ 0) :
    ∃ r, fx.rate d c = .ok r := by
  obtain ⟨total, -, hcash⟩ := Except.bind_eq_ok.mp hx
  obtain ⟨v, hv, hne⟩ : ∃ v, b.cash.get? c = some v ∧ v.value ≠ 0 := by
    rw [balance, OrderedMap.getD] at hc
    cases hget : b.cash.get? c with
    | none =>
      rw [hget] at hc
      exact absurd Decimal.value_zero hc
    | some v => exact ⟨v, rfl, by simpa [hget] using hc⟩
  obtain ⟨start, next, hstep⟩ :=
    Except.exists_step_of_mem hcash (OrderedMap.get?_eq_some_iff.mp hv)
  obtain ⟨zero, hzero, hstep⟩ := Except.bind_eq_ok.mp hstep
  cases zero with
  | true => exact absurd (Decimal.value_of_isSame_zero (Decimal.lift_eq_ok.mp hzero)) hne
  | false =>
    obtain ⟨converted, hconvert, -⟩ := Except.bind_eq_ok.mp hstep
    exact rate_of_convert hbase hconvert

end Book
end Backtesting
