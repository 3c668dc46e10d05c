import Backtesting.Proofs.Decimal.Extended
import Backtesting.Proofs.Market.Conversion
import Backtesting.Proofs.Strategy.LongOnly
import Mathlib.Algebra.BigOperators.Ring.List
import Mathlib.Algebra.Order.BigOperators.Group.List

/-!
What the sizes of a strategy cost. The part of the capital that an asset is given is rounded three
times before the whole part of the quotient is taken, so as many units are wanted as that part pays
for, up to these roundings: not one more, and not one less.
-/
namespace Backtesting

open Decimal (InRange WithinSteps drift)

theorem Signal.direction_eq_zero {s : Signal} : s.direction = 0 ↔ s = .exit := by
  cases s <;> decide

theorem Signal.abs_direction {s : Signal} (h : s ≠ .exit) : |(s.direction : ℚ)| = 1 := by
  cases s <;> simp_all [Signal.direction]

namespace Decimal

variable {q unit v : ℚ}

theorem drift_three_le : drift 3 ≤ 2 * 10 ^ (-27 : ℤ) := by
  norm_num [drift, halfUnit]

/-- What is not above zero is not rounded above zero. -/
theorem WithinSteps.nonpos (h : WithinSteps 3 q v) (hv : v ≤ 0) : q ≤ 0 := by
  have hclose := (abs_le.mp h).2
  have hdrift : drift 3 ≤ 1 := drift_three_le.trans (by norm_num)
  have herror : drift 3 * |v| ≤ 1 * |v| := mul_le_mul_of_nonneg_right hdrift (abs_nonneg v)
  rw [abs_of_nonpos hv] at hclose herror
  linarith

/-- The whole part of how often a price is paid for, where that is right up to three roundings. -/
theorem WithinSteps.floor_bounds (h : WithinSteps 3 q (v / unit)) (hunit : 0 < unit) (hv : 0 < v) :
    0 ≤ ⌊q⌋ ∧ ⌊q⌋ * unit ≤ v * (1 + 2 * 10 ^ (-27 : ℤ)) ∧
      v * (1 - 2 * 10 ^ (-27 : ℤ)) < (⌊q⌋ + 1) * unit := by
  have hpaid : |q * unit - v| ≤ 2 * 10 ^ (-27 : ℤ) * v := by
    have hscaled := (h.mul_right unit).abs_sub_le_mul drift_three_le
    rwa [div_mul_cancel₀ v hunit.ne', abs_of_pos hv] at hscaled
  obtain ⟨hlow, hhigh⟩ := abs_le.mp hpaid
  have hfloor : ⌊q⌋ * unit ≤ q * unit := mul_le_mul_of_nonneg_right (Int.floor_le q) hunit.le
  have hnext : q * unit < (⌊q⌋ + 1) * unit := mul_lt_mul_of_pos_right (Int.lt_floor_add_one q) hunit
  refine ⟨Int.floor_nonneg.mpr ?_, by linarith, by linarith⟩
  have hsmall : 2 * 10 ^ (-27 : ℤ) * v ≤ 1 * v := mul_le_mul_of_nonneg_right (by norm_num) hv.le
  have hproduct : 0 ≤ q * unit := by linarith
  exact nonneg_of_mul_nonneg_left hproduct hunit

end Decimal

namespace Sizer

variable {sizer : Sizer} {b : Book} {l : Listings} {d : Date} {signals : Signals}
  {market : MarketHistory} {fx : FxHistory} {a : Asset} {capital : Decimal} {weights : Weights}
  {sig : Signal} {k : Int}

/-- Nothing that the size of an asset is reckoned from is infinite or undefined, and no result on the
way is lost to its size. -/
structure ReckonsInRange (l : Listings) (d : Date) (capital : Decimal) (weights : Weights)
    (market : MarketHistory) (fx : FxHistory) (a : Asset) : Prop where
  weight : ∀ w, weights.get? a = some w → w.IsFinite
  close : ∀ bar, market.bar? d a = some bar → bar.close.IsFinite
  rate : ∀ c r, l.get? a = some c → fx.rate d c = .ok r → r.IsFinite
  product : ∀ w, weights.get? a = some w →
    InRange (capital.mul w) (capital.value * w.value)
  conversion : ∀ w c x, weights.get? a = some w → l.get? a = some c → capital.mul w = .ok x →
    fx.ConvertsInRange d x fx.base c
  quotient : ∀ w c x y bar, weights.get? a = some w → l.get? a = some c →
    capital.mul w = .ok x → fx.convert d x fx.base c = .ok y → market.bar? d a = some bar →
    InRange (y.div bar.close) (y.value / bar.close.value)

theorem reckonsInRange_of_results {w r x y q : Decimal} {c : Currency} {bar : Bar}
    (hw : weights.get? a = some w) (hbar : market.bar? d a = some bar) (hc : l.get? a = some c)
    (hr : fx.rate d c = .ok r) (hwfinite : w.IsFinite) (hclose : bar.close.IsFinite)
    (hrfinite : r.IsFinite) (hx : capital.mul w = .ok x)
    (hproduct : x.value = capital.value * w.value ∨ 1 ≤ |capital.value * w.value|)
    (hy : fx.convert d x fx.base c = .ok y) (hconversion : fx.ConvertsInRange d x fx.base c)
    (hq : y.div bar.close = .ok q)
    (hquotient : q.value = y.value / bar.close.value ∨ 1 ≤ |y.value / bar.close.value|) :
    ReckonsInRange l d capital weights market fx a where
  weight w' hw' := Option.some.inj (hw.symm.trans hw') ▸ hwfinite
  close bar' hbar' := Option.some.inj (hbar.symm.trans hbar') ▸ hclose
  rate c' r' hc' hr' := by
    obtain rfl := Option.some.inj (hc.symm.trans hc')
    exact Except.ok.inj (hr.symm.trans hr') ▸ hrfinite
  product w' hw' := by
    obtain rfl := Option.some.inj (hw.symm.trans hw')
    exact Decimal.inRange_of_eq_ok hx hproduct
  conversion w' c' x' hw' hc' hx' := by
    obtain rfl := Option.some.inj (hw.symm.trans hw')
    obtain rfl := Option.some.inj (hc.symm.trans hc')
    obtain rfl := Except.ok.inj (hx.symm.trans hx')
    exact hconversion
  quotient w' c' x' y' bar' hw' hc' hx' hy' hbar' := by
    obtain rfl := Option.some.inj (hw.symm.trans hw')
    obtain rfl := Option.some.inj (hc.symm.trans hc')
    obtain rfl := Except.ok.inj (hx.symm.trans hx')
    obtain rfl := Except.ok.inj (hy.symm.trans hy')
    obtain rfl := Option.some.inj (hbar.symm.trans hbar')
    exact Decimal.inRange_of_eq_ok hq hquotient

/-- What is wanted of an asset costs the part of the capital that the asset is given, if that is
above zero. -/
structure Affords (part unit : ℚ) (direction k : Int) : Prop where
  nothing : part ≤ 0 → k = 0
  units : 0 < part → ∃ n : Nat, k = direction * n ∧
    n * unit ≤ part * (1 + 2 * 10 ^ (-27 : ℤ)) ∧
    part * (1 - 2 * 10 ^ (-27 : ℤ)) < (n + 1) * unit

/-- The units of one asset cost no more than the asset is given. -/
theorem Affords.cost_le {part unit : ℚ} (h : Affords part unit sig.direction k) (hsig : sig ≠ .exit)
    (hpart : 0 ≤ part) : |(k : ℚ)| * unit ≤ part * (1 + 2 * 10 ^ (-27 : ℤ)) := by
  rcases hpart.eq_or_lt with hzero | hpos
  · rw [h.nothing hzero.ge, ← hzero]
    simp
  · obtain ⟨n, rfl, hcost, -⟩ := h.units hpos
    have hsize : |((sig.direction * n : Int) : ℚ)| = n := by
      rw [Int.cast_mul, abs_mul, Signal.abs_direction hsig, one_mul]
      exact abs_of_nonneg (by positivity)
    rwa [hsize]

theorem affords_of_size (hpositive : fx.HasPositiveRates) (hcapital : capital.IsFinite)
    (hrange : ReckonsInRange l d capital weights market fx a) (hdirection : sig.direction ≠ 0)
    (h : size l d capital weights market fx a sig = .ok k) :
    ∃ w, weights.get? a = some w ∧ 0 < Book.unitWorth l d market fx a ∧
      Affords (capital.value * w.value) (Book.unitWorth l d market fx a) sig.direction k := by
  obtain ⟨bar, w, c, x, y, q, m, hbar, hcheap, hw, hc, hx, hy, hq, hm, rfl⟩ :=
    exists_quantity_of_size h hdirection
  refine ⟨w, hw, ?_⟩
  have hclosefinite := hrange.close bar hbar
  have hclose := Decimal.pos_of_isAtMost_zero hcheap hclosefinite
  obtain ⟨r, hr⟩ := FxHistory.exists_rate_of_convert_base hy
  have hrfinite := hrange.rate c r hc hr
  have hunit : Book.unitWorth l d market fx a = bar.close.value * fx.rateOn d c := by
    simp [Book.unitWorth, MarketHistory.closeOn, hbar, Listings.rateOn, hc]
  have hrate := FxHistory.rateOn_pos hpositive hr hrfinite
  rw [hunit]
  refine ⟨mul_pos hclose hrate, ?_⟩
  -- the product, the quotient by the rate and the quotient by the close are rounded
  obtain ⟨x', hx', hxfinite, hproduct⟩ :=
    (hrange.product w hw).exists_mul hcapital (hrange.weight w hw)
  obtain rfl := Except.ok.inj (hx.symm.trans hx')
  obtain ⟨y', hy', hyfinite, hconversion⟩ := FxHistory.convert_base_withinSteps hpositive hxfinite
    (Decimal.isResult_mul hx) hr hrfinite (hrange.conversion w c x hw hc hx)
  obtain rfl := Except.ok.inj (hy.symm.trans hy')
  obtain ⟨q', hq', hqfinite, hquotient⟩ :=
    (hrange.quotient w c x y bar hw hc hx hy hbar).exists_div hyfinite hclose.ne'
  obtain rfl := Except.ok.inj (hq.symm.trans hq')
  obtain rfl := Except.ok.inj (hm.symm.trans (Decimal.floorInt_of_isFinite hqfinite))
  have hsteps : WithinSteps 3 q.value
      (capital.value * w.value / (bar.close.value * fx.rateOn d c)) := by
    rw [mul_comm bar.close.value, ← div_div]
    have hbased := hconversion.trans (hproduct.div_right (fx.rateOn d c))
    have hall := hquotient.trans (hbased.div_right bar.close.value)
    exact hall
  refine ⟨fun hpart => ?_, fun hpart => ?_⟩
  · have hquotient : q.value ≤ 0 := hsteps.nonpos
      (div_nonpos_of_nonpos_of_nonneg hpart (mul_pos hclose hrate).le)
    have hfloor : ⌊q.value⌋ ≤ 0 := by
      have hcast : (⌊q.value⌋ : ℚ) ≤ 0 := (Int.floor_le q.value).trans hquotient
      exact_mod_cast hcast
    rw [max_eq_right hfloor, mul_zero]
  · obtain ⟨hnonneg, hcost, hmore⟩ := hsteps.floor_bounds (mul_pos hclose hrate) hpart
    obtain ⟨n, hn⟩ := Int.eq_ofNat_of_zero_le hnonneg
    rw [hn] at hcost hmore ⊢
    refine ⟨n, by rw [max_eq_left (Int.natCast_nonneg n)], ?_, ?_⟩
    · exact_mod_cast hcost
    · exact_mod_cast hmore

/-- What is signaled to be left is wanted no more; of everything else as much is wanted as its part
of the capital pays for. -/
theorem affords_of_sizesFor (hpositive : fx.HasPositiveRates) {sizes : OrderedMap Asset Int}
    (h : sizer.sizesFor b l d signals market fx = .ok sizes)
    (hcapital : Sizer.capital b l d market fx = .ok capital)
    (hweights : sizer.weightsFor d signals market = .ok weights) (hfinite : capital.IsFinite)
    (hrange : ∀ a sig, signals.get? a = some sig → sig ≠ .exit →
      ReckonsInRange l d capital weights market fx a)
    (hsig : signals.get? a = some sig) : ∃ k, sizes.get? a = some k ∧ (sig = .exit → k = 0) ∧
      (sig ≠ .exit → ∃ w, weights.get? a = some w ∧ 0 < Book.unitWorth l d market fx a ∧
        Affords (capital.value * w.value) (Book.unitWorth l d market fx a) sig.direction k) := by
  have hkey : a ∈ sizes.keys := keys_of_sizesFor h ▸ OrderedMap.mem_keys_of_get? hsig
  obtain ⟨k, hk⟩ := OrderedMap.mem_keys_iff.mp hkey
  obtain ⟨weights', capital', sig', hweights', hcapital', hsig', hsize⟩ :=
    mem_sizesFor h (OrderedMap.get?_eq_some_iff.mp hk)
  obtain rfl := Except.ok.inj (hweights.symm.trans hweights')
  obtain rfl := Except.ok.inj (hcapital.symm.trans hcapital')
  obtain rfl := Option.some.inj (hsig.symm.trans (OrderedMap.get?_eq_some_iff.mpr hsig'))
  refine ⟨k, hk, ?_, fun hwanted => ?_⟩
  · rintro rfl
    exact (Except.ok.inj hsize).symm
  · exact affords_of_size hpositive hfinite (hrange a sig hsig hwanted)
      (fun hzero => hwanted (Signal.direction_eq_zero.mp hzero)) hsize

/-- Exactly what is signaled is sized, in the same order. What is to be left is wanted no more, nothing
is wanted for a part of the capital that is not above zero, and any other part is spent up to less than
one unit, on the side that is signaled. Where no part is below zero, all of it together costs no more
than the parts do. -/
theorem sizes_within_budget (sizer : Sizer) (b : Book) (l : Listings) (d : Date) (signals : Signals)
    (market : MarketHistory) (base : Currency) (days : List (Date × List (String × Amount)))
    {sizes : OrderedMap Asset Int}
    (h : sizer.sizesFor b l d signals market (FxHistory.recorded base days) = .ok sizes) :
    let fx := FxHistory.recorded base days
    sizes.keys = signals.keys ∧
    (signals.keys ≠ [] → ∃ capital weights, Sizer.capital b l d market fx = .ok capital ∧
      sizer.weightsFor d signals market = .ok weights) ∧
    ∀ capital weights, Sizer.capital b l d market fx = .ok capital →
      sizer.weightsFor d signals market = .ok weights → capital.IsFinite →
      (∀ a sig, signals.get? a = some sig → sig ≠ .exit →
        ReckonsInRange l d capital weights market fx a) →
      (∀ a sig, signals.get? a = some sig → ∃ k, sizes.get? a = some k ∧ (sig = .exit → k = 0) ∧
        (sig ≠ .exit → ∃ w, weights.get? a = some w ∧
          0 < market.closeOn d a * l.rateOn fx d a ∧
          Affords (capital.value * w.value) (market.closeOn d a * l.rateOn fx d a) sig.direction
            k)) ∧
      ((∀ a sig w, signals.get? a = some sig → sig ≠ .exit → weights.get? a = some w →
          0 ≤ capital.value * w.value) →
        (sizes.toList.map fun e =>
            |(e.2 : ℚ)| * (market.closeOn d e.1 * l.rateOn fx d e.1)).sum ≤
          capital.value * (signals.toList.map fun e =>
              if e.2 = .exit then 0 else (weights.getD e.1 0).value).sum *
            (1 + 2 * 10 ^ (-27 : ℤ))) := by
  intro fx
  have hkeys := keys_of_sizesFor h
  refine ⟨hkeys, fun hnonempty => ?_, fun capital weights hcapital hweights hfinite hrange => ?_⟩
  · obtain ⟨a, ha⟩ := List.exists_mem_of_ne_nil _ (hkeys ▸ hnonempty)
    obtain ⟨k, hk⟩ := OrderedMap.mem_keys_iff.mp ha
    obtain ⟨weights, capital, -, hweights, hcapital, -⟩ :=
      mem_sizesFor h (OrderedMap.get?_eq_some_iff.mp hk)
    exact ⟨capital, weights, hcapital, hweights⟩
  have hpositive : fx.HasPositiveRates := FxHistory.hasPositiveRates_recorded base days
  have hsized : ∀ a sig, signals.get? a = some sig → _ := fun a sig hsig =>
    affords_of_sizesFor hpositive h hcapital hweights hfinite hrange hsig
  refine ⟨hsized, fun hparts => ?_⟩
  rw [OrderedMap.sum_toList sizes fun a k =>
      |(k : ℚ)| * (market.closeOn d a * l.rateOn fx d a), hkeys, OrderedMap.keys, List.map_map,
    ← List.sum_map_mul_left, ← List.sum_map_mul_right]
  apply List.sum_le_sum
  rintro ⟨a, sig⟩ he
  have hsig : signals.get? a = some sig := OrderedMap.get?_eq_some_iff.mpr he
  obtain ⟨k, hk, hexit, hwanted⟩ := hsized a sig hsig
  by_cases hleft : sig = .exit
  · simp [hk, hleft, hexit hleft]
  · obtain ⟨w, hw, -, hafford⟩ := hwanted hleft
    have hcost := hafford.cost_le hleft (hparts a sig w hsig hleft hw)
    simpa [hk, hleft, hw, OrderedMap.getD, Book.unitWorth] using hcost

/-- A thousand dollars are 333.33… euros at three dollars each, which pay for 33 units at ten euros. -/
theorem sizes_within_budget_abroad :
    let d : Date := ⟨2024, 1, 2, by decide, by decide, by decide⟩
    let days := [(d, [("EUR", Amount.known (.ofInt 3))])]
    let fx := FxHistory.recorded .usd days
    let bar : Bar := ⟨⟨10, 10, 10, 10, 10, 100, 0, 1⟩, rfl⟩
    let market : MarketHistory :=
      ⟨Chronicle.empty.put d (OrderedMap.ofList [("A", bar), ("B", bar)])⟩
    let l : Listings := OrderedMap.ofList [("A", .eur), ("B", .usd)]
    let b := Book.start (OrderedMap.ofList [(.usd, .ofInt 1000)])
    let weights : Weights := OrderedMap.ofList [("A", .ofInt 1), ("B", .ofInt 1)]
    let signals : Signals := OrderedMap.ofList [("A", .short), ("B", .exit)]
    let sizes : OrderedMap Asset Int := OrderedMap.ofList [("A", -33), ("B", 0)]
    (fixedWeight weights).sizesFor b l d signals market fx = .ok sizes ∧
      Sizer.capital b l d market fx = .ok (.ofInt 1000) ∧
      ReckonsInRange l d (.ofInt 1000) weights market fx "A" ∧
      (∃ k w, sizes.get? "A" = some k ∧ weights.get? "A" = some w ∧
        Affords ((Decimal.ofInt 1000).value * w.value)
          (market.closeOn d "A" * l.rateOn fx d "A") (-1) k) ∧
      (sizes.toList.map fun e => |(e.2 : ℚ)| * (market.closeOn d e.1 * l.rateOn fx d e.1)).sum ≤
        (Decimal.ofInt 1000).value * (signals.toList.map fun e =>
            if e.2 = .exit then 0 else (weights.getD e.1 0).value).sum *
          (1 + 2 * 10 ^ (-27 : ℤ)) := by
  intro d days fx bar market l b weights signals sizes
  have hsizes : (fixedWeight weights).sizesFor b l d signals market fx = .ok sizes :=
    Except.eq_ok_of_toOption (by decide +kernel)
  have hcapital : Sizer.capital b l d market fx = .ok (.ofInt 1000) :=
    Except.eq_ok_of_toOption (by decide +kernel)
  have hweights : (fixedWeight weights).weightsFor d signals market = .ok weights :=
    Except.eq_ok_of_toOption (by decide +kernel)
  have hbar : market.bar? d "A" = some bar := by decide +kernel
  have husd : fx.rate d .usd = .ok (.ofInt 1) := Except.eq_ok_of_toOption (by decide +kernel)
  have heur : fx.rate d .eur = .ok (.ofInt 3) := Except.eq_ok_of_toOption (by decide +kernel)
  have hproduct : (Decimal.ofInt 1000).mul (.ofInt 1) = .ok (.ofInt 1000) := rfl
  have hconvert : fx.convert d (.ofInt 1000) .usd .eur =
      .ok (.finite false 3333333333333333333333333333 (-25)) :=
    Except.eq_ok_of_toOption (by decide +kernel)
  have hconversion : fx.ConvertsInRange d (.ofInt 1000) .usd .eur :=
    FxHistory.convertsInRange_of_rates husd heur hproduct
      (y := .finite false 3333333333333333333333333333 (-25)) (by decide +kernel)
      (Or.inl (by norm_num [Decimal.value_ofInt])) (Or.inr (by norm_num [Decimal.value_ofInt]))
  have hquotient : Decimal.div (.finite false 3333333333333333333333333333 (-25)) bar.close =
      .ok (.finite false 3333333333333333333333333333 (-26)) := by decide +kernel
  have hreckons : ReckonsInRange l d (.ofInt 1000) weights market fx "A" := by
    refine reckonsInRange_of_results rfl hbar rfl heur trivial trivial trivial hproduct
      (Or.inl ?_) hconvert hconversion hquotient (Or.inl ?_)
    · norm_num [Decimal.value_ofInt]
    · have hclose : bar.close.value = 10 := Decimal.value_ofInt 10
      rw [hclose]
      norm_num [Decimal.value, Decimal.signed]
  have honly : ∀ a sig, signals.get? a = some sig → sig ≠ .exit → a = "A" ∧ sig = .short := by
    intro a sig hsig hwanted
    have hmem : (a, sig) ∈ [("A", Signal.short), ("B", Signal.exit)] :=
      OrderedMap.get?_eq_some_iff.mp hsig
    simp only [List.mem_cons, Prod.mk.injEq, List.not_mem_nil, or_false] at hmem
    rcases hmem with ⟨rfl, rfl⟩ | ⟨rfl, rfl⟩
    · exact ⟨rfl, rfl⟩
    · exact absurd rfl hwanted
  obtain ⟨-, -, hbudget⟩ :=
    sizes_within_budget (fixedWeight weights) b l d signals market .usd days hsizes
  obtain ⟨hsized, htotal⟩ := hbudget _ _ hcapital hweights trivial fun a sig hsig hwanted =>
    (honly a sig hsig hwanted).1 ▸ hreckons
  obtain ⟨k, hk, -, hwanted⟩ := hsized "A" .short rfl
  obtain ⟨w, hw, -, hafford⟩ := hwanted (by decide)
  refine ⟨hsizes, hcapital, hreckons, ⟨k, w, hk, hw, hafford⟩, htotal fun a sig w hsig hwanted hw => ?_⟩
  obtain ⟨rfl, -⟩ := honly a sig hsig hwanted
  obtain rfl : Decimal.ofInt 1 = w := Option.some.inj hw
  norm_num [Decimal.value_ofInt]

/-- A book in debt buys nothing, and nothing costs more than a part of the debt. -/
theorem debt_is_not_spent :
    let d : Date := ⟨2024, 1, 2, by decide, by decide, by decide⟩
    let fx := FxHistory.recorded .usd []
    let market : MarketHistory :=
      ⟨Chronicle.empty.put d (OrderedMap.ofList [("A", ⟨⟨10, 10, 10, 10, 10, 100, 0, 1⟩, rfl⟩)])⟩
    let l : Listings := OrderedMap.ofList [("A", .usd)]
    let b := Book.start (OrderedMap.ofList [(.usd, .ofInt (-100))])
    let weights : Weights := OrderedMap.ofList [("A", .ofInt 1)]
    let signals : Signals := OrderedMap.ofList [("A", .long)]
    let sizes : OrderedMap Asset Int := OrderedMap.ofList [("A", 0)]
    (fixedWeight weights).sizesFor b l d signals market fx = .ok sizes ∧
      Sizer.capital b l d market fx = .ok (.ofInt (-100)) ∧
      (fixedWeight weights).weightsFor d signals market = .ok weights ∧
      ¬ (sizes.toList.map fun e => |(e.2 : ℚ)| * (market.closeOn d e.1 * l.rateOn fx d e.1)).sum ≤
        (Decimal.ofInt (-100)).value * (signals.toList.map fun e =>
            if e.2 = .exit then 0 else (weights.getD e.1 0).value).sum *
          (1 + 2 * 10 ^ (-27 : ℤ)) := by
  intro d fx market l b weights signals sizes
  refine ⟨Except.eq_ok_of_toOption (by decide +kernel), Except.eq_ok_of_toOption (by decide +kernel),
    Except.eq_ok_of_toOption (by decide +kernel), ?_⟩
  have htotal : (sizes.toList.map fun e =>
      |(e.2 : ℚ)| * (market.closeOn d e.1 * l.rateOn fx d e.1)).sum = 0 := by
    have hentries : sizes.toList = [("A", 0)] := rfl
    simp [hentries]
  have hweight : (signals.toList.map fun e =>
      if e.2 = Signal.exit then 0 else (weights.getD e.1 0).value).sum = 1 := by
    have hentries : signals.toList = [("A", .long)] := rfl
    have hget : weights.getD "A" 0 = .ofInt 1 := rfl
    simp [hentries, hget, Decimal.value_ofInt]
  rw [htotal, hweight, Decimal.value_ofInt]
  norm_num

end Sizer
end Backtesting
