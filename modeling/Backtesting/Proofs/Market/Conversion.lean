import Backtesting.Proofs.Decimal.Relative
import Backtesting.Proofs.Decimal.Total
import Backtesting.Proofs.Market.Rates
import Backtesting.Proofs.Market.Split
import Backtesting.Proofs.Strategy.Worth

/-!
Conversions between currencies. An amount goes through the base currency by the rates of the one day,
with a rounding on each leg. Rates are positive, so a detour or a way back costs two more roundings
and nothing else.
-/
namespace Backtesting

open Decimal (InRange WithinSteps drift)

namespace FxHistory

variable {h : FxHistory} {d : Date} {a b c k : Currency} {amount r s x : Decimal}

/-- The history that takes in one day after the other; a refused day leaves it as it was. -/
def recorded (base : Currency) (days : List (Date × List (String × Amount))) : FxHistory :=
  days.foldl (fun h day => (h.append day.1 day.2).toOption.getD h) (empty base)

theorem hasPositiveRates_recorded (base : Currency) (days : List (Date × List (String × Amount))) :
    (recorded base days).HasPositiveRates := by
  have hfold : ∀ h : FxHistory, h.HasPositiveRates →
      (days.foldl (fun h day => (h.append day.1 day.2).toOption.getD h) h).HasPositiveRates := by
    induction days with
    | nil => exact fun h hpositive => hpositive
    | cons day days ih =>
      intro h hpositive
      refine ih _ ?_
      show ((h.append day.1 day.2).toOption.getD h).HasPositiveRates
      cases hday : h.append day.1 day.2 with
      | error e => exact hpositive
      | ok g => exact hasPositiveRates_append hpositive hday
  exact hfold _ fun e he => absurd he List.not_mem_nil

/-- A currency other than the base currency that no rate is recorded of on the day itself. -/
def Lacks (h : FxHistory) (d : Date) (c : Currency) : Prop :=
  c ≠ h.base ∧ ∀ rates, (d, rates) ∈ h.rates.days → c ∉ rates.keys

theorem rate_of_lacks (hlacks : h.Lacks d c) : h.rate d c = .error (.noFxRate d c) := by
  obtain ⟨hbase, hnone⟩ := hlacks
  unfold rate
  rw [if_neg hbase]
  split
  · rfl
  · next rates hrates =>
    have hmissing : rates.get? c = none :=
      OrderedMap.get?_eq_none_iff.mpr (hnone rates (Chronicle.get?_eq_some_iff.mp hrates))
    rw [hmissing]

theorem exists_rate (hlacks : ¬ h.Lacks d c) : ∃ r, h.rate d c = .ok r := by
  unfold rate
  split
  · exact ⟨1, rfl⟩
  · next hbase =>
    obtain ⟨rates, hday, hkey⟩ : ∃ rates, (d, rates) ∈ h.rates.days ∧ c ∈ rates.keys := by
      by_contra hnone
      exact hlacks ⟨hbase, fun rates hday hkey => hnone ⟨rates, hday, hkey⟩⟩
    obtain ⟨r, hr⟩ := OrderedMap.mem_keys_iff.mp hkey
    refine ⟨r, ?_⟩
    rw [Chronicle.get?_eq_some_iff.mpr hday]
    simp only [hr]

theorem not_lacks_of_rate (hr : h.rate d c = .ok r) : ¬ h.Lacks d c := by
  intro hlacks
  rw [rate_of_lacks hlacks] at hr
  exact nomatch hr

theorem rateOn_of_rate (hr : h.rate d c = .ok r) : h.rateOn d c = r.value := by
  rw [rateOn, hr]

theorem rate_pos (hpositive : h.HasPositiveRates) (hr : h.rate d c = .ok r) (hfinite : r.IsFinite) :
    0 < r.value := by
  unfold rate at hr
  split at hr
  · obtain rfl := Except.ok.inj hr
    rw [Decimal.value_one]
    exact one_pos
  · split at hr
    · cases hr
    · next rates hrates =>
      split at hr
      · next r' hr' =>
        obtain rfl := Except.ok.inj hr
        exact Decimal.pos_of_isAtMost_zero (hpositive _ (Chronicle.mem_of_find? hrates) (c, r')
          (OrderedMap.get?_eq_some_iff.mp hr')) hfinite
      · cases hr

theorem rateOn_pos (hpositive : h.HasPositiveRates) (hr : h.rate d c = .ok r)
    (hfinite : r.IsFinite) : 0 < h.rateOn d c := by
  rw [rateOn_of_rate hr]
  exact rate_pos hpositive hr hfinite

/-- Neither the product nor the quotient that a conversion takes is lost to its size. -/
structure ConvertsInRange (h : FxHistory) (d : Date) (amount : Decimal) (a b : Currency) : Prop where
  product : ∀ r, a ≠ b → h.rate d a = .ok r → InRange (amount.mul r) (amount.value * r.value)
  quotient : ∀ r x s, a ≠ b → b ≠ h.base → h.rate d a = .ok r → amount.mul r = .ok x →
    h.rate d b = .ok s → InRange (x.div s) (x.value / s.value)

theorem convertsInRange_of_rates {y : Decimal} (hr : h.rate d a = .ok r) (hs : h.rate d b = .ok s)
    (hx : amount.mul r = .ok x) (hy : x.div s = .ok y)
    (hproduct : x.value = amount.value * r.value ∨ 1 ≤ |amount.value * r.value|)
    (hquotient : y.value = x.value / s.value ∨ 1 ≤ |x.value / s.value|) :
    h.ConvertsInRange d amount a b where
  product r' _ hr' := by
    obtain rfl := Except.ok.inj (hr.symm.trans hr')
    exact Decimal.inRange_of_eq_ok hx hproduct
  quotient r' x' s' _ _ hr' hx' hs' := by
    obtain rfl := Except.ok.inj (hr.symm.trans hr')
    obtain rfl := Except.ok.inj (hx.symm.trans hx')
    obtain rfl := Except.ok.inj (hs.symm.trans hs')
    exact Decimal.inRange_of_eq_ok hy hquotient

theorem convert_self (h : FxHistory) (d : Date) (amount : Decimal) (a : Currency) :
    h.convert d amount a a = .ok amount := if_pos rfl

theorem convert_of_rates (hab : a ≠ b) (hr : h.rate d a = .ok r) (hs : h.rate d b = .ok s)
    (hx : amount.mul r = .ok x) :
    h.convert d amount a b = if b = h.base then .ok x else Decimal.lift (x.div s) := by
  unfold convert
  rw [if_neg hab, hr, Except.ok_bind, hx, Decimal.lift_ok, Except.ok_bind, hs, Except.ok_bind]
  rfl

/-- Between two currencies the result is the exact one up to a rounding for each leg. -/
theorem convert_withinSteps (hpositive : h.HasPositiveRates) (hamount : amount.IsFinite)
    (hr : h.rate d a = .ok r) (hs : h.rate d b = .ok s) (hrfinite : r.IsFinite)
    (hsfinite : s.IsFinite) (hrange : h.ConvertsInRange d amount a b) :
    ∃ x, h.convert d amount a b = .ok x ∧ x.IsFinite ∧
      WithinSteps 2 x.value (amount.value * h.rateOn d a / h.rateOn d b) := by
  rw [rateOn_of_rate hr, rateOn_of_rate hs]
  have hspos := rate_pos hpositive hs hsfinite
  by_cases hab : a = b
  · subst hab
    obtain rfl := Except.ok.inj (hr.symm.trans hs)
    refine ⟨amount, convert_self h d amount a, hamount, ?_⟩
    rw [mul_div_assoc, div_self hspos.ne', mul_one]
    exact .refl 2 _
  obtain ⟨x, hx, hxfinite, hproduct⟩ := (hrange.product r hab hr).exists_mul hamount hrfinite
  rw [convert_of_rates hab hr hs hx]
  by_cases hbase : b = h.base
  · have hone : s = 1 := by
      rw [hbase, rate_base] at hs
      exact (Except.ok.inj hs).symm
    refine ⟨x, if_pos hbase, hxfinite, ?_⟩
    rw [hone, Decimal.value_one, div_one]
    exact hproduct.mono (by omega)
  · obtain ⟨y, hy, hyfinite, hquotient⟩ :=
      (hrange.quotient r x s hab hbase hr hx hs).exists_div hxfinite hspos.ne'
    have hboth := hquotient.trans (hproduct.div_right s.value)
    refine ⟨y, ?_, hyfinite, hboth⟩
    rw [if_neg hbase, hy]
    rfl

/-- Out of the base currency a result is not rounded before it is divided. -/
theorem convert_base_withinSteps (hpositive : h.HasPositiveRates) (hamount : amount.IsFinite)
    (hresult : amount.IsResult) (hs : h.rate d b = .ok s) (hsfinite : s.IsFinite)
    (hrange : h.ConvertsInRange d amount h.base b) :
    ∃ x, h.convert d amount h.base b = .ok x ∧ x.IsFinite ∧
      WithinSteps 1 x.value (amount.value / h.rateOn d b) := by
  rw [rateOn_of_rate hs]
  have hone := rate_base h d
  by_cases hb : h.base = b
  · subst hb
    obtain rfl := Except.ok.inj (hone.symm.trans hs)
    refine ⟨amount, convert_self h d amount h.base, hamount, ?_⟩
    rw [Decimal.value_one, div_one]
    exact .refl 1 _
  have hfinite : (1 : Decimal).IsFinite := trivial
  obtain ⟨x, hx, hxfinite, -⟩ := (hrange.product 1 hb hone).exists_mul hamount hfinite
  have hsame : x.value = amount.value := by
    have hfits : Decimal.Fits (amount.value * (1 : Decimal).value) := by
      rw [Decimal.value_one, mul_one]
      exact hresult.fits hamount
    rw [Decimal.value_mul_of_fits hamount hfinite hfits hx, Decimal.value_one, mul_one]
  have hspos := rate_pos hpositive hs hsfinite
  obtain ⟨y, hy, hyfinite, hquotient⟩ :=
    (hrange.quotient 1 x s hb (Ne.symm hb) hone hx hs).exists_div hxfinite hspos.ne'
  rw [hsame] at hquotient
  refine ⟨y, ?_, hyfinite, hquotient⟩
  rw [convert_of_rates hb hone hs hx, if_neg (Ne.symm hb), hy]
  rfl

/-- A conversion to another currency fails for the first of the two that has no rate, and for no
other reason where nothing is lost to its size. -/
theorem convert_eq_noFxRate_iff (hamount : amount.IsFinite) (hab : a ≠ b)
    (hfinite : ∀ r, h.rate d a = .ok r → r.IsFinite) (hrange : h.ConvertsInRange d amount a b) :
    h.convert d amount a b = .error (.noFxRate d k) ↔
      k = a ∧ h.Lacks d a ∨ k = b ∧ ¬ h.Lacks d a ∧ h.Lacks d b := by
  by_cases ha : h.Lacks d a
  · have hconvert : h.convert d amount a b = .error (.noFxRate d a) := by
      unfold convert
      rw [if_neg hab, rate_of_lacks ha]
      rfl
    simp [hconvert, ha, eq_comm]
  obtain ⟨r, hr⟩ := exists_rate ha
  obtain ⟨x, hx, -⟩ := (hrange.product r hab hr).exists_mul hamount (hfinite r hr)
  by_cases hb : h.Lacks d b
  · have hconvert : h.convert d amount a b = .error (.noFxRate d b) := by
      unfold convert
      rw [if_neg hab, hr, Except.ok_bind, hx, Decimal.lift_ok, Except.ok_bind, if_neg hb.1,
        rate_of_lacks hb]
      rfl
    simp [hconvert, ha, hb, eq_comm]
  · obtain ⟨s, hs⟩ := exists_rate hb
    simp only [convert_of_rates hab hr hs hx, ha, hb, and_false, or_false, iff_false]
    split
    · exact nofun
    · intro herror
      obtain ⟨f, -, hf⟩ := Decimal.lift_eq_error.mp herror
      exact nomatch hf

/-- What is converted is left as it is or both currencies have a rate. -/
theorem exists_rates_of_convert (hx : h.convert d amount a b = .ok x) :
    a = b ∧ x = amount ∨ (∃ r, h.rate d a = .ok r) ∧ ∃ s, h.rate d b = .ok s := by
  unfold convert at hx
  split at hx
  · next hab => exact Or.inl ⟨hab, (Except.ok.inj hx).symm⟩
  · obtain ⟨r, hr, hx⟩ := Except.bind_eq_ok.mp hx
    obtain ⟨y, -, hx⟩ := Except.bind_eq_ok.mp hx
    refine Or.inr ⟨⟨r, hr⟩, ?_⟩
    split at hx
    · next hbase =>
      subst hbase
      exact ⟨1, rate_base h d⟩
    · obtain ⟨s, hs, -⟩ := Except.bind_eq_ok.mp hx
      exact ⟨s, hs⟩

theorem exists_rate_of_convert_base (hx : h.convert d amount h.base b = .ok x) :
    ∃ s, h.rate d b = .ok s := by
  rcases exists_rates_of_convert hx with ⟨rfl, -⟩ | ⟨-, hs⟩
  · exact ⟨1, rate_base h d⟩
  · exact hs

/-- Of two conversions in a row the rate of the currency between cancels out. -/
theorem convert_twice (hpositive : h.HasPositiveRates) (hamount : amount.IsFinite) {r s t : Decimal}
    (hr : h.rate d a = .ok r) (hs : h.rate d b = .ok s) (ht : h.rate d c = .ok t)
    (hrfinite : r.IsFinite) (hsfinite : s.IsFinite) (htfinite : t.IsFinite)
    (hx : h.convert d amount a b = .ok x) (hfirst : h.ConvertsInRange d amount a b)
    (hsecond : h.ConvertsInRange d x b c) :
    ∃ y, h.convert d x b c = .ok y ∧
      WithinSteps 4 y.value (amount.value * h.rateOn d a / h.rateOn d c) := by
  obtain ⟨x', hx', hxfinite, hleg⟩ :=
    convert_withinSteps hpositive hamount hr hs hrfinite hsfinite hfirst
  obtain rfl := Except.ok.inj (hx.symm.trans hx')
  obtain ⟨y, hy, -, hleg'⟩ := convert_withinSteps hpositive hxfinite hs ht hsfinite htfinite hsecond
  refine ⟨y, hy, ?_⟩
  have hbetween := (rateOn_pos hpositive hs hsfinite).ne'
  have hboth := hleg'.trans ((hleg.mul_right (h.rateOn d b)).div_right (h.rateOn d c))
  rwa [div_mul_cancel₀ _ hbetween] at hboth

/-- There and back the rates cancel out. -/
theorem convert_back (hpositive : h.HasPositiveRates) (hamount : amount.IsFinite)
    (hfinite : ∀ k ∈ [a, b], ∀ r, h.rate d k = .ok r → r.IsFinite)
    (hx : h.convert d amount a b = .ok x) (hthere : h.ConvertsInRange d amount a b)
    (hback : h.ConvertsInRange d x b a) :
    ∃ y, h.convert d x b a = .ok y ∧ WithinSteps 4 y.value amount.value := by
  obtain ⟨rfl, rfl⟩ | ⟨⟨r, hr⟩, s, hs⟩ := exists_rates_of_convert hx
  · exact ⟨x, convert_self h d x a, .refl 4 _⟩
  have hrfinite := hfinite a (by simp) r hr
  have hsfinite := hfinite b (by simp) s hs
  obtain ⟨y, hy, hsteps⟩ := convert_twice hpositive hamount hr hs hr hrfinite hsfinite hrfinite hx
    hthere hback
  rw [mul_div_cancel_right₀ _ (rateOn_pos hpositive hr hrfinite).ne'] at hsteps
  exact ⟨y, hy, hsteps⟩

/-- A detour and the straight way are right up to the roundings of their legs. -/
theorem convert_detour {y : Decimal} (hpositive : h.HasPositiveRates) (hamount : amount.IsFinite)
    (hfinite : ∀ k ∈ [a, b, c], ∀ r, h.rate d k = .ok r → r.IsFinite)
    (hx : h.convert d amount a b = .ok x) (hy : h.convert d x b c = .ok y)
    (hfirst : h.ConvertsInRange d amount a b) (hsecond : h.ConvertsInRange d x b c)
    (hdirect : h.ConvertsInRange d amount a c) :
    ∃ z, h.convert d amount a c = .ok z ∧
      ∃ v, WithinSteps 2 z.value v ∧ WithinSteps 4 y.value v := by
  obtain ⟨rfl, rfl⟩ | ⟨⟨r, hr⟩, s, hs⟩ := exists_rates_of_convert hx
  · exact ⟨y, hy, y.value, .refl 2 _, .refl 4 _⟩
  obtain ⟨rfl, rfl⟩ | ⟨-, t, ht⟩ := exists_rates_of_convert hy
  · exact ⟨y, hx, y.value, .refl 2 _, .refl 4 _⟩
  have hrfinite := hfinite a (by simp) r hr
  have hsfinite := hfinite b (by simp) s hs
  have htfinite := hfinite c (by simp) t ht
  obtain ⟨z, hz, -, hstraight⟩ :=
    convert_withinSteps hpositive hamount hr ht hrfinite htfinite hdirect
  obtain ⟨y', hy', hround⟩ := convert_twice hpositive hamount hr hs ht hrfinite hsfinite htfinite hx
    hfirst hsecond
  obtain rfl := Except.ok.inj (hy.symm.trans hy')
  exact ⟨z, hz, _, hstraight, hround⟩

/-- Between currencies of finite rates an amount is converted by the rates of the day itself, or the
first one of them that has no rate is named. The result is right up to two roundings, so the way back
and a detour are right up to four. -/
theorem convert_free_of_arbitrage (base : Currency) (days : List (Date × List (String × Amount)))
    (d : Date) (a b c : Currency) (hamount : amount.IsFinite)
    (hfinite : ∀ k ∈ [a, b, c], ∀ r, (recorded base days).rate d k = .ok r → r.IsFinite) :
    let h := recorded base days
    (a = b → h.convert d amount a b = .ok amount) ∧
    (a ≠ b → h.ConvertsInRange d amount a b →
      ((∃ k, h.convert d amount a b = .error (.noFxRate d k)) ↔ h.Lacks d a ∨ h.Lacks d b) ∧
      (¬ h.Lacks d a → ¬ h.Lacks d b → ∃ x, h.convert d amount a b = .ok x ∧
        |x.value - amount.value * h.rateOn d a / h.rateOn d b| ≤
          1.1 * 10 ^ (-27 : ℤ) * |amount.value * h.rateOn d a / h.rateOn d b|)) ∧
    (∀ x, h.convert d amount a b = .ok x →
      h.ConvertsInRange d amount a b → h.ConvertsInRange d x b a →
      ∃ y, h.convert d x b a = .ok y ∧
        |y.value - amount.value| ≤ 2.2 * 10 ^ (-27 : ℤ) * |amount.value|) ∧
    (∀ x y, h.convert d amount a b = .ok x → h.convert d x b c = .ok y →
      h.ConvertsInRange d amount a b → h.ConvertsInRange d x b c →
      h.ConvertsInRange d amount a c →
      ∃ z, h.convert d amount a c = .ok z ∧
        |z.value - y.value| ≤ 3.3 * 10 ^ (-27 : ℤ) * min |z.value| |y.value|) := by
  intro h
  have hpositive : h.HasPositiveRates := hasPositiveRates_recorded base days
  have htwo : drift 2 ≤ 1.1 * 10 ^ (-27 : ℤ) := by norm_num [drift, Decimal.halfUnit]
  have hfour : drift 4 ≤ 2.2 * 10 ^ (-27 : ℤ) := by norm_num [drift, Decimal.halfUnit]
  have hsix : drift 2 + drift 4 ≤ 3.3 * 10 ^ (-27 : ℤ) * (1 - drift 4) := by
    norm_num [drift, Decimal.halfUnit]
  refine ⟨?_, fun hab hrange => ⟨?_, fun ha hb => ?_⟩, fun x hx hthere hback => ?_,
    fun x y hx hy hfirst hsecond hdirect => ?_⟩
  · rintro rfl
    exact convert_self h d amount a
  · have hnamed := fun k => convert_eq_noFxRate_iff (k := k) hamount hab (hfinite a (by simp)) hrange
    constructor
    · rintro ⟨k, hk⟩
      rcases (hnamed k).mp hk with ⟨-, ha⟩ | ⟨-, -, hb⟩
      · exact Or.inl ha
      · exact Or.inr hb
    · intro hlacks
      by_cases ha : h.Lacks d a
      · exact ⟨a, (hnamed a).mpr (Or.inl ⟨rfl, ha⟩)⟩
      · exact ⟨b, (hnamed b).mpr (Or.inr ⟨rfl, ha, hlacks.resolve_left ha⟩)⟩
  · obtain ⟨r, hr⟩ := exists_rate ha
    obtain ⟨s, hs⟩ := exists_rate hb
    obtain ⟨x, hx, -, hsteps⟩ := convert_withinSteps hpositive hamount hr hs
      (hfinite a (by simp) r hr) (hfinite b (by simp) s hs) hrange
    exact ⟨x, hx, hsteps.abs_sub_le_mul htwo⟩
  · obtain ⟨y, hy, hsteps⟩ := convert_back hpositive hamount
      (fun k hk => hfinite k (by simp at hk ⊢; tauto)) hx hthere hback
    exact ⟨y, hy, hsteps.abs_sub_le_mul hfour⟩
  · obtain ⟨z, hz, v, hstraight, hround⟩ :=
      convert_detour hpositive hamount hfinite hx hy hfirst hsecond hdirect
    exact ⟨z, hz, hstraight.abs_sub_le_mul_min hround (by omega) (by norm_num) hsix⟩

/-- Five euros at two dollars each are 3.333… pounds at three; there and back they are five euros
again, and on the way to dollars a little less than the ten that they are. -/
theorem convert_free_of_arbitrage_thirds :
    let d : Date := ⟨2024, 1, 2, by decide, by decide, by decide⟩
    let h := recorded .usd [(d, [("EUR", .known (.ofInt 2)), ("GBP", .known (.ofInt 3))])]
    let amount : Decimal := .ofInt 5
    let x : Decimal := .finite false 3333333333333333333333333333 (-27)
    let y : Decimal := .finite false 9999999999999999999999999999 (-27)
    amount.IsFinite ∧ (∀ k ∈ [Currency.eur, .gbp, .usd], ∀ r, h.rate d k = .ok r → r.IsFinite) ∧
      h.convert d amount .eur .gbp = .ok x ∧ h.convert d x .gbp .usd = .ok y ∧
      |x.value - amount.value * h.rateOn d .eur / h.rateOn d .gbp| ≤
          1.1 * 10 ^ (-27 : ℤ) * |amount.value * h.rateOn d .eur / h.rateOn d .gbp| ∧
      (∃ v, h.convert d x .gbp .eur = .ok v ∧
        |v.value - amount.value| ≤ 2.2 * 10 ^ (-27 : ℤ) * |amount.value|) ∧
      ∃ z, h.convert d amount .eur .usd = .ok z ∧
        |z.value - y.value| ≤ 3.3 * 10 ^ (-27 : ℤ) * min |z.value| |y.value| := by
  intro d h amount x y
  have heur : h.rate d .eur = .ok (.ofInt 2) := Except.eq_ok_of_toOption (by decide +kernel)
  have hgbp : h.rate d .gbp = .ok (.ofInt 3) := Except.eq_ok_of_toOption (by decide +kernel)
  have husd : h.rate d .usd = .ok 1 := Except.eq_ok_of_toOption (by decide +kernel)
  have hfinite : ∀ k ∈ [Currency.eur, .gbp, .usd], ∀ r, h.rate d k = .ok r → r.IsFinite := by
    intro k hk r hr
    simp only [List.mem_cons, List.not_mem_nil, or_false] at hk
    rcases hk with rfl | rfl | rfl
    · exact Except.ok.inj (heur.symm.trans hr) ▸ trivial
    · exact Except.ok.inj (hgbp.symm.trans hr) ▸ trivial
    · exact Except.ok.inj (husd.symm.trans hr) ▸ trivial
  have hx : x.value = 3333333333333333333333333333 / 10 ^ 27 := by
    norm_num [x, Decimal.value, Decimal.signed]
  have hy : y.value = 9999999999999999999999999999 / 10 ^ 27 := by
    norm_num [y, Decimal.value, Decimal.signed]
  have hleg : h.ConvertsInRange d amount .eur .gbp :=
    convertsInRange_of_rates (x := .ofInt 10) (y := x) heur hgbp rfl (by decide +kernel)
      (Or.inl (by norm_num [amount, Decimal.value_ofInt]))
      (Or.inr (by norm_num [Decimal.value_ofInt]))
  have hback : h.ConvertsInRange d x .gbp .eur :=
    convertsInRange_of_rates (x := y) (y := .finite false 5000000000000000000000000000 (-27)) hgbp
      heur (by decide +kernel) (by decide +kernel)
      (Or.inl (by norm_num [hx, hy, Decimal.value_ofInt]))
      (Or.inr (by norm_num [hy, Decimal.value_ofInt]))
  have hleg' : h.ConvertsInRange d x .gbp .usd :=
    convertsInRange_of_rates (x := y) (y := y) hgbp husd (by decide +kernel) (by decide +kernel)
      (Or.inl (by norm_num [hx, hy, Decimal.value_ofInt]))
      (Or.inl (by rw [Decimal.value_one, div_one]))
  have hdirect : h.ConvertsInRange d amount .eur .usd :=
    convertsInRange_of_rates (x := .ofInt 10) (y := .ofInt 10) heur husd rfl (by decide +kernel)
      (Or.inl (by norm_num [amount, Decimal.value_ofInt]))
      (Or.inl (by rw [Decimal.value_one, div_one]))
  have hthere : h.convert d amount .eur .gbp = .ok x :=
    Except.eq_ok_of_toOption (by decide +kernel)
  have hon : h.convert d x .gbp .usd = .ok y := Except.eq_ok_of_toOption (by decide +kernel)
  have hamount : amount.IsFinite := trivial
  obtain ⟨-, hpair, hway, hdetour⟩ := convert_free_of_arbitrage .usd
    [(d, [("EUR", .known (.ofInt 2)), ("GBP", .known (.ofInt 3))])] d .eur .gbp .usd hamount hfinite
  obtain ⟨x', hx', hclose⟩ := (hpair (by decide) hleg).2 (not_lacks_of_rate heur)
    (not_lacks_of_rate hgbp)
  obtain rfl := Except.ok.inj (hthere.symm.trans hx')
  exact ⟨hamount, hfinite, hthere, hon, hclose, hway x hthere hleg hback,
    hdetour x y hthere hon hleg hleg' hdirect⟩

/-- A rate may be infinite. What is converted to such a currency is worth nothing in it, and does not
come back. -/
theorem infinite_rate_keeps_nothing :
    let d : Date := ⟨2024, 1, 2, by decide, by decide, by decide⟩
    let h := recorded .usd [(d, [("EUR", .known (.infinity false))])]
    let amount : Decimal := .ofInt 5
    let x : Decimal := .finite false 0 (-1000026)
    ¬ h.Lacks d .usd ∧ ¬ h.Lacks d .eur ∧ h.convert d amount .usd .eur = .ok x ∧
      h.ConvertsInRange d amount .usd .eur ∧
      h.convert d x .eur .usd = .error (.decimal .invalidOperation) := by
  intro d h amount x
  have husd : h.rate d .usd = .ok 1 := Except.eq_ok_of_toOption (by decide +kernel)
  have heur : h.rate d .eur = .ok (.infinity false) := Except.eq_ok_of_toOption (by decide +kernel)
  refine ⟨not_lacks_of_rate husd, not_lacks_of_rate heur,
    Except.eq_ok_of_toOption (by decide +kernel), ?_, ?_⟩
  · refine convertsInRange_of_rates (x := amount) (y := x) husd heur (by decide +kernel)
      (by decide +kernel) (Or.inl ?_) (Or.inl ?_)
    · rw [Decimal.value_one, mul_one]
    · simp [x, Decimal.value, Decimal.signed]
  · have hproduct : x.mul (.infinity false) = .error .invalidOperation := rfl
    unfold convert
    rw [if_neg (by decide), heur, Except.ok_bind, hproduct]
    rfl

end FxHistory
end Backtesting
