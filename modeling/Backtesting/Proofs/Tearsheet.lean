import Backtesting.Proofs.OrderedMap
import Backtesting.Proofs.Statistics.Performance
import Backtesting.Tearsheet

/-!
How many points a tearsheet needs: three of the curve, and three that it has in common with its
benchmark. The sheet takes deviations of returns, and there is one return less than there are points.
-/
namespace Backtesting

open Backtesting.Except (FailsOnly Fails)

variable {α : Type} {read : α → Except Error Float}

/-- The value is read as a number other than zero. -/
def ReadsNonzero (read : α → Except Error Float) (v : α) : Prop :=
  ∃ x, read v = .ok x ∧ (x == 0) = false

instance (read : α → Except Error Float) (v : α) : Decidable (ReadsNonzero read v) :=
  match h : read v with
  | .ok x => decidable_of_iff ((x == 0) = false)
      ⟨fun hx => ⟨x, h, hx⟩, fun ⟨_, hy, hx⟩ => Except.ok.inj (h.symm.trans hy) ▸ hx⟩
  | .error _ => isFalse fun ⟨_, hx, _⟩ => nomatch h.symm.trans hx

/-- The days of a curve that another one has, too. -/
def Curve.common (c benchmark : Curve α) : List Date := c.keys.filter benchmark.contains

/-- The values of both curves on those days. -/
def Curve.beside (c benchmark : Curve α) : List (α × α) :=
  c.toList.filterMap fun e => (benchmark.get? e.1).map (e.2, ·)

namespace Curve

theorem length_common_le (c benchmark : Curve α) : (c.common benchmark).length ≤ c.size := by
  have hle := List.length_filter_le benchmark.contains c.keys
  simpa [common, OrderedMap.keys, OrderedMap.size] using hle

theorem length_beside (c benchmark : Curve α) :
    (c.beside benchmark).length = (c.common benchmark).length := by
  rw [beside, List.length_filterMap_eq_countP, common, ← List.countP_eq_length_filter,
    OrderedMap.keys, List.countP_map]
  congr 1
  funext e
  simp [OrderedMap.contains]

theorem mem_beside {c benchmark : Curve α} {e : α × α} (h : e ∈ c.beside benchmark) :
    e.1 ∈ c.values ∧ e.2 ∈ benchmark.values := by
  obtain ⟨⟨d, v⟩, hv, he⟩ := List.mem_filterMap.mp h
  obtain ⟨w, hw, rfl⟩ := Option.map_eq_some_iff.mp he
  exact ⟨List.mem_map.mpr ⟨(d, v), hv, rfl⟩, OrderedMap.mem_values_of_get? hw⟩

end Curve

variable {equity benchmark : Curve α}

namespace Relative

theorem ofReturns_eq_ok {returns benchmark : List Float} (h : 2 ≤ returns.length)
    (hsame : returns.length = benchmark.length) : ∃ r, ofReturns returns benchmark = .ok r := by
  simp [ofReturns, Performance.alpha, Performance.beta, Performance.informationRatio,
    Performance.requirePair_eq_ok h hsame, pure, Except.pure]

theorem fails_ofReturns {returns benchmark : List Float} (h : returns.length < 2)
    (hsame : returns.length = benchmark.length) :
    Fails Error.IsShortage (ofReturns returns benchmark) :=
  ((Performance.fails_requirePair h hsame).bind _).bind _

theorem ofCurves_eq (read : α → Except Error Float) (equity benchmark : Curve α) :
    ofCurves read equity benchmark = (do
      let returns ← Performance.dailyReturns
        (← (equity.beside benchmark).mapM fun e => read e.1)
      let other ← Performance.dailyReturns
        (← (equity.beside benchmark).mapM fun e => read e.2)
      ofReturns returns other) :=
  rfl

/-- The comparison needs three days that both curves have. -/
theorem ofCurves_cases (hequity : ∀ v ∈ equity.values, ReadsNonzero read v)
    (hbenchmark : ∀ v ∈ benchmark.values, ReadsNonzero read v) :
    (equity.common benchmark).length < 3 ∧
        Fails Error.IsShortage (ofCurves read equity benchmark) ∨
      3 ≤ (equity.common benchmark).length ∧ ∃ r, ofCurves read equity benchmark = .ok r := by
  have hlength := equity.length_beside benchmark
  obtain ⟨xs, hxs, hxlength, hxzero⟩ := Except.exists_mapM_forall (l := equity.beside benchmark)
    (f := fun e : α × α => read e.1) (P := fun x => (x == 0) = false)
    fun e he => hequity e.1 (Curve.mem_beside he).1
  obtain ⟨ys, hys, hylength, hyzero⟩ := Except.exists_mapM_forall (l := equity.beside benchmark)
    (f := fun e : α × α => read e.2) (P := fun x => (x == 0) = false)
    fun e he => hbenchmark e.2 (Curve.mem_beside he).2
  rw [ofCurves_eq, hxs, hys, Except.ok_bind]
  by_cases hfew : xs.length < 2
  · exact Or.inl ⟨by omega, (Performance.fails_dailyReturns hfew).bind _⟩
  rw [Performance.dailyReturns_eq_ok (by omega) hxzero, Except.ok_bind, Except.ok_bind,
    Performance.dailyReturns_eq_ok (by omega) hyzero, Except.ok_bind]
  have hx := Performance.length_changes xs
  have hy := Performance.length_changes ys
  by_cases hthree : xs.length < 3
  · exact Or.inl ⟨by omega, fails_ofReturns (by omega) (by omega)⟩
  · exact Or.inr ⟨by omega, ofReturns_eq_ok (by omega) (by omega)⟩

end Relative

namespace Tearsheet

variable {points : List (Date × Float)} {returns : List Float}

/-- A sheet fails as its samples and its growth do. -/
theorem failsOnly_ofReturns {E : Error → Prop}
    (hpoints : FailsOnly E (Performance.requireCount points.length))
    (hsample : FailsOnly E (Performance.requireSample returns))
    (hgrowth : FailsOnly E (Performance.annualizedReturn returns Performance.tradingDays))
    (hyearly : FailsOnly E (Performance.yearlyGrowth returns Performance.tradingDays))
    (relative : Option Relative) : FailsOnly E (ofReturns points returns relative) := by
  simp [ofReturns, Performance.drawdowns, Performance.sharpeRatio, Performance.sortinoRatio,
    Performance.downsideDeviation, Performance.volatility, Performance.annualizedVolatility,
    Performance.annualizedSharpeRatio, Performance.annualizedSortinoRatio, hpoints, hsample,
    hgrowth, hyearly]

/-- Enough points and enough returns for a sheet. -/
theorem not_fails_ofReturns (hpoints : 2 ≤ points.length) (h : 2 ≤ returns.length)
    (relative : Option Relative) :
    ¬ Fails Error.IsShortage (ofReturns points returns relative) := by
  rw [Fails.not_iff]
  have hne : returns ≠ [] := List.ne_nil_of_length_pos (by omega)
  have hsample : FailsOnly (fun e => ¬ e.IsShortage) (Performance.requireSample returns) := by
    rw [Performance.requireSample_eq_ok h]
    exact .ok ()
  apply failsOnly_ofReturns
  · rw [Performance.requireCount_eq_ok hpoints]
    exact .ok ()
  · exact hsample
  · refine FailsOnly.imp (Performance.failsOnly_annualizedReturn hne _) ?_
    rintro e (rfl | ⟨-, rfl⟩) <;> decide
  · exact Performance.failsOnly_yearlyGrowth hsample (by decide) (by decide) (by decide) _

/-- One return is too few for a sheet, which shows unless its growth over the year is too large. -/
theorem fails_ofReturns_iff (hpoints : 2 ≤ points.length) (x : Float) (relative : Option Relative) :
    Fails Error.IsShortage (ofReturns points [x] relative) ↔
      Performance.annualizedReturn [x] Performance.tradingDays ≠ .error .numberTooLarge := by
  have hexponent : ¬ Performance.tradingDays / Series.count [x] < 0 := by
    have hcount : Series.count [x] = Float.ofNat 1 := rfl
    rw [hcount]
    decide +kernel
  have hfails :=
    Performance.failsOnly_annualizedReturn (List.cons_ne_nil x []) Performance.tradingDays
  have hsharpe : Performance.sharpeRatio [x] 0 = .error (.tooFewObservations 1) := rfl
  rw [ofReturns, Performance.drawdowns_eq_ok hpoints, Except.ok_bind]
  cases hgrowth : Performance.annualizedReturn [x] Performance.tradingDays with
  | error e =>
    obtain rfl | ⟨hnegative, -⟩ := hfails e hgrowth
    · simp [Fails, bind, Except.bind, Error.IsShortage, Error.label?]
    · exact absurd hnegative hexponent
  | ok g =>
    rw [Except.ok_bind, hsharpe]
    simp [Fails, bind, Except.bind, Error.IsShortage, Error.label?]

/-- The growth over a year of the returns of a curve is too large for a number. -/
def Outgrows (read : α → Except Error Float) (equity : Curve α) : Prop :=
  ∃ values returns, equity.values.mapM read = .ok values ∧
    Performance.dailyReturns values = .ok returns ∧
    Performance.annualizedReturn returns Performance.tradingDays = .error .numberTooLarge

/-- The points of a curve, read one by one. -/
theorem exists_points (hequity : ∀ v ∈ equity.values, ReadsNonzero read v) :
    ∃ points : List (Date × Float),
      (equity.toList.mapM fun (d, v) => do pure (d, ← read v)) = .ok points ∧
        (points.map Prod.snd).length = equity.size ∧
        equity.values.mapM read = .ok (points.map Prod.snd) ∧
        ∀ x ∈ points.map Prod.snd, (x == 0) = false := by
  obtain ⟨points, hpoints, hlength, hzero⟩ := Except.exists_mapM_forall (l := equity.toList)
    (f := fun (d, v) => do pure (d, ← read v)) (P := fun p => (p.2 == 0) = false) fun e he => by
      obtain ⟨x, hx, hnonzero⟩ := hequity e.2 (List.mem_map.mpr ⟨e, he, rfl⟩)
      exact ⟨(e.1, x), by simp [hx, pure, Except.pure], hnonzero⟩
  refine ⟨points, hpoints, by simp [hlength, OrderedMap.size], ?_, ?_⟩
  · rw [Except.mapM_eq_ok, OrderedMap.values, List.forall₂_map_left_iff, List.forall₂_map_right_iff]
    refine (Except.mapM_eq_ok.mp hpoints).imp ?_
    intro e p hp
    obtain ⟨x, hx, hp⟩ := Except.bind_eq_ok.mp hp
    obtain rfl := Except.pure_eq_ok.mp hp
    exact hx
  · intro x hx
    obtain ⟨p, hp, rfl⟩ := List.mem_map.mp hx
    exact hzero p hp

theorem outgrows_iff {values returns : List Float} (hvalues : equity.values.mapM read = .ok values)
    (hreturns : Performance.dailyReturns values = .ok returns) :
    Outgrows read equity ↔
      Performance.annualizedReturn returns Performance.tradingDays = .error .numberTooLarge := by
  constructor
  · rintro ⟨values', returns', hvalues', hreturns', h⟩
    obtain rfl := Except.ok.inj (hvalues.symm.trans hvalues')
    obtain rfl := Except.ok.inj (hreturns.symm.trans hreturns')
    exact h
  · intro h
    exact ⟨values, returns, hvalues, hreturns, h⟩

/-- A sheet needs three points of the curve, and three that it has in common with a benchmark. With
two of them and no benchmark, a growth that is too large for a number is found out first. -/
theorem needs_three_points {benchmark : Option (Curve α)}
    (hequity : ∀ v ∈ equity.values, ReadsNonzero read v)
    (hbenchmark : ∀ b ∈ benchmark, ∀ v ∈ b.values, ReadsNonzero read v) :
    Fails Error.IsShortage (ofCurves read equity benchmark) ↔
      (equity.size < 3 ∨ ∃ b ∈ benchmark, (equity.common b).length < 3) ∧
        ¬ (equity.size = 2 ∧ benchmark = none ∧ Outgrows read equity) := by
  obtain ⟨points, hpoints, hsize, hvalues, hzero⟩ := exists_points hequity
  unfold ofCurves
  rw [hpoints, Except.ok_bind]
  by_cases hfew : equity.size < 2
  · have hfails : Fails Error.IsShortage (Performance.dailyReturns (points.map Prod.snd)) :=
      Performance.fails_dailyReturns (by omega)
    exact iff_of_true (hfails.bind _) ⟨Or.inl (by omega), fun h => by omega⟩
  have hreturns : Performance.dailyReturns (points.map Prod.snd) =
      .ok (Series.changes (points.map Prod.snd)) :=
    Performance.dailyReturns_eq_ok (by omega) hzero
  have hcount := Performance.length_changes (points.map Prod.snd)
  rw [List.length_map] at hsize hcount
  have henough : 3 ≤ equity.size → ∀ relative : Option Relative, ¬ Fails Error.IsShortage
      (ofReturns points (Series.changes (points.map Prod.snd)) relative) := by
    intro hthree relative
    exact not_fails_ofReturns (by omega) (by omega) relative
  rw [hreturns, Except.ok_bind]
  cases benchmark with
  | none =>
    have hnone : (none : Option (Curve α)).mapM (Relative.ofCurves read equity) = .ok none := rfl
    rw [hnone, Except.ok_bind]
    by_cases htwo : equity.size = 2
    · obtain ⟨x, hx⟩ := List.length_eq_one_iff.mp (by omega :
        (Series.changes (points.map Prod.snd)).length = 1)
      rw [hx] at hreturns
      rw [hx, fails_ofReturns_iff (by omega), outgrows_iff hvalues hreturns]
      simp [htwo]
    · refine iff_of_false (henough (by omega) none) ?_
      rintro ⟨hsmall | ⟨b, hb, -⟩, -⟩
      · omega
      · simp at hb
  | some b =>
    have hle := equity.length_common_le b
    have hsome : (some b).mapM (Relative.ofCurves read equity) =
        some <$> Relative.ofCurves read equity b := rfl
    rw [hsome]
    obtain ⟨hshort, e, he, hshortage⟩ | ⟨hthree, r, hr⟩ :=
      Relative.ofCurves_cases hequity (hbenchmark b rfl)
    · rw [he]
      exact iff_of_true ⟨e, rfl, hshortage⟩ ⟨Or.inr ⟨b, rfl, hshort⟩, by simp⟩
    · rw [hr]
      refine iff_of_false (henough (by omega) (some r)) ?_
      rintro ⟨hsmall | ⟨b', hb, hsmall⟩, -⟩
      · omega
      · obtain rfl := Option.some.inj hb
        omega

/-- Three points are enough alone, but not beside a benchmark that has two of the days. -/
theorem needs_three_points_in_common :
    let first : Date := ⟨2024, 1, 2, by decide, by decide, by decide⟩
    let second : Date := ⟨2024, 1, 3, by decide, by decide, by decide⟩
    let third : Date := ⟨2024, 1, 4, by decide, by decide, by decide⟩
    let equity : Curve Decimal := OrderedMap.ofList [(first, 100), (second, 110), (third, 99)]
    let benchmark : Curve Decimal := OrderedMap.ofList [(first, 50), (third, 55)]
    ¬ Fails Error.IsShortage (ofCurves readDecimal equity none) ∧
      Fails Error.IsShortage (ofCurves readDecimal equity (some benchmark)) := by
  intro first second third equity benchmark
  have hequity : ∀ v ∈ equity.values, ReadsNonzero readDecimal v := by decide +kernel
  have hbenchmark : ∀ v ∈ benchmark.values, ReadsNonzero readDecimal v := by decide +kernel
  constructor
  · rw [needs_three_points hequity (by simp)]
    rintro ⟨hsmall | ⟨b, hb, -⟩, -⟩
    · exact absurd hsmall (by decide)
    · cases hb
  · rw [needs_three_points hequity (by rintro b ⟨⟩; exact hbenchmark)]
    exact ⟨Or.inr ⟨benchmark, rfl, by decide⟩, by rintro ⟨-, hnone, -⟩; cases hnone⟩

/-- Two points are too few, though both days are in common. -/
theorem two_points_too_few :
    let first : Date := ⟨2024, 1, 2, by decide, by decide, by decide⟩
    let second : Date := ⟨2024, 1, 3, by decide, by decide, by decide⟩
    let equity : Curve Decimal := OrderedMap.ofList [(first, 100), (second, 110)]
    let benchmark : Curve Decimal := OrderedMap.ofList [(first, 50), (second, 55)]
    (∀ v ∈ equity.values ++ benchmark.values, ReadsNonzero readDecimal v) ∧ equity.size = 2 ∧
      (equity.common benchmark).length = 2 ∧
      Fails Error.IsShortage (ofCurves readDecimal equity (some benchmark)) := by
  decide +kernel

end Tearsheet
end Backtesting
