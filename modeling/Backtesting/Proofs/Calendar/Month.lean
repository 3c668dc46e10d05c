import Backtesting.Proofs.Calendar.Ordinal

/-!
Moving by months. Months are numbered through the years, so a day some months later is in the month of
that number, on the same day of it or on its last one.
-/
namespace Backtesting.Date

variable {d e : Date} {n : Int}

/-- The number of a month, counted through the years. -/
def monthNumber (d : Date) : Nat := d.year * 12 + d.month

theorem place_eq (d : Date) : d.place = d.monthNumber * 32 + d.day := rfl

theorem monthNumber_le_of_le (h : d ≤ e) : d.monthNumber ≤ e.monthNumber := by
  have hday := d.day_le
  have hday' := e.day_le
  rw [le_iff, place_eq, place_eq] at h
  omega

theorem lt_of_monthNumber_lt (h : d.monthNumber < e.monthNumber) : d < e := by
  have hday := d.day_le
  rw [lt_iff, place_eq, place_eq]
  omega

/-- The same day `n` months later, or the last one of a month that is too short for it. -/
structure IsMonthsAfter (n : Int) (d e : Date) : Prop where
  month : (e.monthNumber : Int) = d.monthNumber + n
  day : e.day = min d.day (daysInMonth e.year e.month)

theorem ofParts?_eq_some {year month day : Nat} : ofParts? year month day = some e ↔
    e.year = year ∧ e.month = month ∧ e.day = day := by
  constructor
  · intro h
    unfold ofParts? at h
    split at h
    · obtain rfl := Option.some.inj h
      exact ⟨rfl, rfl, rfl⟩
    · cases h
  · intro h
    obtain ⟨rfl, rfl, rfl⟩ := h
    exact ofParts?_self e

theorem addMonths_eq_ok : d.addMonths n = .ok e ↔ IsMonthsAfter n d e := by
  have hmonth := d.month_bounds
  have hyear := e.year_bounds
  have hmonth' := e.month_bounds
  generalize hk : (d.month : Int) - 1 + n = k
  have hdiv : Int.fdiv k 12 = k / 12 := Int.fdiv_eq_ediv_of_nonneg k (by decide)
  have hmod : Int.fmod k 12 = k % 12 := Int.fmod_eq_emod_of_nonneg k (by decide)
  unfold addMonths
  simp only [hk, hdiv, hmod]
  constructor
  · intro h
    split at h
    · cases h
    · split at h
      · next x hx =>
        obtain rfl := Except.ok.inj h
        obtain ⟨hy, hm, hday⟩ := ofParts?_eq_some.mp hx
        refine ⟨?_, by rw [hy, hm, hday]⟩
        simp only [monthNumber]
        omega
      · cases h
  · intro h
    have hnumber := h.month
    simp only [monthNumber] at hnumber
    have hy : e.year = ((d.year : Int) + k / 12).toNat := by omega
    have hm : e.month = (k % 12).toNat + 1 := by omega
    have hrange : ¬ ((d.year : Int) + k / 12 < -yearLimit ∨ yearLimit ≤ (d.year : Int) + k / 12) := by
      unfold yearLimit
      omega
    have hparts := ofParts?_eq_some.mpr ⟨hy, hm, h.day⟩
    rw [hy, hm] at hparts
    rw [if_neg hrange, hparts]

theorem IsMonthsAfter.lt (h : IsMonthsAfter n d e) (hn : 0 < n) : d < e := by
  have hmonth := h.month
  apply lt_of_monthNumber_lt
  omega

/-- There is such a day in every month of the calendar. -/
theorem exists_isMonthsAfter (hfirst : 13 ≤ (d.monthNumber : Int) + n)
    (hlast : (d.monthNumber : Int) + n ≤ 9999 * 12 + 12) : ∃ e, IsMonthsAfter n d e := by
  have hday := d.day_bounds
  obtain ⟨k, hk⟩ : ∃ k : Nat, (k : Int) = d.monthNumber + n - 1 :=
    ⟨_, Int.toNat_of_nonneg (by omega)⟩
  have hsome := one_le_daysInMonth (k / 12) (k % 12 + 1)
  obtain ⟨e, hy, hm, hd⟩ := exists_ofParts (k / 12) (k % 12 + 1)
    (min d.day (daysInMonth (k / 12) (k % 12 + 1))) (by omega) (by omega) (by omega)
  refine ⟨e, ?_, by rw [hy, hm, hd]⟩
  simp only [monthNumber] at hk ⊢
  omega

end Backtesting.Date
