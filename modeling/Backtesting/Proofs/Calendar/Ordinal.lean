import Backtesting.Calendar.Arithmetic
import Backtesting.Proofs.Calendar.Text
import Mathlib.Tactic.SplitIfs

/-!
Days by number and back. The year of a number is the last one that begins before it, and so is the
month within the year: the tables in which they are looked up are long enough, so every day comes
back from its number, and every number between those of two days has one. Numbers are in the order of the
days, so the day after an earlier one comes no later than the later one.
-/
namespace Backtesting

/-- The last of some ascending numbers to pass a test, where all after it fail. -/
theorem getLast?_filter_range {α : Type} {f : Nat → α} {p : α → Bool} {k n : Nat} (hk : k < n)
    (hpass : p (f k) = true) (hfail : ∀ i, k < i → p (f i) = false) :
    (((List.range n).map f).filter p).getLast? = some (f k) := by
  induction n with
  | zero => omega
  | succ n ih =>
    rw [List.range_succ, List.map_append, List.filter_append]
    by_cases hn : k = n
    · subst hn
      simp [hpass]
    · have hlast : ([n].map f).filter p = [] := by simp [hfail n (by omega)]
      rw [hlast, List.append_nil]
      exact ih (by omega)

namespace Date

theorem daysBeforeMonth_succ (year : Nat) {month : Nat} (h : 1 ≤ month) :
    daysBeforeMonth year (month + 1) = daysBeforeMonth year month + daysInMonth year month := by
  obtain ⟨k, rfl⟩ : ∃ k, month = k + 1 := ⟨month - 1, by omega⟩
  simp only [daysBeforeMonth, Nat.add_sub_cancel, List.range_succ, List.foldl_append,
    List.foldl_cons, List.foldl_nil]

theorem daysBeforeMonth_le {year month month' : Nat} (h : month ≤ month') :
    daysBeforeMonth year month ≤ daysBeforeMonth year month' := by
  induction month' with
  | zero =>
    obtain rfl : month = 0 := by omega
    exact Nat.le_refl _
  | succ k ih =>
    rcases Nat.eq_or_lt_of_le h with rfl | hlt
    · exact Nat.le_refl _
    · have hk := ih (by omega)
      rcases Nat.eq_zero_or_pos k with rfl | hpos
      · exact hk
      · rw [daysBeforeMonth_succ year hpos]
        omega

/-- All months of a year together. -/
theorem daysBeforeMonth_thirteen (year : Nat) :
    daysBeforeMonth year 13 = if isLeapYear year then 366 else 365 := by
  cases hleap : isLeapYear year <;> simp [daysBeforeMonth, List.range_succ, daysInMonth, hleap]

/-- A year is followed by the next one once its months are over. -/
theorem daysBeforeYear_succ {year : Nat} (h : 1 ≤ year) :
    daysBeforeYear (year + 1) = daysBeforeYear year + daysBeforeMonth year 13 := by
  obtain ⟨y, rfl⟩ : ∃ y, year = y + 1 := ⟨year - 1, by omega⟩
  have hleap : isLeapYear (y + 1) = true ↔ 4 ∣ y + 1 ∧ (¬ 100 ∣ y + 1 ∨ 400 ∣ y + 1) := by
    simp [isLeapYear, Nat.dvd_iff_mod_eq_zero]
  have hcenturies : y / 100 ≤ y / 4 := Nat.div_le_div_left (by omega) (by omega)
  have hfour : 100 ∣ y + 1 → 4 ∣ y + 1 := Nat.dvd_trans (by decide)
  have hhundred : 400 ∣ y + 1 → 100 ∣ y + 1 := Nat.dvd_trans (by decide)
  simp only [daysBeforeMonth_thirteen, daysBeforeYear, Nat.add_sub_cancel, Nat.succ_div, hleap]
  generalize y / 4 = fours at *
  generalize y / 100 = centuries at *
  split_ifs <;> omega

theorem daysBeforeYear_le {year year' : Nat} (h : year ≤ year') :
    daysBeforeYear year ≤ daysBeforeYear year' := by
  induction h with
  | refl => exact Nat.le_refl _
  | @step k _ ih =>
    rcases Nat.eq_zero_or_pos k with rfl | hpos
    · exact ih
    · rw [Nat.succ_eq_add_one, daysBeforeYear_succ hpos]
      omega

variable (d : Date)

/-- Where a day stands among those of its month. -/
theorem dayOfYear_bounds :
    daysBeforeMonth d.year d.month < daysBeforeMonth d.year d.month + d.day ∧
      daysBeforeMonth d.year d.month + d.day ≤ daysBeforeMonth d.year (d.month + 1) := by
  have hday := d.day_bounds
  rw [daysBeforeMonth_succ d.year d.month_bounds.1]
  omega

theorem ordinal_bounds : daysBeforeYear d.year < d.ordinal ∧
    d.ordinal ≤ daysBeforeYear (d.year + 1) := by
  have hday := d.dayOfYear_bounds
  have hmonths : daysBeforeMonth d.year (d.month + 1) ≤ daysBeforeMonth d.year 13 :=
    daysBeforeMonth_le (by have := d.month_bounds; omega)
  rw [daysBeforeYear_succ d.year_bounds.1]
  unfold ordinal
  omega

theorem yearOfOrdinal_ordinal : yearOfOrdinal d.ordinal = d.year := by
  obtain ⟨hafter, hbefore⟩ := d.ordinal_bounds
  have hyear := d.year_bounds
  -- a year has at most 366 days, and the table covers what that is too many
  have hguess : d.ordinal / 366 + 1 ≤ d.year ∧ d.year < d.ordinal / 366 + 1 + 32 := by
    unfold daysBeforeYear at hafter hbefore
    dsimp only at hafter hbefore
    omega
  obtain ⟨k, hk⟩ : ∃ k, d.year = d.ordinal / 366 + 1 + k := ⟨d.year - (d.ordinal / 366 + 1), by omega⟩
  have hlast := getLast?_filter_range (f := (d.ordinal / 366 + 1 + ·))
    (p := fun y => decide (daysBeforeYear y < d.ordinal)) (k := k) (n := 32) (by omega)
    (by simpa [← hk] using hafter) fun i hi => by
      have hlater : daysBeforeYear (d.year + 1) ≤ daysBeforeYear (d.ordinal / 366 + 1 + i) :=
        daysBeforeYear_le (by omega)
      simp only [decide_eq_false_iff_not]
      omega
  unfold yearOfOrdinal
  dsimp only
  rw [hlast, hk]
  rfl

theorem monthOfDay_dayOfYear :
    monthOfDay d.year (daysBeforeMonth d.year d.month + d.day) = d.month := by
  obtain ⟨hafter, hbefore⟩ := d.dayOfYear_bounds
  have hmonth := d.month_bounds
  obtain ⟨k, hk⟩ : ∃ k, d.month = k + 1 := ⟨d.month - 1, by omega⟩
  have hlast := getLast?_filter_range (f := (· + 1))
    (p := fun m => decide (daysBeforeMonth d.year m < daysBeforeMonth d.year d.month + d.day))
    (k := k) (n := 12) (by omega) (by simpa [← hk] using hafter) fun i hi => by
      have hlater : daysBeforeMonth d.year (d.month + 1) ≤ daysBeforeMonth d.year (i + 1) :=
        daysBeforeMonth_le (by omega)
      simp only [decide_eq_false_iff_not]
      omega
  unfold monthOfDay
  rw [hlast, hk]
  rfl

/-- Every day comes back from its number. -/
theorem ofOrdinal?_ordinal : ofOrdinal? d.ordinal = some d := by
  have hpositive : ¬ (d.ordinal : Int) < 1 := by
    have hbounds := d.ordinal_bounds
    omega
  have hday : d.ordinal - daysBeforeYear d.year = daysBeforeMonth d.year d.month + d.day := by
    unfold ordinal
    omega
  unfold ofOrdinal?
  rw [if_neg hpositive]
  dsimp only
  rw [Int.toNat_natCast, yearOfOrdinal_ordinal, hday, monthOfDay_dayOfYear, Nat.add_sub_cancel_left]
  exact ofParts?_self d

variable {d} {e : Date}

theorem exists_ofParts (year month day : Nat) (hyear : 1 ≤ year ∧ year ≤ 9999)
    (hmonth : 1 ≤ month ∧ month ≤ 12) (hday : 1 ≤ day ∧ day ≤ daysInMonth year month) :
    ∃ x : Date, x.year = year ∧ x.month = month ∧ x.day = day :=
  ⟨⟨year, month, day, hyear, hmonth, hday⟩, rfl, rfl, rfl⟩

theorem one_le_daysInMonth (year month : Nat) : 1 ≤ daysInMonth year month := by
  unfold daysInMonth
  split
  · split <;> omega
  · split <;> omega

/-- What is later than the last day of a month is in a later month. -/
theorem month_lt_of_last_day (h : e < d) (hlast : e.day = daysInMonth e.year e.month) :
    e.year * 12 + e.month < d.year * 12 + d.month := by
  have hmonth := e.month_bounds
  have hmonth' := d.month_bounds
  have hday' := d.day_bounds
  refine Nat.lt_of_not_le fun hnot => ?_
  have hshort' := daysInMonth_le d.year d.month
  rw [lt_iff, place, place] at h
  obtain ⟨hsame, hsame'⟩ : d.year = e.year ∧ d.month = e.month := by omega
  rw [hsame, hsame'] at hday' h
  omega

/-- Where a day is followed by another one at all, the next one is in the same month, in the next month
or in the next year. -/
theorem exists_succ (h : e < d) : ∃ x : Date, x.ordinal = e.ordinal + 1 ∧ x ≤ d := by
  have hyear := e.year_bounds
  have hmonth := e.month_bounds
  have hday := e.day_bounds
  have hyear' := d.year_bounds
  have hmonth' := d.month_bounds
  have hday' := d.day_bounds
  by_cases hrest : e.day < daysInMonth e.year e.month
  · rw [lt_iff] at h
    obtain ⟨x, hx, hx', hx''⟩ := exists_ofParts e.year e.month (e.day + 1) hyear hmonth (by omega)
    refine ⟨x, ?_, ?_⟩
    · simp only [ordinal, hx, hx', hx'']
      omega
    · simp only [le_iff, place, hx, hx', hx''] at h ⊢
      omega
  have hover : e.day = daysInMonth e.year e.month := by omega
  have hlater := month_lt_of_last_day h hover
  by_cases hmonths : e.month < 12
  · obtain ⟨x, hx, hx', hx''⟩ := exists_ofParts e.year (e.month + 1) 1 hyear (by omega)
      ⟨Nat.le_refl 1, one_le_daysInMonth ..⟩
    refine ⟨x, ?_, ?_⟩
    · simp only [ordinal, hx, hx', hx'', daysBeforeMonth_succ e.year hmonth.1]
      omega
    · simp only [le_iff, place, hx, hx', hx'']
      omega
  · have hlast : e.month = 12 := by omega
    obtain ⟨x, hx, hx', hx''⟩ := exists_ofParts (e.year + 1) 1 1 (by omega) (by omega)
      ⟨Nat.le_refl 1, one_le_daysInMonth ..⟩
    refine ⟨x, ?_, ?_⟩
    · have hmonths : daysBeforeMonth e.year 13 = daysBeforeMonth e.year 12 + daysInMonth e.year 12 :=
        daysBeforeMonth_succ e.year (by omega)
      have hnone : daysBeforeMonth (e.year + 1) 1 = 0 := rfl
      simp only [ordinal, hx, hx', hx'', hnone, daysBeforeYear_succ hyear.1, hlast]
      rw [hlast] at hover
      omega
    · simp only [le_iff, place, hx, hx', hx'']
      omega

/-- The day after an earlier day comes no later than a later one. -/
theorem addDays_one_of_lt (h : e < d) : ∃ x, e.addDays 1 = .ok x ∧ x ≤ d := by
  obtain ⟨x, hordinal, hle⟩ := exists_succ h
  refine ⟨x, ?_, hle⟩
  have hnumber : (e.ordinal : Int) + 1 = (x.ordinal : Int) := by omega
  unfold addDays
  rw [hnumber, ofOrdinal?_ordinal]

/-- The day of a number has that number. -/
theorem ordinal_of_ofOrdinal? {n : Int} (h : ofOrdinal? n = some d) : (d.ordinal : Int) = n := by
  unfold ofOrdinal? at h
  split at h
  · cases h
  · dsimp only at h
    unfold ofParts? at h
    split at h
    · next hn hparts =>
      obtain rfl := Option.some.inj h
      obtain ⟨-, -, hday⟩ := hparts
      simp only [ordinal]
      omega
    · cases h

theorem addDays_eq_ok {n : Int} : d.addDays n = .ok e ↔ (e.ordinal : Int) = d.ordinal + n := by
  unfold addDays
  constructor
  · intro h
    split at h
    · next x hx =>
      obtain rfl := Except.ok.inj h
      exact ordinal_of_ofOrdinal? hx
    · cases h
  · intro h
    rw [← h, ofOrdinal?_ordinal]

theorem ordinal_lt_of_lt (h : e < d) : e.ordinal < d.ordinal := by
  have hmonth := e.month_bounds
  have hmonth' := d.month_bounds
  have hday := d.day_bounds
  have hday' := e.day_bounds
  have hshort := daysInMonth_le d.year d.month
  have hshort' := daysInMonth_le e.year e.month
  rw [lt_iff, place, place] at h
  by_cases hyears : e.year < d.year
  · have hbefore := e.ordinal_bounds.2
    have hafter := d.ordinal_bounds.1
    have hle : daysBeforeYear (e.year + 1) ≤ daysBeforeYear d.year := daysBeforeYear_le hyears
    omega
  have hyear : e.year = d.year := by omega
  by_cases hmonths : e.month < d.month
  · have hbefore := e.dayOfYear_bounds.2
    have hle : daysBeforeMonth d.year (e.month + 1) ≤ daysBeforeMonth d.year d.month :=
      daysBeforeMonth_le hmonths
    rw [hyear] at hbefore
    simp only [ordinal, hyear]
    omega
  · have hsame : e.month = d.month := by omega
    simp only [ordinal, hyear, hsame]
    omega

theorem lt_iff_ordinal : e < d ↔ e.ordinal < d.ordinal := by
  refine ⟨ordinal_lt_of_lt, fun h => ?_⟩
  by_cases hlt : e < d
  · exact hlt
  rcases lt_or_eq_of_not_lt hlt with hlt | rfl
  · have hback := ordinal_lt_of_lt hlt
    omega
  · omega

/-- Between the numbers of two days every number has its day. -/
theorem exists_ordinal {n : Nat} (h : e.ordinal + n ≤ d.ordinal) :
    ∃ x : Date, x.ordinal = e.ordinal + n := by
  induction n with
  | zero => exact ⟨e, rfl⟩
  | succ n ih =>
    obtain ⟨x, hx⟩ := ih (by omega)
    obtain ⟨y, hy, -⟩ := exists_succ (lt_iff_ordinal.mpr (by omega) : x < d)
    exact ⟨y, by omega⟩

end Date
end Backtesting
