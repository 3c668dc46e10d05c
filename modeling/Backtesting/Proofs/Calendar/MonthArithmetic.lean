import Backtesting.Proofs.Calendar.Month

/-!
How moves by months compare. Whether a move succeeds depends on the month it leads to alone, and so does
the length that cuts the day. Of two moves, the one that leads to a later month therefore ends later, and
within one month the days keep their order. Two moves in a row cut the day twice, so they end no later than
the one move that does both, and cut nothing from a day that every month has.
-/
namespace Backtesting.Date

variable {d d' e e' x : Date} {n n' a b : Int}

theorem twentyEight_le_daysInMonth (year month : Nat) : 28 ≤ daysInMonth year month := by
  unfold daysInMonth
  split
  · split <;> omega
  · split <;> omega

theorem monthNumber_bounds (d : Date) : 13 ≤ d.monthNumber ∧ d.monthNumber ≤ 9999 * 12 + 12 := by
  have hyear := d.year_bounds
  have hmonth := d.month_bounds
  unfold monthNumber
  omega

theorem month_eq_of_monthNumber_eq (h : e.monthNumber = e'.monthNumber) :
    e.year = e'.year ∧ e.month = e'.month := by
  have hmonth := e.month_bounds
  have hmonth' := e'.month_bounds
  simp only [monthNumber] at h
  omega

/-- The month `n` months after the one of `d`, in years that go on beyond the calendar. -/
structure IsMonth (d : Date) (n year month : Int) : Prop where
  bounds : 1 ≤ month ∧ month ≤ 12
  count : 12 * year + month = 12 * d.year + d.month + n

theorem exists_isMonth (d : Date) (n : Int) : ∃ year month, IsMonth d n year month := by
  refine ⟨(12 * d.year + d.month + n - 1) / 12, (12 * d.year + d.month + n - 1) % 12 + 1, ?_, ?_⟩
  · omega
  · omega

variable {year month : Int}

theorem IsMonth.isMonthsAfter_iff (h : IsMonth d n year month) : IsMonthsAfter n d e ↔
    (e.year : Int) = year ∧ (e.month : Int) = month ∧
      e.day = min d.day (daysInMonth e.year e.month) := by
  obtain ⟨hbounds, hcount⟩ := h
  have hmonth := e.month_bounds
  constructor
  · intro hafter
    have hnumber := hafter.month
    simp only [monthNumber] at hnumber
    exact ⟨by omega, by omega, hafter.day⟩
  · intro hparts
    obtain ⟨hy, hm, hday⟩ := hparts
    refine ⟨?_, hday⟩
    simp only [monthNumber]
    omega

theorem IsMonth.exists_addMonths_iff (h : IsMonth d n year month) :
    (∃ e, d.addMonths n = .ok e) ↔ 1 ≤ year ∧ year ≤ 9999 := by
  simp only [addMonths_eq_ok]
  constructor
  · intro hsome
    obtain ⟨e, he⟩ := hsome
    have hyear := e.year_bounds
    have hparts := (h.isMonthsAfter_iff.mp he).1
    omega
  · intro hyear
    obtain ⟨hbounds, hcount⟩ := h
    apply exists_isMonthsAfter
    · simp only [monthNumber]
      omega
    · simp only [monthNumber]
      omega

/-- A move that leaves the calendar fails for the year it leads to, in one way where the year can be asked
for and in another where it cannot. -/
theorem IsMonth.addMonths_eq_error (h : IsMonth d n year month) (hout : ¬ (1 ≤ year ∧ year ≤ 9999)) :
    d.addMonths n = .error
      (if year < -yearLimit ∨ yearLimit ≤ year then .numberTooLarge else .dateOutOfRange) := by
  have hnone : ¬ ∃ e, d.addMonths n = .ok e := fun hsome => hout (h.exists_addMonths_iff.mp hsome)
  obtain ⟨hbounds, hcount⟩ := h
  generalize hk : (d.month : Int) - 1 + n = k
  have hyear : (d.year : Int) + Int.fdiv k 12 = year := by
    rw [Int.fdiv_eq_ediv_of_nonneg k (by decide)]
    omega
  unfold addMonths at hnone ⊢
  simp only [hk, hyear] at hnone ⊢
  split
  · rfl
  · next hasked =>
    rw [if_neg hasked] at hnone
    split
    · next hparts => exact absurd ⟨_, by rw [hparts]⟩ hnone
    · rfl

namespace IsMonthsAfter

/-- Of two days in one month, the one that was moved from the later day is the later one. -/
theorem le_of_day_le (h : IsMonthsAfter n d e) (h' : IsMonthsAfter n' d' e')
    (hmonth : e.monthNumber = e'.monthNumber) (hday : d.day ≤ d'.day) : e ≤ e' := by
  have hcut := h.day
  have hcut' := h'.day
  obtain ⟨hy, hm⟩ := month_eq_of_monthNumber_eq hmonth
  rw [hy, hm] at hcut
  rw [le_iff, place_eq, place_eq]
  omega

theorem le_of_le (h : IsMonthsAfter n d e) (h' : IsMonthsAfter n' d' e') (hd : d ≤ d') (hn : n ≤ n') :
    e ≤ e' := by
  have hmonth := h.month
  have hmonth' := h'.month
  have hmonths := monthNumber_le_of_le hd
  rcases Nat.lt_or_ge e.monthNumber e'.monthNumber with hlt | hge
  · exact Nat.le_of_lt (lt_of_monthNumber_lt hlt)
  · -- neither the month nor the move differs, so the day was the earlier one
    apply h.le_of_day_le h' (by omega)
    rw [le_iff, place_eq, place_eq] at hd
    omega

theorem gt (h : IsMonthsAfter n d e) (hn : n < 0) : e < d := by
  have hmonth := h.month
  apply lt_of_monthNumber_lt
  omega

theorem le_add (h : IsMonthsAfter a d x) (h' : IsMonthsAfter b x e) (hsum : IsMonthsAfter (a + b) d e') :
    e ≤ e' := by
  have hmonth := h.month
  have hmonth' := h'.month
  have hmonths := hsum.month
  have hcut := h.day
  exact h'.le_of_day_le hsum (by omega) (by omega)

theorem eq_add (h : IsMonthsAfter a d x) (h' : IsMonthsAfter b x e) (hsum : IsMonthsAfter (a + b) d e')
    (hday : d.day ≤ 28) : e = e' := by
  have hmonth := h.month
  have hmonth' := h'.month
  have hmonths := hsum.month
  have hcut := h.day
  have hlong := twentyEight_le_daysInMonth x.year x.month
  have hle := h'.le_of_day_le hsum (by omega) (by omega)
  have hge := hsum.le_of_day_le h' (by omega) (by omega)
  exact eq_of_place_eq (Nat.le_antisymm hle hge)

end IsMonthsAfter

/-- Later months can be gone to in two moves where they can in one. -/
theorem exists_addMonths_add_iff (ha : 0 ≤ a) (hb : 0 ≤ b) :
    (∃ x e, d.addMonths a = .ok x ∧ x.addMonths b = .ok e) ↔ ∃ e, d.addMonths (a + b) = .ok e := by
  have hnumber := d.monthNumber_bounds
  simp only [addMonths_eq_ok]
  constructor
  · intro hmoves
    obtain ⟨x, e, hx, he⟩ := hmoves
    have hmonth := hx.month
    have hmonth' := he.month
    have hlast := e.monthNumber_bounds
    exact exists_isMonthsAfter (by omega) (by omega)
  · intro hmove
    obtain ⟨e, he⟩ := hmove
    have hmonth := he.month
    have hlast := e.monthNumber_bounds
    obtain ⟨x, hx⟩ := exists_isMonthsAfter (d := d) (n := a) (by omega) (by omega)
    have hmonth' := hx.month
    obtain ⟨e', he'⟩ := exists_isMonthsAfter (d := x) (n := b) (by omega) (by omega)
    exact ⟨x, e', hx, he'⟩

/-- A move by months fails exactly where the month it leads to is in none of the years 1 to 9999, for being
out of range while the year can be asked for at all. Otherwise it leads into that month, to the same day or
to the last one of a month too short for it. Moves keep the order of the days and of their lengths, a later
month is later and an earlier one earlier, and of two moves onward and the one that does both, either
succeeds where the other does, the two end no later, and on the same day if every month has the first. -/
theorem addMonths_leads (d : Date) (n : Int) :
    (∃ year month, IsMonth d n year month ∧
      ((∃ e, d.addMonths n = .ok e) ↔ 1 ≤ year ∧ year ≤ 9999) ∧
      (¬ (1 ≤ year ∧ year ≤ 9999) → d.addMonths n = .error
        (if year < -2147483648 ∨ 2147483648 ≤ year then .numberTooLarge else .dateOutOfRange)) ∧
      ∀ e, d.addMonths n = .ok e → (e.year : Int) = year ∧ (e.month : Int) = month ∧
        e.day = min d.day (daysInMonth e.year e.month)) ∧
    (∀ d' n' e e', d ≤ d' → n ≤ n' → d.addMonths n = .ok e → d'.addMonths n' = .ok e' → e ≤ e') ∧
    (∀ e, d.addMonths n = .ok e → (1 ≤ n → d < e) ∧ (n ≤ -1 → e < d)) ∧
    ∀ a b, 0 ≤ a → 0 ≤ b →
      ((∃ x e, d.addMonths a = .ok x ∧ x.addMonths b = .ok e) ↔ ∃ e, d.addMonths (a + b) = .ok e) ∧
      ∀ x e e', d.addMonths a = .ok x → x.addMonths b = .ok e → d.addMonths (a + b) = .ok e' →
        e ≤ e' ∧ (d.day ≤ 28 → e = e') := by
  obtain ⟨year, month, hplace⟩ := exists_isMonth d n
  refine ⟨⟨year, month, hplace, hplace.exists_addMonths_iff, hplace.addMonths_eq_error, ?_⟩, ?_, ?_, ?_⟩
  · intro e he
    exact hplace.isMonthsAfter_iff.mp (addMonths_eq_ok.mp he)
  · intro d' n' e e' hd hn he he'
    exact (addMonths_eq_ok.mp he).le_of_le (addMonths_eq_ok.mp he') hd hn
  · intro e he
    have hafter := addMonths_eq_ok.mp he
    exact ⟨fun hn => hafter.lt (by omega), fun hn => hafter.gt (by omega)⟩
  · intro a b ha hb
    refine ⟨exists_addMonths_add_iff ha hb, ?_⟩
    intro x e e' hx he he'
    rw [addMonths_eq_ok] at hx he he'
    exact ⟨hx.le_add he he', hx.eq_add he he'⟩

/-- The last of January 2024 is moved on, backward and on again. -/
theorem addMonths_leads_from_january :
    let d : Date := ⟨2024, 1, 31, by decide, by decide, by decide⟩
    let e : Date := ⟨2024, 2, 29, by decide, by decide, by decide⟩
    let x : Date := ⟨2024, 3, 29, by decide, by decide, by decide⟩
    let e' : Date := ⟨2024, 3, 31, by decide, by decide, by decide⟩
    d < e ∧ e ≤ e' ∧ x ≤ e' ∧ d.addMonths (-24289) = .error .dateOutOfRange := by
  intro d e x e'
  obtain ⟨-, hmono, hlater, hmoves⟩ := addMonths_leads d 1
  have he : d.addMonths 1 = .ok e := addMonths_eq_ok.mpr ⟨by decide, by decide⟩
  have hx : e.addMonths 1 = .ok x := addMonths_eq_ok.mpr ⟨by decide, by decide⟩
  have he' : d.addMonths (1 + 1) = .ok e' := addMonths_eq_ok.mpr ⟨by decide, by decide⟩
  obtain ⟨year, month, hplace, -, hfails, -⟩ := (addMonths_leads d (-24289)).1
  have hcount : 12 * year + month = 12 * 2024 + 1 + -24289 := hplace.count
  have hbounds := hplace.bounds
  refine ⟨(hlater e he).1 (by decide), hmono d 2 e e' (Nat.le_refl _) (by decide) he he',
    ((hmoves 1 1 (by decide) (by decide)).2 e x e' he hx he').1, ?_⟩
  rw [hfails (by omega), if_neg (by omega)]

/-- A year that cannot be asked for is not said to be out of range. -/
theorem addMonths_beyond_years : ∃ (d : Date) (n : Int), IsMonth d n 2147485672 1 ∧
    d.addMonths n = .error .numberTooLarge ∧ d.addMonths n ≠ .error .dateOutOfRange := by
  have hplace : IsMonth ⟨2024, 1, 31, by decide, by decide, by decide⟩ 25769803776 2147485672 1 :=
    ⟨by decide, by decide⟩
  have hfails := hplace.addMonths_eq_error (by decide)
  rw [if_pos (by decide)] at hfails
  refine ⟨_, _, hplace, hfails, ?_⟩
  rw [hfails]
  simp

end Backtesting.Date
