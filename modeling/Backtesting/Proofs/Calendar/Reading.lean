import Backtesting.Proofs.Calendar.Month
import Backtesting.Proofs.Calendar.Text
import Mathlib.Tactic.SplitIfs

/-!
Which texts are dates. A date is read from its three spellings, with blanks around them or without.
Without separators a text is taken apart from the left, and the month takes two digits if the rest
still begins a day, else one: so not only eight digits are read.
-/
namespace Backtesting

namespace Date

def month? (cs : List Char) : Option Nat :=
  (Text.nat? cs).filter fun m => 1 ≤ m ∧ m ≤ 12

theorem month?_eq_some {cs : List Char} {m : Nat} :
    month? cs = some m ↔ Text.nat? cs = some m ∧ 1 ≤ m ∧ m ≤ 12 := by
  simp [month?, Option.filter_eq_some_iff]

theorem month?_singleton (a : Char) :
    month? [a] = if '1' ≤ a ∧ a ≤ '9' then some (a.toNat - '0'.toNat) else none := by
  ext m
  rw [month?_eq_some, Text.nat?_singleton, Text.isDigit_iff]
  simp only [Text.char_le_iff, Char.reduceToNat]
  split_ifs
  · rw [Option.some.injEq]
    omega
  · rw [iff_false]
    omega

theorem month?_pair (a b : Char) : month? [a, b] =
    if a = '1' ∧ '0' ≤ b ∧ b ≤ '2' then some (10 + (b.toNat - '0'.toNat))
    else if a = '0' ∧ '1' ≤ b ∧ b ≤ '9' then some (b.toNat - '0'.toNat) else none := by
  ext m
  rw [month?_eq_some, Text.nat?_pair, Text.isDigit_iff, Text.isDigit_iff]
  simp only [Text.char_le_iff, ← Char.toNat_inj, Char.reduceToNat]
  split_ifs
  · rw [Option.some.injEq]
    omega
  · rw [Option.some.injEq]
    omega
  · rw [iff_false]
    omega

/-- The month takes two digits where it can, and one otherwise. -/
theorem monthReadings_eq (a b : Char) (cs : List Char) : monthReadings (a :: b :: cs) =
    ((month? [a, b]).map (·, cs)).toList ++ ((month? [a]).map (·, b :: cs)).toList := by
  rw [month?_singleton, month?_pair, monthReadings]
  split_ifs <;> simp_all

/-- A text is a day: one or two digits, a blank and a digit, or two digits of which the second may be
of any script. -/
def IsDay (day : Nat) (cs : List Char) : Prop :=
  (1 ≤ day ∧ day ≤ 31) ∧
    (cs.length ≤ 2 ∧ Text.nat? cs = some day ∨ (∃ a, cs = [' ', a] ∧ Text.nat? [a] = some day) ∨
      ∃ a b, cs = [a, b] ∧ (a = '1' ∨ a = '2') ∧ number? [a, b] = some day)

theorem isDay_nil {n : Nat} : ¬ IsDay n [] := by
  rintro ⟨-, ⟨-, h⟩ | ⟨a, h, -⟩ | ⟨a, b, h, -⟩⟩ <;> simp [Text.nat?] at h

theorem isDay_singleton {a : Char} {n : Nat} :
    IsDay n [a] ↔ ('1' ≤ a ∧ a ≤ '9') ∧ n = a.toNat - '0'.toNat := by
  simp only [IsDay, Text.nat?_singleton, Text.isDigit_iff, Text.char_le_iff, Char.reduceToNat,
    List.length_singleton, List.cons.injEq, reduceCtorEq, and_false, false_and, exists_false, or_false]
  omega

theorem number?_pair {a b : Char} {n : Nat} (ha : a = '1' ∨ a = '2') :
    number? [a, b] = some n ↔ ∃ k, Text.digitValue? b = some k ∧ (a.toNat - 48) * 10 + k = n := by
  have hdigit : a.isDigit = true := by rcases ha with rfl | rfl <;> decide
  cases hb : Text.digitValue? b with
  | none => simp [number?, Text.digitValue?_of_isDigit hdigit, hb]
  | some k =>
    simp [number?, Text.digitValue?_of_isDigit hdigit, hb, Text.natOfDigits]
    omega

/-- A day takes one or two characters. -/
theorem length_of_dayReading? {cs rest : List Char} {n : Nat}
    (h : dayReading? cs = some (n, rest)) :
    rest.length < cs.length ∧ cs.length ≤ rest.length + 2 := by
  match cs with
  | [] => simp [dayReading?] at h
  | [a] =>
    simp only [dayReading?] at h
    split at h <;> simp_all
  | a :: b :: cs =>
    have hrest : rest = cs ∨ rest = b :: cs := by
      simp only [dayReading?] at h
      split at h
      · simp_all
      · split at h
        · simp_all
        · split_ifs at h <;> simp_all
    rcases hrest with rfl | rfl <;> simp only [List.length_cons] <;> omega

/-- Two characters are a day in one of three ways. -/
theorem isDay_pair {a b : Char} {n : Nat} : IsDay n [a, b] ↔
    (a = '3' ∧ (b = '0' ∨ b = '1') ∧ n = 30 + (b.toNat - '0'.toNat)) ∨
    ((a = '1' ∨ a = '2') ∧ ∃ k, Text.digitValue? b = some k ∧ (a.toNat - '0'.toNat) * 10 + k = n) ∨
    ((a = '0' ∨ a = ' ') ∧ ('1' ≤ b ∧ b ≤ '9') ∧ n = b.toNat - '0'.toNat) := by
  have hascii (h : b.isDigit = true) : Text.digitValue? b = some (b.toNat - 48) :=
    Text.digitValue?_of_isDigit h
  constructor
  · rintro ⟨hbounds, ⟨-, hnat⟩ | ⟨c, heq, hnat⟩ | ⟨a', b', heq, hfirst, hnumber⟩⟩
    · obtain ⟨⟨ha, hb⟩, hn⟩ := Text.nat?_pair.mp hnat
      by_cases hteen : a = '1' ∨ a = '2'
      · exact .inr (.inl ⟨hteen, _, hascii hb, by simpa [Nat.mul_comm] using hn⟩)
      · rw [Text.isDigit_iff] at ha hb
        simp only [← Char.toNat_inj, Text.char_le_iff, Char.reduceToNat] at hteen ⊢
        omega
    · obtain ⟨rfl, rfl⟩ : a = ' ' ∧ b = c := by simpa using heq
      obtain ⟨hb, hn⟩ := Text.nat?_singleton.mp hnat
      rw [Text.isDigit_iff] at hb
      refine .inr (.inr ⟨.inr rfl, ?_⟩)
      simp only [Text.char_le_iff, Char.reduceToNat]
      omega
    · obtain ⟨rfl, rfl⟩ : a = a' ∧ b = b' := by simpa using heq
      exact .inr (.inl ⟨hfirst, (number?_pair hfirst).mp hnumber⟩)
  · rintro (⟨rfl, hb, rfl⟩ | ⟨hfirst, k, hk, rfl⟩ | ⟨ha, hb, rfl⟩)
    · rcases hb with rfl | rfl
      · exact ⟨by decide, .inl ⟨by decide, by decide⟩⟩
      · exact ⟨by decide, .inl ⟨by decide, by decide⟩⟩
    · have hlt := Text.digitValue?_lt hk
      refine ⟨?_, .inr (.inr ⟨a, b, rfl, hfirst, (number?_pair hfirst).mpr ⟨k, hk, rfl⟩⟩)⟩
      rcases hfirst with rfl | rfl <;> simp only [Char.reduceToNat] <;> omega
    · simp only [Text.char_le_iff, Char.reduceToNat] at hb ⊢
      have hdigit : b.isDigit = true := Text.isDigit_iff.mpr (by omega)
      refine ⟨by omega, ?_⟩
      rcases ha with rfl | rfl
      · exact .inl ⟨by simp, Text.nat?_pair.mpr ⟨⟨by decide, hdigit⟩, by simp⟩⟩
      · exact .inr (.inl ⟨b, rfl, Text.nat?_singleton.mpr ⟨hdigit, rfl⟩⟩)

theorem dayReading?_pair {a b : Char} {n : Nat} :
    dayReading? [a, b] = some (n, []) ↔ IsDay n [a, b] := by
  rw [isDay_pair, dayReading?]
  by_cases hthirty : a = '3' ∧ (b = '0' ∨ b = '1')
  · rw [if_pos hthirty]
    obtain ⟨rfl, hb⟩ := hthirty
    simp [hb, eq_comm]
  rw [if_neg hthirty]
  by_cases hfirst : a = '1' ∨ a = '2'
  · rw [if_pos hfirst]
    cases hb : Text.digitValue? b with
    | none => rcases hfirst with rfl | rfl <;> simp
    | some k => rcases hfirst with rfl | rfl <;> simp
  · rw [if_neg hfirst]
    dsimp only
    split_ifs with hzero hone hblank
    · obtain ⟨rfl, hb⟩ := hzero
      simp [hb, eq_comm]
    · have hneither : a ≠ '0' ∧ a ≠ ' ' := by
        constructor <;> rintro rfl <;> revert hone <;> decide
      -- the first character is a day of its own, so the second one is left over
      simp only [Option.some.injEq, Prod.mk.injEq, List.cons_ne_nil, and_false, false_iff]
      rintro (⟨ha, hb, -⟩ | ⟨ha, -⟩ | ⟨ha | ha, -⟩)
      · exact hthirty ⟨ha, hb⟩
      · exact hfirst ha
      · exact hneither.1 ha
      · exact hneither.2 ha
    · obtain ⟨rfl, hb⟩ := hblank
      simp [hb, eq_comm]
    · simp only [false_iff]
      rintro (⟨ha, hb, -⟩ | ⟨ha, -⟩ | ⟨ha | ha, hb, -⟩)
      · exact hthirty ⟨ha, hb⟩
      · exact hfirst ha
      · exact hzero ⟨ha, hb⟩
      · exact hblank ⟨ha, hb⟩

/-- The day is what is left of the text, if that is a day. -/
theorem dayReading?_eq_some {cs : List Char} {n : Nat} :
    dayReading? cs = some (n, []) ↔ IsDay n cs := by
  match cs with
  | [] => simp [dayReading?, isDay_nil]
  | [a] =>
    rw [isDay_singleton, dayReading?]
    split_ifs with h
    · simp [h, eq_comm]
    · simp [h]
  | [a, b] => exact dayReading?_pair
  | a :: b :: c :: cs =>
    constructor
    · intro h
      have hlength := (length_of_dayReading? h).2
      simp at hlength
    · rintro ⟨-, ⟨h, -⟩ | ⟨a, h, -⟩ | ⟨a, b, h, -⟩⟩ <;> simp at h

theorem IsDay.length_bounds {n : Nat} {cs : List Char} (h : IsDay n cs) :
    1 ≤ cs.length ∧ cs.length ≤ 2 := by
  simpa [Nat.succ_le_iff] using length_of_dayReading? (dayReading?_eq_some.mpr h)

/-- Where a day is read and leaves something, there was no room for a digit before it. -/
theorem not_isDay_cons {a c : Char} {cs rest : List Char} {k n : Nat}
    (h : dayReading? cs = some (k, c :: rest)) : ¬ IsDay n (a :: cs) := by
  intro hday
  have hlong := (length_of_dayReading? h).1
  have hshort := hday.length_bounds.2
  simp only [List.length_cons] at hlong hshort
  omega

/-- A text is a month of so many digits and a day. -/
def IsMonthDay (width month day : Nat) (cs : List Char) : Prop :=
  ∃ ms ds, cs = ms ++ ds ∧ ms.length = width ∧ month? ms = some month ∧ IsDay day ds

theorem IsMonthDay.length_bounds {width m n : Nat} {cs : List Char}
    (h : IsMonthDay width m n cs) : width + 1 ≤ cs.length ∧ cs.length ≤ width + 2 := by
  obtain ⟨ms, ds, rfl, hmonth, -, hday⟩ := h
  have hlength := hday.length_bounds
  simp only [List.length_append, hmonth]
  omega

theorem isMonthDay_two {a b : Char} {cs : List Char} {m n : Nat} :
    IsMonthDay 2 m n (a :: b :: cs) ↔ month? [a, b] = some m ∧ IsDay n cs := by
  constructor
  · rintro ⟨ms, ds, heq, hlength, hm, hn⟩
    obtain ⟨c, d, rfl⟩ := List.length_eq_two.mp hlength
    obtain ⟨rfl, rfl, rfl⟩ : a = c ∧ b = d ∧ cs = ds := by simpa using heq
    exact ⟨hm, hn⟩
  · rintro ⟨hm, hn⟩
    exact ⟨[a, b], cs, rfl, rfl, hm, hn⟩

theorem isMonthDay_one {a : Char} {cs : List Char} {m n : Nat} :
    IsMonthDay 1 m n (a :: cs) ↔ month? [a] = some m ∧ IsDay n cs := by
  constructor
  · rintro ⟨ms, ds, heq, hlength, hm, hn⟩
    obtain ⟨c, rfl⟩ := List.length_eq_one_iff.mp hlength
    obtain ⟨rfl, rfl⟩ : a = c ∧ cs = ds := by simpa using heq
    exact ⟨hm, hn⟩
  · rintro ⟨hm, hn⟩
    exact ⟨[a], cs, rfl, rfl, hm, hn⟩

/-- The month and the day at the start of a text, and what follows them. -/
def monthDayReading? (cs : List Char) : Option ((Nat × Nat) × List Char) :=
  (monthReadings cs).findSome? fun (m, cs) => (dayReading? cs).map fun (d, cs) => ((m, d), cs)

theorem readings?_none (cs : List Char) : readings? none cs = (yearReading? cs).bind fun year =>
    (monthDayReading? year.2).map fun rest => ((year.1, rest.1.1, rest.1.2), rest.2) := by
  cases hyear : yearReading? cs with
  | none => simp [readings?, hyear]
  | some reading =>
    obtain ⟨y, rest⟩ := reading
    simp only [readings?, hyear, separated?, monthDayReading?, Option.bind_eq_bind, Option.bind_some,
      List.map_findSome?]
    congr 1
    funext reading
    obtain ⟨m, cs⟩ := reading
    cases hday : dayReading? cs <;> simp [hday]

/-- One month in front of a day. -/
theorem findSome?_dayReading? {month : Option Nat} {rest : List Char} {m n : Nat} :
    (month.map (·, rest)).toList.findSome? (fun (m, cs) =>
        (dayReading? cs).map fun (d, cs) => ((m, d), cs)) = some ((m, n), []) ↔
      month = some m ∧ IsDay n rest := by
  cases month with
  | none => simp
  | some k =>
    rw [← dayReading?_eq_some]
    cases hday : dayReading? rest <;> simp [hday, Prod.ext_iff, and_assoc]

/-- The month takes two digits if a day follows them, and one otherwise. -/
theorem monthDayReading?_eq_some {cs : List Char} {m n : Nat} :
    monthDayReading? cs = some ((m, n), []) ↔
      IsMonthDay 2 m n cs ∨ IsMonthDay 1 m n cs ∧ ∀ m n, ¬ IsMonthDay 2 m n cs := by
  have hshort (width m n : Nat) (h : cs.length ≤ width) : ¬ IsMonthDay width m n cs := by
    intro hmonth
    have hlength := hmonth.length_bounds.1
    omega
  match cs with
  | [] => simp [monthDayReading?, monthReadings, hshort]
  | [a] =>
    have hnone : monthDayReading? [a] = none := by
      rw [monthDayReading?, monthReadings]
      split <;> rfl
    simp [hnone, hshort]
  | a :: b :: cs =>
    simp only [isMonthDay_two, isMonthDay_one, monthDayReading?, monthReadings_eq,
      List.findSome?_append]
    cases hmonth : month? [a, b] with
    | none => simpa using findSome?_dayReading?
    | some k =>
      cases hday : dayReading? cs with
      | none =>
        have hnot (n : Nat) : ¬ IsDay n cs := by simp [← dayReading?_eq_some, hday]
        simpa [hday, hnot] using findSome?_dayReading?
      | some reading =>
        -- this choice is final, even where it does not reach the end of the text
        obtain ⟨j, rest⟩ := reading
        have hreading : ((some k).map (·, cs)).toList.findSome? (fun (m, cs) =>
            (dayReading? cs).map fun (d, cs) => ((m, d), cs)) = some ((k, j), rest) := by
          simp [hday]
        rw [hreading, Option.some_or]
        cases rest with
        | nil =>
          have hself : IsDay j cs := dayReading?_eq_some.mp hday
          have hsame : IsDay n cs ↔ j = n := by simp [← dayReading?_eq_some, hday]
          rw [or_iff_left fun h => h.2 k j ⟨rfl, hself⟩, hsame]
          simp
        | cons c rest =>
          have hnot (n : Nat) : ¬ IsDay n cs := by simp [← dayReading?_eq_some, hday]
          simp [hnot, not_isDay_cons hday]

/-- A text without separators is a date: a year of four digits of any script, a month of `width`
digits, and a day. -/
def IsCompact (width year month day : Nat) (cs : List Char) : Prop :=
  ∃ ys rest, cs = ys ++ rest ∧ ys.length = 4 ∧ number? ys = some year ∧
    IsMonthDay width month day rest

theorem isCompact_iff {width y m n : Nat} {cs : List Char} : IsCompact width y m n cs ↔
    ∃ rest, yearReading? cs = some (y, rest) ∧ IsMonthDay width m n rest := by
  constructor
  · rintro ⟨ys, rest, rfl, hlength, hyear, h⟩
    exact ⟨rest, yearReading?_eq_some.mpr ⟨ys, rfl, hlength, hyear⟩, h⟩
  · rintro ⟨rest, hyear, h⟩
    obtain ⟨ys, rfl, hlength, hy⟩ := yearReading?_eq_some.mp hyear
    exact ⟨ys, rest, rfl, hlength, hy, h⟩

theorem readings?_none_eq_some {y m n : Nat} {cs : List Char} :
    readings? none cs = some ((y, m, n), []) ↔
      IsCompact 2 y m n cs ∨ IsCompact 1 y m n cs ∧ ∀ y m n, ¬ IsCompact 2 y m n cs := by
  rw [readings?_none]
  simp only [isCompact_iff]
  cases hyear : yearReading? cs with
  | none => simp
  | some reading =>
    obtain ⟨year, rest⟩ := reading
    have hmap : (monthDayReading? rest).map (fun q => ((year, q.1.1, q.1.2), q.2)) =
        some ((y, m, n), []) ↔ year = y ∧ monthDayReading? rest = some ((m, n), []) := by
      cases monthDayReading? rest with
      | none => simp
      | some reading =>
        obtain ⟨⟨k, j⟩, cs⟩ := reading
        simp [and_assoc]
    have hrest (width y m n : Nat) :
        (∃ r, some (year, rest) = some (y, r) ∧ IsMonthDay width m n r) ↔
          year = y ∧ IsMonthDay width m n rest := by
      simp [and_assoc]
    have hnone : (∀ y m n, ¬ (year = y ∧ IsMonthDay 2 m n rest)) ↔ ∀ m n, ¬ IsMonthDay 2 m n rest :=
      ⟨fun h m n hmonth => h year m n ⟨rfl, hmonth⟩, fun h y m n hmonth => h m n hmonth.2⟩
    rw [Option.bind_some, hmap, monthDayReading?_eq_some]
    simp only [hrest, hnone]
    rw [and_or_left, and_assoc]

theorem ofFormat?_eq_some {separator : Option Char} {cs : List Char} {d : Date} :
    ofFormat? separator cs = some d ↔
      readings? separator cs = some ((d.year, d.month, d.day), []) := by
  constructor
  · intro h
    unfold ofFormat? at h
    split at h
    · next y m n hreadings =>
      obtain ⟨rfl, rfl, rfl⟩ := ofParts?_eq_some.mp h
      exact hreadings
    · cases h
  · intro h
    rw [ofFormat?, h]
    exact ofParts?_self d

/-- A text without separators is read as one. -/
theorem ofText?_of_not_mem {s : String} (hhyphen : '-' ∉ s.toList) (hslash : '/' ∉ s.toList) :
    ofText? s = ofFormat? none (Text.trimList s.toList) := by
  have hhyphen' : '-' ∉ Text.trimList s.toList := mt Text.mem_of_mem_trimList hhyphen
  have hslash' : '/' ∉ Text.trimList s.toList := mt Text.mem_of_mem_trimList hslash
  simp [ofText?, hhyphen', hslash', ofFormat?_of_not_mem]

theorem read_text (s : String) : read (.text s) =
    match ofText? s with
    | some d => .ok d
    | none => .error (.unreadableDate (.text s)) := rfl

/-- The dates that a text without separators is read as: with a month of two digits where the text
has such a date at all, else with a month of one digit. -/
theorem read_eq_ok_iff {s : String} (hhyphen : '-' ∉ s.toList) (hslash : '/' ∉ s.toList) {d : Date} :
    read (.text s) = .ok d ↔ IsCompact 2 d.year d.month d.day (Text.trimList s.toList) ∨
      IsCompact 1 d.year d.month d.day (Text.trimList s.toList) ∧
        ∀ y m n, ¬ IsCompact 2 y m n (Text.trimList s.toList) := by
  rw [← readings?_none_eq_some, ← ofFormat?_eq_some, ← ofText?_of_not_mem hhyphen hslash, read_text]
  cases ofText? s <;> simp

/-- A day of two ASCII digits is their number. -/
theorem IsDay.nat?_eq {n : Nat} {cs : List Char} (h : IsDay n cs)
    (hdigits : ∀ c ∈ cs, c.isDigit = true) : Text.nat? cs = some n := by
  obtain ⟨-, ⟨-, h⟩ | ⟨a, rfl, -⟩ | ⟨a, b, rfl, -, h⟩⟩ := h
  · exact h
  · exact absurd (hdigits ' ' (by simp)) (by decide)
  · rwa [number?_eq_nat? (by simp) hdigits] at h

theorem IsCompact.length_bounds {width y m n : Nat} {cs : List Char} (h : IsCompact width y m n cs) :
    width + 5 ≤ cs.length ∧ cs.length ≤ width + 6 := by
  obtain ⟨ys, rest, rfl, hyear, -, hmonth⟩ := h
  have hlength := hmonth.length_bounds
  simp only [List.length_append, hyear]
  omega

/-- Eight digits are the year, the month and the day. -/
theorem IsCompact.eq_spelled {width : Nat} {d : Date} {cs : List Char}
    (h : IsCompact width d.year d.month d.day cs) (hwidth : width ≤ 2) (hlength : cs.length = 8)
    (hdigits : ∀ c ∈ cs, c.isDigit = true) : cs = d.spelled none := by
  obtain rfl : width = 2 := by
    have hbounds := h.length_bounds
    omega
  obtain ⟨ys, rest, rfl, hyear, hnumber, ms, ds, rfl, hmonth, hm, hday⟩ := h
  have hys : ∀ c ∈ ys, c.isDigit = true := fun c hc => hdigits c (by simp [hc])
  have hds : ∀ c ∈ ds, c.isDigit = true := fun c hc => hdigits c (by simp [hc])
  have hdays : ds.length = 2 := by
    simp only [List.length_append] at hlength
    omega
  have hne : ys ≠ [] := List.ne_nil_of_length_pos (by omega)
  rw [number?_eq_nat? hne hys] at hnumber
  rw [Text.eq_of_nat?_eq_some (hyear.trans (length_padded_year d).symm) hnumber (Text.nat?_padded ..),
    Text.eq_of_nat?_eq_some (hmonth.trans (length_padded_month d).symm) (month?_eq_some.mp hm).1
      (Text.nat?_padded ..),
    Text.eq_of_nat?_eq_some (hdays.trans (length_padded_day d).symm) (hday.nat?_eq hds)
      (Text.nat?_padded ..)]
  rfl

/-- What is read as a date. The three spellings are, with any blanks around them. Of a text without
hyphens and slashes the blanks around it do not count, and it is read if it is a year of four digits,
a month and a day; the month has two digits where that leaves a day, and one digit otherwise, and the
rest of the text is the day. All other such texts are refused. So what is read has six to eight
characters, and of eight digits exactly the spelled dates are read. -/
theorem reads_spellings (d : Date) (s : String) :
    (∀ (separator : Option Char) (before after : List Char),
      separator ∈ [some '-', some '/', none] → (∀ c ∈ before ++ after, Text.isBlank c = true) →
        read (.text (String.ofList (before ++ d.spelled separator ++ after))) = .ok d) ∧
    ('-' ∉ s.toList → '/' ∉ s.toList →
      let cs := Text.trimList s.toList
      (read (.text s) = .ok d ↔ IsCompact 2 d.year d.month d.day cs ∨
        IsCompact 1 d.year d.month d.day cs ∧ ∀ y m n, ¬ IsCompact 2 y m n cs) ∧
      ((∀ e, read (.text s) ≠ .ok e) → read (.text s) = .error (.unreadableDate (.text s))) ∧
      (read (.text s) = .ok d → 6 ≤ cs.length ∧ cs.length ≤ 8) ∧
      (cs.length = 8 → (∀ c ∈ cs, c.isDigit = true) →
        (read (.text s) = .ok d ↔ cs = d.spelled none))) := by
  constructor
  · intro separator before after hseparator hblank
    have htrim : Text.trimList (String.ofList (before ++ d.spelled separator ++ after)).toList =
        d.spelled separator := by
      rw [String.toList_ofList]
      exact Text.trimList_surrounded (fun c hc => hblank c (List.mem_append_left _ hc))
        (fun c hc => hblank c (List.mem_append_right _ hc))
        fun c => isBlank_of_mem_spelled hseparator
    rw [read_text, ofText?_spelled hseparator htrim]
  · intro hhyphen hslash cs
    have hcompact (hread : read (.text s) = .ok d) :
        ∃ width, (1 ≤ width ∧ width ≤ 2) ∧ IsCompact width d.year d.month d.day cs := by
      rcases (read_eq_ok_iff hhyphen hslash).mp hread with h | ⟨h, -⟩
      · exact ⟨2, by decide, h⟩
      · exact ⟨1, by decide, h⟩
    refine ⟨read_eq_ok_iff hhyphen hslash, fun hnone => ?_, fun hread => ?_,
      fun hlength hdigits => ⟨fun hread => ?_, fun hspelled => ?_⟩⟩
    · rw [read_text] at hnone ⊢
      cases htext : ofText? s with
      | none => rfl
      | some e => exact absurd (by rw [htext]) (hnone e)
    · obtain ⟨width, hwidth, h⟩ := hcompact hread
      have hbounds := h.length_bounds
      omega
    · obtain ⟨width, hwidth, h⟩ := hcompact hread
      exact h.eq_spelled hwidth.2 hlength hdigits
    · rw [read_text, ofText?_spelled (by simp) hspelled]

/-- Blanks around a spelled date, and a text that is too short for one. -/
theorem reads_spellings_blanks :
    let leap : Date := ⟨2024, 2, 29, by decide, by decide, by decide⟩
    read (.text " 2024/02/29\n") = .ok leap ∧
      read (.text "20240") = .error (.unreadableDate (.text "20240")) := by
  intro leap
  obtain ⟨hspelled, -⟩ := reads_spellings leap ""
  have htext : String.ofList ([' '] ++ leap.spelled (some '/') ++ ['\n']) = " 2024/02/29\n" := by
    decide +kernel
  have hblank : ∀ c ∈ [' '] ++ ['\n'], Text.isBlank c = true := by simp [Text.isBlank]
  have hleap := hspelled (some '/') [' '] ['\n'] (by decide) hblank
  rw [htext] at hleap
  have hlength : (Text.trimList "20240".toList).length = 5 := by decide +kernel
  obtain ⟨-, hother⟩ := reads_spellings leap "20240"
  refine ⟨hleap, (hother (by decide) (by decide)).2.1 fun e he => ?_⟩
  obtain ⟨-, hshort⟩ := reads_spellings e "20240"
  have hbounds := (hshort (by decide) (by decide)).2.2.1 he
  omega

/-- A month and a day without their zeros: six digits are read. -/
theorem short_text_read :
    let d : Date := ⟨2024, 1, 2, by decide, by decide, by decide⟩
    ('-' ∉ "202412".toList ∧ '/' ∉ "202412".toList) ∧ "202412".toList.length = 6 ∧
      read (.text "202412") = .ok d := by
  exact ⟨by decide, by decide, rfl⟩

end Date
end Backtesting
