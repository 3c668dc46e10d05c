import Backtesting.Calendar.Text
import Backtesting.Document.Schema
import Backtesting.Proofs.Text.Digit
import Mathlib.Data.List.Basic

/-!
Dates written and read back. A written date is ten characters of fixed meaning, so the strict
reading and the lenient one both find the parts that were written. With slashes or with nothing
between them the parts are found by the lenient one too.
-/
namespace Backtesting

theorem Date.ofParts?_self (d : Date) : Date.ofParts? d.year d.month d.day = some d := by
  rw [Date.ofParts?, dif_pos ⟨d.year_bounds, d.month_bounds, d.day_bounds⟩]

namespace Date

theorem toList_toText (d : Date) :
    d.toText.toList = (Text.padded 4 d.year).toList ++ '-' :: ((Text.padded 2 d.month).toList ++
      '-' :: (Text.padded 2 d.day).toList) := by
  simp [toText]

theorem day_le (d : Date) : d.day ≤ 31 :=
  Nat.le_trans d.day_bounds.2 (daysInMonth_le d.year d.month)

theorem length_padded_year (d : Date) : (Text.padded 4 d.year).toList.length = 4 :=
  Text.length_padded (by decide) (by have := d.year_bounds; omega)

theorem length_padded_month (d : Date) : (Text.padded 2 d.month).toList.length = 2 :=
  Text.length_padded (by decide) (by have := d.month_bounds; omega)

theorem length_padded_day (d : Date) : (Text.padded 2 d.day).toList.length = 2 :=
  Text.length_padded (by decide) (by have := d.day_le; omega)

theorem isoDate?_toText (d : Date) : Schema.isoDate? d.toText.toList = some d := by
  have hyear := Text.nat?_padded 4 d.year
  have hmonth := Text.nat?_padded 2 d.month
  have hday := Text.nat?_padded 2 d.day
  obtain ⟨y₁, y₂, y₃, y₄, hy⟩ := List.length_eq_four.mp (length_padded_year d)
  obtain ⟨m₁, m₂, hm⟩ := List.length_eq_two.mp (length_padded_month d)
  obtain ⟨d₁, d₂, hd⟩ := List.length_eq_two.mp (length_padded_day d)
  rw [toList_toText, hy, hm, hd]
  rw [hy] at hyear
  rw [hm] at hmonth
  rw [hd] at hday
  simp [Schema.isoDate?, Schema.digits?, hyear, hmonth, hday, ofParts?_self]

/-- The strict reading of a written date. -/
theorem dateText?_toText (d : Date) : Schema.dateText? d.toText = some d := by
  have hlength : d.toText.toList.length = 10 := by
    rw [toList_toText]
    simp [length_padded_year, length_padded_month, length_padded_day]
  have hdrop : d.toText.toList.drop 10 = [] := List.drop_eq_nil_of_le (by omega)
  simp only [Schema.dateText?, hdrop, isoDate?_toText]

theorem toText_injective {d e : Date} (h : d.toText = e.toText) : d = e := by
  have hd := dateText?_toText d
  rw [h, dateText?_toText e] at hd
  exact (Option.some.inj hd).symm

/-- The number written by some digits of any script. -/
def number? (cs : List Char) : Option Nat :=
  (cs.mapM Text.digitValue?).map Text.natOfDigits

theorem number?_eq_nat? {cs : List Char} (hne : cs ≠ []) (h : ∀ c ∈ cs, c.isDigit = true) :
    number? cs = Text.nat? cs := by
  have hvalues : cs.mapM Text.digitValue? = some (cs.map fun c => c.toNat - '0'.toNat) := by
    clear hne
    induction cs with
    | nil => rfl
    | cons c cs ih =>
      have hrest := ih fun e he => h e (List.mem_cons_of_mem _ he)
      simp [List.mapM_cons, Text.digitValue?_of_isDigit (h c List.mem_cons_self), hrest]
  have hall : cs.all Char.isDigit = true := List.all_eq_true.mpr h
  simp [number?, hvalues, Text.nat?, hall, hne]

/-- A year is read off four digits of any script. -/
theorem yearReading?_eq_some {cs rest : List Char} {year : Nat} :
    yearReading? cs = some (year, rest) ↔
      ∃ ds, cs = ds ++ rest ∧ ds.length = 4 ∧ number? ds = some year := by
  constructor
  · intro h
    rcases cs with _ | ⟨a, _ | ⟨b, _ | ⟨c, _ | ⟨d, cs⟩⟩⟩⟩
    case cons.cons.cons.cons =>
      simp only [yearReading?, Option.bind_eq_bind, Option.bind_eq_some_iff, Option.some.injEq,
        Prod.mk.injEq] at h
      obtain ⟨i, hi, j, hj, k, hk, l, hl, hyear, rfl⟩ := h
      refine ⟨[a, b, c, d], rfl, rfl, ?_⟩
      simp [number?, hi, hj, hk, hl, Text.natOfDigits]
      omega
    all_goals simp [yearReading?] at h
  · rintro ⟨ds, rfl, hlength, hyear⟩
    obtain ⟨a, b, c, d, rfl⟩ := List.length_eq_four.mp hlength
    simp only [number?, List.mapM_cons, List.mapM_nil, Option.bind_eq_bind, Option.pure_def,
      Option.map_eq_some_iff, Option.bind_eq_some_iff, Option.some.injEq] at hyear
    obtain ⟨-, ⟨i, hi, -, ⟨j, hj, -, ⟨k, hk, -, ⟨l, hl, -, rfl, rfl⟩, rfl⟩, rfl⟩, rfl⟩, hyear⟩ := hyear
    simp [yearReading?, hi, hj, hk, hl, ← hyear, Text.natOfDigits]
    omega

theorem yearReading?_padded (d : Date) (cs : List Char) :
    yearReading? ((Text.padded 4 d.year).toList ++ cs) = some (d.year, cs) := by
  have hne : (Text.padded 4 d.year).toList ≠ [] :=
    List.ne_nil_of_length_pos (by rw [length_padded_year]; decide)
  have hnumber : number? (Text.padded 4 d.year).toList = some d.year := by
    rw [number?_eq_nat? hne fun _ => Text.isDigit_of_mem_padded, Text.nat?_padded]
  exact yearReading?_eq_some.mpr ⟨_, rfl, length_padded_year d, hnumber⟩

/-- The month that was written is the one that is tried first. -/
theorem monthReadings_padded {m : Nat} (h : 1 ≤ m ∧ m ≤ 12) (cs : List Char) :
    ∃ others, monthReadings ((Text.padded 2 m).toList ++ cs) = (m, cs) :: others := by
  rw [Text.toList_padded]
  obtain ⟨hlow, hhigh⟩ := h
  have hm : m = 1 ∨ m = 2 ∨ m = 3 ∨ m = 4 ∨ m = 5 ∨ m = 6 ∨ m = 7 ∨ m = 8 ∨ m = 9 ∨ m = 10 ∨
      m = 11 ∨ m = 12 := by omega
  rcases hm with rfl | rfl | rfl | rfl | rfl | rfl | rfl | rfl | rfl | rfl | rfl | rfl <;>
    exact ⟨_, rfl⟩

theorem dayReading?_append {a b : Char} {n : Nat} (h : dayReading? [a, b] = some (n, []))
    (cs : List Char) : dayReading? (a :: b :: cs) = some (n, cs) := by
  simp only [dayReading?] at h ⊢
  split at h
  · next h30 => simp_all
  · next h30 =>
    rw [if_neg h30]
    split at h
    · next m hm => simp_all
    · next hm =>
      split at h
      · next hzero => simp_all
      · next hzero =>
        rw [if_neg hzero]
        split at h <;> simp_all

theorem dayReading?_padded {d : Nat} (h : 1 ≤ d ∧ d ≤ 31) (cs : List Char) :
    dayReading? ((Text.padded 2 d).toList ++ cs) = some (d, cs) := by
  have hall : ∀ k : Fin 32, 1 ≤ k.val → dayReading? (List.replicate
      (2 - (Nat.toDigits 10 k.val).length) '0' ++ Nat.toDigits 10 k.val) = some (k.val, []) := by
    decide
  have hread := hall ⟨d, by omega⟩ h.1
  obtain ⟨a, b, hd⟩ := List.length_eq_two.mp
    (Text.length_padded (by decide) (by omega : d < 10 ^ 2))
  rw [← Text.toList_padded, hd] at hread
  rw [hd]
  exact dayReading?_append hread cs

/-- Year, month and day in four, two and two digits, with a separator between them or none. -/
def spelled (separator : Option Char) (d : Date) : List Char :=
  (Text.padded 4 d.year).toList ++ (separator.toList ++ ((Text.padded 2 d.month).toList ++
    (separator.toList ++ (Text.padded 2 d.day).toList)))

theorem spelled_hyphen (d : Date) : d.spelled (some '-') = d.toText.toList := (toList_toText d).symm

theorem isDigit_or_mem_of_mem_spelled {separator : Option Char} {d : Date} {c : Char}
    (h : c ∈ d.spelled separator) : c.isDigit = true ∨ separator = some c := by
  simp only [spelled, List.mem_append, Option.mem_toList] at h
  rcases h with h | h | h | h | h
  · exact .inl (Text.isDigit_of_mem_padded h)
  · exact .inr h
  · exact .inl (Text.isDigit_of_mem_padded h)
  · exact .inr h
  · exact .inl (Text.isDigit_of_mem_padded h)

theorem isBlank_of_mem_spelled {separator : Option Char} {d : Date} {c : Char}
    (hseparator : separator ∈ [some '-', some '/', none]) (h : c ∈ d.spelled separator) :
    Text.isBlank c = false := by
  rcases isDigit_or_mem_of_mem_spelled h with hdigit | rfl
  · exact Text.isBlank_of_isDigit hdigit
  · obtain rfl | rfl : c = '-' ∨ c = '/' := by simpa using hseparator
    · decide
    · decide

theorem length_spelled_le (separator : Option Char) (d : Date) :
    (d.spelled separator).length ≤ 10 := by
  have hseparator : separator.toList.length ≤ 1 := by cases separator <;> simp
  simp only [spelled, List.length_append, length_padded_year, length_padded_month,
    length_padded_day]
  omega

theorem separated?_append (separator : Option Char) (cs : List Char) :
    separated? separator (separator.toList ++ cs) = some cs := by
  cases separator <;> simp [separated?]

theorem readings?_spelled (separator : Option Char) (d : Date) :
    readings? separator (d.spelled separator) = some ((d.year, d.month, d.day), []) := by
  obtain ⟨others, hmonth⟩ :=
    monthReadings_padded d.month_bounds (separator.toList ++ (Text.padded 2 d.day).toList)
  have hday : dayReading? (Text.padded 2 d.day).toList = some (d.day, []) := by
    simpa using dayReading?_padded ⟨d.day_bounds.1, d.day_le⟩ []
  simp [readings?, spelled, yearReading?_padded, separated?_append, hmonth, hday]

theorem ofFormat?_spelled (separator : Option Char) (d : Date) :
    ofFormat? separator (d.spelled separator) = some d := by
  simp [ofFormat?, readings?_spelled, ofParts?_self]

/-- A separator that is not in the text ends every reading after the year. -/
theorem ofFormat?_of_not_mem {separator : Char} {cs : List Char} (h : separator ∉ cs) :
    ofFormat? (some separator) cs = none := by
  have hreadings : readings? (some separator) cs = none := by
    cases hyear : yearReading? cs with
    | none => simp [readings?, hyear]
    | some reading =>
      obtain ⟨year, rest⟩ := reading
      obtain ⟨ds, rfl, -⟩ := yearReading?_eq_some.mp hyear
      have hrest : separated? (some separator) rest = none := by
        cases rest with
        | nil => rfl
        | cons c rest =>
          refine if_neg ?_
          rintro rfl
          exact h (by simp)
      simp [readings?, hyear, hrest]
  simp [ofFormat?, hreadings]

/-- The lenient reading of a spelled date, whatever blanks stand around it. -/
theorem ofText?_spelled {separator : Option Char} {s : String} {d : Date}
    (hseparator : separator ∈ [some '-', some '/', none])
    (h : Text.trimList s.toList = d.spelled separator) : ofText? s = some d := by
  have hother {c : Char} (hc : c.isDigit = false) (hne : separator ≠ some c) :
      ofFormat? (some c) (d.spelled separator) = none := by
    refine ofFormat?_of_not_mem fun hmem => ?_
    rcases isDigit_or_mem_of_mem_spelled hmem with hdigit | heq
    · simp [hdigit] at hc
    · exact hne heq
  simp only [ofText?, h, List.take_of_length_le (length_spelled_le separator d), ite_self]
  have hself := ofFormat?_spelled separator d
  simp only [List.mem_cons, List.not_mem_nil, or_false] at hseparator
  rcases hseparator with rfl | rfl | rfl
  · rw [hself, Option.orElse_some]
  · rw [hother (by decide) (by decide), hself, Option.orElse_none, Option.orElse_some]
  · rw [hother (by decide) (by decide), hother (by decide) (by decide), hself, Option.orElse_none,
      Option.orElse_none]

/-- The lenient reading of a written date. -/
theorem ofText?_toText (d : Date) : ofText? d.toText = some d := by
  have htrim : Text.trimList d.toText.toList = d.spelled (some '-') := by
    rw [← spelled_hyphen, Text.trimList_of_forall fun _ => isBlank_of_mem_spelled (by simp)]
  exact ofText?_spelled (by simp) htrim

theorem read_text_toText (d : Date) : read (.text d.toText) = .ok d := by
  simp [read, Document.plainText, ofText?_toText]

end Date
end Backtesting
