import Backtesting.Document.Json
import Backtesting.Proofs.Decimal.Text

/-!
The tokens of a JSON text. A quoted text ends at its own quote, since every quote inside it is
escaped, and a whole number ends before the first character that no number has. Blanks in front of a
token do not count.
-/
namespace Backtesting.Document.Json

/-- Blanks as the layouts use them. -/
def IsGap (gap : List Char) : Prop := ∀ c ∈ gap, c = ' ' ∨ c = '\n'

theorem isGap_nil : IsGap [] := by
  intro c hc
  simp at hc

theorem skipBlanks_gap {gap : List Char} (h : IsGap gap) (cs : List Char) :
    skipBlanks (gap ++ cs) = skipBlanks cs := by
  induction gap with
  | nil => rfl
  | cons c gap ih =>
    have hc : c = ' ' ∨ c = '\n' := h c (by simp)
    have hblank : c = ' ' ∨ c = '\n' ∨ c = '\r' ∨ c = '\t' := by
      rcases hc with hc | hc
      · exact Or.inl hc
      · exact Or.inr (Or.inl hc)
    rw [List.cons_append, skipBlanks, if_pos hblank]
    exact ih fun d hd => h d (by simp [hd])

theorem hex4?_append {n : Nat} {cs : List Char} (h : hex4? cs = some (n, [])) (rest : List Char) :
    hex4? (cs ++ rest) = some (n, rest) := by
  unfold hex4? at h
  split at h
  · next a b c d cs =>
    simp only [Option.bind_eq_bind, Option.bind_eq_some_iff, Option.some.injEq,
      Prod.mk.injEq] at h
    obtain ⟨i, hi, j, hj, k, hk, l, hl, hn, rfl⟩ := h
    simp [hex4?, hi, hj, hk, hl, hn]
  · exact absurd h (by simp)

/-- A character below the blank is written by its code unit and read back from it. -/
theorem unicodeEscape?_control {c : Char} (h : c.toNat < 0x20) (rest : List Char) :
    unicodeEscape? (Text.hexDigits 4 c.toNat ++ rest) = some (c, rest) := by
  have hall : ∀ n : Fin 32, hex4? (Text.hexDigits 4 n.val) = some (n.val, []) := by decide
  have hhex := hex4?_append (hall ⟨c.toNat, h⟩) rest
  have hlow : ¬(0xd800 ≤ c.toNat ∧ c.toNat < 0xdc00) := by omega
  simp [unicodeEscape?, hhex, hlow]

theorem string?_writtenChar (fuel : Nat) (acc : List Char) (c : Char) (cs : List Char) :
    string? (fuel + 1) acc (writtenChar false c ++ cs) = string? fuel (c :: acc) cs := by
  unfold writtenChar
  split
  · subst_vars
    simp [string?, escaped?]
  split
  · subst_vars
    simp [string?, escaped?]
  split
  · subst_vars
    simp [string?, escaped?]
  split
  · subst_vars
    simp [string?, escaped?]
  split
  · subst_vars
    simp [string?, escaped?]
  split
  · subst_vars
    simp [string?, escaped?]
  split
  · subst_vars
    simp [string?, escaped?]
  split
  · next h => simp [unitText, string?, unicodeEscape?_control h]
  · next hquote hback _ _ _ _ _ _ => simp [string?, hback]

theorem string?_writtenChars (cs acc rest : List Char) {fuel : Nat} (h : cs.length < fuel) :
    string? fuel acc (cs.flatMap (writtenChar false) ++ '"' :: rest) =
      some (String.ofList (acc.reverse ++ cs), rest) := by
  induction cs generalizing acc fuel with
  | nil =>
    obtain ⟨fuel, rfl⟩ : ∃ k, fuel = k + 1 := ⟨fuel - 1, by simp at h; omega⟩
    simp [string?]
  | cons c cs ih =>
    simp only [List.length_cons] at h
    obtain ⟨fuel, rfl⟩ : ∃ k, fuel = k + 1 := ⟨fuel - 1, by omega⟩
    rw [List.flatMap_cons, List.append_assoc, string?_writtenChar, ih (c :: acc) (by omega)]
    simp

theorem length_le_writtenChars (asciiOnly : Bool) (cs : List Char) :
    cs.length ≤ (cs.flatMap (writtenChar asciiOnly)).length := by
  induction cs with
  | nil => simp
  | cons c cs ih =>
    have hpos : 0 < (writtenChar asciiOnly c).length := by
      unfold writtenChar unitText
      grind
    rw [List.flatMap_cons, List.length_append, List.length_cons]
    omega

theorem toList_writtenText (asciiOnly : Bool) (s : String) :
    (writtenText asciiOnly s).toList =
      '"' :: (s.toList.flatMap (writtenChar asciiOnly) ++ ['"']) := by
  simp [writtenText]

/-- What follows the first quote of a written text is read as the text. -/
theorem string?_writtenText (s : String) (rest : List Char) :
    let cs := s.toList.flatMap (writtenChar false) ++ '"' :: rest
    string? (cs.length + 1) [] cs = some (s, rest) := by
  have hfuel : s.toList.length <
      (s.toList.flatMap (writtenChar false) ++ '"' :: rest).length + 1 := by
    have hle := length_le_writtenChars false s.toList
    rw [List.length_append]
    omega
  have hread := string?_writtenChars s.toList [] rest hfuel
  rwa [List.reverse_nil, List.nil_append, String.ofList_toList] at hread

/-- A text that cannot continue a number. -/
def EndsNumber (rest : List Char) : Prop := ∀ c cs, rest = c :: cs → isNumberChar c = false

theorem endsNumber_cons {c : Char} (h : isNumberChar c = false) (cs : List Char) :
    EndsNumber (c :: cs) := by
  intro d ds hcons
  obtain ⟨rfl, -⟩ := List.cons.inj hcons
  exact h

theorem endsNumber_gap {gap : List Char} (h : IsGap gap) {rest : List Char}
    (hrest : EndsNumber rest) : EndsNumber (gap ++ rest) := by
  cases gap with
  | nil => exact hrest
  | cons c gap =>
    have hc : c = ' ' ∨ c = '\n' := h c (by simp)
    refine endsNumber_cons ?_ (gap ++ rest)
    rcases hc with rfl | rfl <;> decide

theorem takeWhile_number {cs rest : List Char} (h : ∀ c ∈ cs, isNumberChar c = true)
    (hrest : EndsNumber rest) : (cs ++ rest).takeWhile isNumberChar = cs := by
  rw [List.takeWhile_append_of_pos h]
  cases rest with
  | nil => simp
  | cons c rest => simp [hrest c rest rfl]

theorem dropWhile_number {cs rest : List Char} (h : ∀ c ∈ cs, isNumberChar c = true)
    (hrest : EndsNumber rest) : (cs ++ rest).dropWhile isNumberChar = rest := by
  rw [List.dropWhile_append_of_pos h]
  cases rest with
  | nil => rfl
  | cons c rest => simp [hrest c rest rfl]

def integerChars (i : Int) : List Char :=
  (if i < 0 then ['-'] else []) ++ Nat.toDigits 10 i.natAbs

theorem toList_toString_int (i : Int) : (toString i).toList = integerChars i := by
  rw [Int.toString_eq_repr, Int.repr_eq_if, integerChars]
  by_cases hi : 0 ≤ i
  · have hneg : ¬i < 0 := by omega
    have hnat : i.toNat = i.natAbs := by omega
    simp [hi, hneg, hnat]
  · have hneg : i < 0 := by omega
    have hnat : (-i).toNat = i.natAbs := by omega
    simp [hi, hneg, hnat]

theorem isDigit_or_minus_of_mem {i : Int} {c : Char} (h : c ∈ integerChars i) :
    c.isDigit = true ∨ c = '-' := by
  rcases List.mem_append.mp h with h | h
  · split at h
    · exact Or.inr (by simpa using h)
    · simp at h
  · exact Or.inl (Text.isDigit_of_mem_toDigits h)

theorem isNumberChar_of_mem {i : Int} {c : Char} (h : c ∈ integerChars i) :
    isNumberChar c = true := by
  rcases isDigit_or_minus_of_mem h with h | rfl
  · simp [isNumberChar, h]
  · decide

theorem starts_integerChars (i : Int) :
    ∃ c cs, integerChars i = c :: cs ∧ (c.isDigit = true ∨ c = '-') := by
  have hne : integerChars i ≠ [] := by simp [integerChars, Nat.toDigits_ne_nil]
  obtain ⟨c, cs, hcons⟩ := List.exists_cons_of_ne_nil hne
  exact ⟨c, cs, hcons, isDigit_or_minus_of_mem (by rw [hcons]; simp)⟩

theorem signedInt?_integerChars (i : Int) : Binary64.signedInt? (integerChars i) = some i := by
  have hread := Text.nat?_toDigits i.natAbs
  by_cases hi : i < 0
  · simp only [integerChars, if_pos hi, List.singleton_append, Binary64.signedInt?, hread,
      Option.bind_eq_bind, Option.bind_some, Option.pure_def, Option.map_some, Option.some.injEq]
    omega
  · obtain ⟨c, cs, hcons, hc⟩ := starts_integerChars i
    have hdigit : c.isDigit = true := by
      apply Text.isDigit_of_mem_toDigits
      simpa [integerChars, hi] using (hcons ▸ List.mem_cons_self : c ∈ integerChars i)
    have hminus : c ≠ '-' := by
      rintro rfl
      revert hdigit
      decide
    have hplus : c ≠ '+' := by
      rintro rfl
      revert hdigit
      decide
    have hdigits : Text.nat? (c :: cs) = some i.natAbs := by
      rw [← hcons]
      simpa [integerChars, hi] using hread
    rw [hcons]
    simp [Binary64.signedInt?, hminus, hplus, hdigits]
    omega

theorem number?_integerChars (i : Int) : number? (integerChars i) = some (.integer i) := by
  have hwhole : (integerChars i).any (fun c => c == '.' || c == 'e' || c == 'E') = false := by
    rw [List.any_eq_false]
    intro c hc
    rcases isDigit_or_minus_of_mem hc with h | rfl
    · have hdigit := Text.isDigit_iff.mp h
      have hne : ∀ d : Char, d.isDigit = false → c ≠ d := by
        rintro d hd rfl
        rw [h] at hd
        exact Bool.noConfusion hd
      simp [hne '.' (by decide), hne 'e' (by decide), hne 'E' (by decide)]
    · decide
  rw [number?, hwhole]
  simp [signedInt?_integerChars]

end Backtesting.Document.Json
