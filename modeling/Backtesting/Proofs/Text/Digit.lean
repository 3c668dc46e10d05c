import Backtesting.Text.Blank
import Backtesting.Text.Digit
import Mathlib.Algebra.Group.Nat.Defs
import Mathlib.Data.List.TakeWhile
import Mathlib.Data.Nat.Digits.Defs

/-!
Numbers written in digits and read back. Reading forgets the zeros in front and nothing else, so a
padded number of a known width is as good as the number.
-/
namespace Backtesting.Text

theorem isDigit_iff {c : Char} : c.isDigit = true ↔ 48 ≤ c.toNat ∧ c.toNat ≤ 57 := by
  simp only [Char.isDigit, Bool.and_eq_true, decide_eq_true_eq]
  exact Iff.rfl

theorem char_le_iff (a b : Char) : a ≤ b ↔ a.toNat ≤ b.toNat := Iff.rfl

theorem nat?_eq_some_iff {cs : List Char} {n : Nat} : nat? cs = some n ↔
    (cs ≠ [] ∧ ∀ c ∈ cs, c.isDigit = true) ∧ natOfDigits (cs.map fun c => c.toNat - '0'.toNat) = n := by
  by_cases h : cs = [] <;> by_cases hall : ∀ c ∈ cs, c.isDigit = true <;> simp_all [nat?]

theorem nat?_eq {cs : List Char} (hne : cs ≠ []) (hcs : ∀ c ∈ cs, c.isDigit = true) :
    nat? cs = some (Nat.ofDigitChars 10 cs 0) := by
  refine nat?_eq_some_iff.mpr ⟨⟨hne, hcs⟩, ?_⟩
  rw [natOfDigits, List.foldl_map]
  rfl

theorem isDigit_of_mem_toDigits {n : Nat} {c : Char} (h : c ∈ Nat.toDigits 10 n) :
    c.isDigit = true := Nat.isDigit_of_mem_toDigits (by decide) (by decide) h

theorem isDigit_zero_of_mem {k : Nat} {c : Char} (h : c ∈ List.replicate k '0') :
    c.isDigit = true := by
  rw [List.eq_of_mem_replicate h]
  decide

theorem nat?_toDigits (n : Nat) : nat? (Nat.toDigits 10 n) = some n := by
  rw [nat?_eq Nat.toDigits_ne_nil fun _ => isDigit_of_mem_toDigits, Nat.ofDigitChars_ten_toDigits]

/-- Zeros in front do not count. -/
theorem nat?_zeros_append (k n : Nat) :
    nat? (List.replicate k '0' ++ Nat.toDigits 10 n) = some n := by
  rw [nat?_eq (by simp)]
  · simp [Nat.ofDigitChars_append]
  · intro c hc
    rcases List.mem_append.mp hc with hc | hc
    · exact isDigit_zero_of_mem hc
    · exact isDigit_of_mem_toDigits hc

theorem toList_padded (width n : Nat) :
    (padded width n).toList =
      List.replicate (width - (Nat.toDigits 10 n).length) '0' ++ Nat.toDigits 10 n := by
  simp [padded]

theorem nat?_padded (width n : Nat) : nat? (padded width n).toList = some n := by
  rw [toList_padded, nat?_zeros_append]

theorem length_padded {width n : Nat} (hwidth : 0 < width) (h : n < 10 ^ width) :
    (padded width n).toList.length = width := by
  have hle : (Nat.toDigits 10 n).length ≤ width :=
    (Nat.length_toDigits_le_iff (by decide) hwidth).mpr h
  rw [toList_padded, List.length_append, List.length_replicate]
  omega

theorem isDigit_of_mem_padded {width n : Nat} {c : Char} (h : c ∈ (padded width n).toList) :
    c.isDigit = true := by
  rw [toList_padded] at h
  rcases List.mem_append.mp h with h | h
  · exact isDigit_zero_of_mem h
  · exact isDigit_of_mem_toDigits h

theorem natOfDigits_eq (ds : List Nat) : natOfDigits ds = Nat.ofDigits 10 ds.reverse := by
  simp [natOfDigits, Nat.ofDigits_eq_foldr, Nat.add_comm]

/-- As many digits of the same number are the same digits. -/
theorem eq_of_nat?_eq_some {cs ds : List Char} {n : Nat} (hlength : cs.length = ds.length)
    (hcs : nat? cs = some n) (hds : nat? ds = some n) : cs = ds := by
  obtain ⟨⟨-, hcs⟩, hn⟩ := nat?_eq_some_iff.mp hcs
  obtain ⟨⟨-, hds⟩, hn'⟩ := nat?_eq_some_iff.mp hds
  have hsmall {es : List Char} (h : ∀ c ∈ es, c.isDigit = true) :
      ∀ k ∈ (es.map fun c => c.toNat - '0'.toNat).reverse, k < 10 := by
    intro k hk
    obtain ⟨c, hc, rfl⟩ := List.mem_map.mp (List.mem_reverse.mp hk)
    have hdigit := isDigit_iff.mp (h c hc)
    simp only [Char.reduceToNat]
    omega
  rw [← hn', natOfDigits_eq, natOfDigits_eq] at hn
  have hvalues := List.reverse_inj.mp
    (Nat.ofDigits_inj_of_len_eq (by decide) (by simpa using hlength) (hsmall hcs) (hsmall hds) hn)
  refine List.ext_getElem hlength fun i hi hi' => ?_
  have hi'' := congrArg (·[i]?) hvalues
  have hlow := isDigit_iff.mp (hcs cs[i] (List.getElem_mem hi))
  have hlow' := isDigit_iff.mp (hds ds[i] (List.getElem_mem hi'))
  simp only [List.getElem?_map, List.getElem?_eq_getElem hi, List.getElem?_eq_getElem hi',
    Option.map_some, Option.some.injEq, Char.reduceToNat] at hi''
  exact Char.toNat_inj.mp (by omega)

theorem nat?_singleton {a : Char} {n : Nat} :
    nat? [a] = some n ↔ a.isDigit = true ∧ a.toNat - 48 = n := by
  simp [nat?_eq_some_iff, natOfDigits]

theorem nat?_pair {a b : Char} {n : Nat} :
    nat? [a, b] = some n ↔ (a.isDigit = true ∧ b.isDigit = true) ∧
      10 * (a.toNat - 48) + (b.toNat - 48) = n := by
  simp [nat?_eq_some_iff, natOfDigits]

theorem lt_128_of_isDigit {c : Char} (h : c.isDigit = true) : c.toNat < 128 := by
  have hdigit := isDigit_iff.mp h
  omega

theorem digitValue?_of_isDigit {c : Char} (h : c.isDigit = true) :
    digitValue? c = some (c.toNat - '0'.toNat) := by
  rw [digitValue?, if_pos (lt_128_of_isDigit h), if_pos h]

theorem digitValue?_lt {c : Char} {k : Nat} (h : digitValue? c = some k) : k < 10 := by
  unfold digitValue? at h
  split at h
  · split at h
    · next hdigit =>
      obtain ⟨hlow, hhigh⟩ := isDigit_iff.mp hdigit
      simp only [Char.reduceToNat, Option.some.injEq] at h
      omega
    · cases h
  · obtain ⟨z, hz, rfl⟩ := Option.map_eq_some_iff.mp h
    have hnear := List.find?_some hz
    simp only [Bool.and_eq_true, decide_eq_true_eq] at hnear
    omega

theorem mem_of_mem_trimList {c : Char} {cs : List Char} (h : c ∈ trimList cs) : c ∈ cs := by
  have hfront := (List.dropWhile_sublist isBlank).subset (List.mem_reverse.mp h)
  exact (List.dropWhile_sublist isBlank).subset (List.mem_reverse.mp hfront)

theorem dropWhile_blanks {blanks cs : List Char} (hblanks : ∀ c ∈ blanks, isBlank c = true)
    (h : ∀ c ∈ cs.head?, isBlank c = false) : (blanks ++ cs).dropWhile isBlank = cs := by
  rw [List.dropWhile_append_of_pos hblanks]
  cases cs with
  | nil => rfl
  | cons c cs => rw [List.dropWhile_cons_of_neg (by simp [h c rfl])]

/-- The blanks around a text that has none are taken off. -/
theorem trimList_surrounded {before after cs : List Char}
    (hbefore : ∀ c ∈ before, isBlank c = true) (hafter : ∀ c ∈ after, isBlank c = true)
    (h : ∀ c ∈ cs, isBlank c = false) : trimList (before ++ cs ++ after) = cs := by
  cases cs with
  | nil =>
    have hall : (before ++ [] ++ after).dropWhile isBlank = [] := by
      rw [List.append_nil]
      exact List.dropWhile_eq_nil_iff.mpr (List.forall_mem_append.mpr ⟨hbefore, hafter⟩)
    rw [trimList, hall]
    rfl
  | cons c cs =>
    have hfront : (before ++ (c :: cs ++ after)).dropWhile isBlank = c :: cs ++ after :=
      dropWhile_blanks hbefore (by simpa using h c List.mem_cons_self)
    have hback : (after.reverse ++ (c :: cs).reverse).dropWhile isBlank = (c :: cs).reverse :=
      dropWhile_blanks (fun d hd => hafter d (List.mem_reverse.mp hd))
        fun d hd => h d (List.mem_reverse.mp (List.mem_of_mem_head? hd))
    rw [trimList, List.append_assoc, hfront, List.reverse_append, hback, List.reverse_reverse]

/-- A text without blanks is as it is. -/
theorem trimList_of_forall {cs : List Char} (h : ∀ c ∈ cs, isBlank c = false) :
    trimList cs = cs := by
  simpa using trimList_surrounded (List.forall_mem_nil _) (List.forall_mem_nil _) h

theorem isBlank_of_isDigit {c : Char} (h : c.isDigit = true) : isBlank c = false := by
  have hdigit := isDigit_iff.mp h
  simp only [isBlank, if_pos (lt_128_of_isDigit h), Bool.or_eq_false_iff, Bool.and_eq_false_iff,
    decide_eq_false_iff_not, beq_eq_false_iff_ne]
  omega

end Backtesting.Text
