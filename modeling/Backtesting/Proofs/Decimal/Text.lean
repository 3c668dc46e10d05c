import Backtesting.Decimal.Text
import Backtesting.Proofs.Text.Digit
import Mathlib.Data.List.TakeWhile

/-!
Decimals written and read back. A written number is a mantissa of digits and at most one point, with
an exponent after it unless the notation is plain; the places after the point and the exponent make
up for each other, so nothing is lost, not even a trailing zero or the sign of a zero.
-/
namespace Backtesting

namespace Text

theorem toLower_of_isDigit {c : Char} (h : c.isDigit = true) : c.toLower = c := by
  have hdigit := isDigit_iff.mp h
  unfold Char.toLower
  split
  · next hupper =>
    have hge : 65 ≤ c.toNat := hupper.1
    omega
  · rfl

end Text

namespace Decimal

/-- Finite, and within the places that a written number may use. -/
def IsWritable : Decimal → Prop
  | finite _ c e =>
      (if c = 0 then e else e + digitCount c - 1) ≤ writtenLimit ∧ -(2 * writtenLimit - 1) ≤ e
  | _ => False

instance : DecidablePred IsWritable
  | finite _ _ _ => inferInstanceAs (Decidable (_ ∧ _))
  | infinity _ => inferInstanceAs (Decidable False)
  | nan _ _ _ => inferInstanceAs (Decidable False)

theorem IsWritable.isFinite {x : Decimal} (h : x.IsWritable) : x.IsFinite := by
  cases x with
  | finite n c e => trivial
  | infinity n => exact h
  | nan n s p => exact h

/-- A text of digits with at most one point, as it is read. -/
private structure IsMantissa (cs : List Char) (c places : Nat) : Prop where
  starts : ∃ d ds, cs = d :: ds ∧ d.isDigit = true
  chars : ∀ ch ∈ cs, ch.isDigit = true ∨ ch = '.'
  reads : coefficient? cs = some (c, places)

private theorem ne_point_of_isDigit {c : Char} (h : c.isDigit = true) : (c != '.') = true := by
  have hdigit := Text.isDigit_iff.mp h
  rw [bne_iff_ne]
  rintro rfl
  revert hdigit
  decide

private theorem takeWhile_append_point {cs : List Char} (h : ∀ c ∈ cs, c.isDigit = true)
    (ds : List Char) : (cs ++ '.' :: ds).takeWhile (· != '.') = cs := by
  rw [List.takeWhile_append_of_pos fun c hc => ne_point_of_isDigit (h c hc)]
  simp

private theorem dropWhile_append_point {cs : List Char} (h : ∀ c ∈ cs, c.isDigit = true)
    (ds : List Char) : (cs ++ '.' :: ds).dropWhile (· != '.') = '.' :: ds := by
  rw [List.dropWhile_append_of_pos fun c hc => ne_point_of_isDigit (h c hc)]
  simp

private theorem coefficient?_digits {cs : List Char} (h : ∀ c ∈ cs, c.isDigit = true) {n : Nat}
    (hn : Text.nat? cs = some n) : coefficient? cs = some (n, 0) := by
  have hne : ∀ c ∈ cs, (c != '.') = true := fun c hc => ne_point_of_isDigit (h c hc)
  have htake : cs.takeWhile (· != '.') = cs := List.takeWhile_eq_self_iff.mpr hne
  have hdrop : cs.dropWhile (· != '.') = [] := List.dropWhile_eq_nil_iff.mpr hne
  simp [coefficient?, htake, hdrop, hn]

private theorem coefficient?_point {whole : List Char} (h : ∀ c ∈ whole, c.isDigit = true)
    (fraction : List Char) {n : Nat} (hn : Text.nat? (whole ++ fraction) = some n) :
    coefficient? (whole ++ '.' :: fraction) = some (n, fraction.length) := by
  simp [coefficient?, takeWhile_append_point h, dropWhile_append_point h, hn]

private theorem isMantissa_point (whole fraction : List Char) (hne : whole ≠ [])
    (hwhole : ∀ c ∈ whole, c.isDigit = true) (hfraction : ∀ c ∈ fraction, c.isDigit = true)
    {n : Nat} (hn : Text.nat? (whole ++ fraction) = some n) :
    IsMantissa (whole ++ '.' :: fraction) n fraction.length := by
  refine ⟨?_, ?_, coefficient?_point hwhole fraction hn⟩
  · obtain ⟨d, ds, rfl⟩ := List.exists_cons_of_ne_nil hne
    exact ⟨d, ds ++ '.' :: fraction, rfl, hwhole d (by simp)⟩
  · intro ch hch
    simp only [List.mem_append, List.mem_cons] at hch
    rcases hch with hch | rfl | hch
    · exact Or.inl (hwhole ch hch)
    · exact Or.inr rfl
    · exact Or.inl (hfraction ch hch)

private theorem isMantissa_digits (n : Nat) : IsMantissa (digitChars n) n 0 := by
  have hdigits : ∀ c ∈ digitChars n, c.isDigit = true := fun _ => Text.isDigit_of_mem_toDigits
  refine ⟨?_, fun ch hch => Or.inl (hdigits ch hch),
    coefficient?_digits hdigits (Text.nat?_toDigits n)⟩
  have hne : digitChars n ≠ [] := Nat.toDigits_ne_nil
  obtain ⟨d, ds, hcons⟩ := List.exists_cons_of_ne_nil hne
  exact ⟨d, ds, hcons, hdigits d (by simp [hcons])⟩

/-- What is written of a number is a mantissa alone or a mantissa and its exponent. -/
private theorem finiteText_eq (c : Nat) (e : Int) :
    ∃ mantissa places, IsMantissa mantissa c places ∧
      (finiteText c e = mantissa ∧ e = -places ∨
        finiteText c e = mantissa ++ exponentText (e + places)) := by
  have hdigits : ∀ ch ∈ digitChars c, ch.isDigit = true := fun _ => Text.isDigit_of_mem_toDigits
  have hnat : Text.nat? (digitChars c) = some c := Text.nat?_toDigits c
  simp only [finiteText]
  by_cases hplain : e ≤ 0 ∧ -6 ≤ e + (digitChars c).length - 1
  · simp only [if_pos hplain]
    by_cases he : e = 0
    · exact ⟨digitChars c, 0, isMantissa_digits c, Or.inl ⟨by rw [if_pos he], by omega⟩⟩
    · simp only [if_neg he]
      generalize hds : List.replicate (e.natAbs + 1 - (digitChars c).length) '0' ++ digitChars c = ds
      have hlength : e.natAbs < ds.length := by
        rw [← hds, List.length_append, List.length_replicate]
        omega
      have hmem : ∀ ch ∈ ds, ch.isDigit = true := by
        intro ch hch
        rw [← hds] at hch
        rcases List.mem_append.mp hch with hch | hch
        · exact Text.isDigit_zero_of_mem hch
        · exact hdigits ch hch
      have hread : Text.nat? ds = some c := by
        rw [← hds]
        exact Text.nat?_zeros_append _ c
      have hne : ds.take (ds.length - e.natAbs) ≠ [] := by
        intro hnil
        have hzero := congrArg List.length hnil
        rw [List.length_take, List.length_nil] at hzero
        omega
      have hpoint := isMantissa_point _ (ds.drop (ds.length - e.natAbs)) hne
        (fun ch hch => hmem ch (List.mem_of_mem_take hch))
        (fun ch hch => hmem ch (List.mem_of_mem_drop hch)) (by rw [List.take_append_drop, hread])
      refine ⟨_, _, hpoint, Or.inl ⟨rfl, ?_⟩⟩
      rw [List.length_drop]
      omega
  · simp only [if_neg hplain]
    rcases hcs : digitChars c with _ | ⟨d, _ | ⟨d', ds⟩⟩
    · exact absurd hcs Nat.toDigits_ne_nil
    · refine ⟨[d], 0, ?_, Or.inr (by simp)⟩
      rw [← hcs]
      exact isMantissa_digits c
    · have hpoint := isMantissa_point [d] (d' :: ds) (by simp)
        (fun ch hch => hdigits ch (by rw [hcs]; simp_all))
        (fun ch hch => hdigits ch (by rw [hcs]; simp_all)) (by rw [hcs] at hnat; exact hnat)
      refine ⟨_, _, hpoint, Or.inr ?_⟩
      have hexp : e + ((d :: d' :: ds).length : Int) - 1 = e + ((d' :: ds).length : Int) := by
        simp only [List.length_cons]
        omega
      simp only [hexp]
      simp

/-- Characters that a written number may use. -/
private def isNumeral (c : Char) : Prop :=
  c.isDigit = true ∨ c = '.' ∨ c = 'E' ∨ c = '-' ∨ c = '+'

private theorem isNumeral_of_mem_exponentText {k : Int} {c : Char} (h : c ∈ exponentText k) :
    isNumeral c := by
  simp only [exponentText, List.mem_cons] at h
  rcases h with rfl | rfl | h
  · exact Or.inr (Or.inr (Or.inl rfl))
  · split
    · exact Or.inr (Or.inr (Or.inr (Or.inl rfl)))
    · exact Or.inr (Or.inr (Or.inr (Or.inr rfl)))
  · exact Or.inl (Text.isDigit_of_mem_toDigits h)

private theorem int?_exponent (k : Int) :
    int? ((if k < 0 then '-' else '+') :: Nat.toDigits 10 k.natAbs) = some k := by
  by_cases hk : k < 0
  · simp only [if_pos hk, int?, Text.nat?_toDigits, Option.bind_eq_bind, Option.bind_some,
      Option.pure_def, Option.map_some, Option.some.injEq]
    omega
  · simp only [if_neg hk, int?, Text.nat?_toDigits, Option.bind_eq_bind, Option.bind_some,
      Option.pure_def, Option.map_some, Option.some.injEq]
    omega

private theorem map_toLower_mantissa {cs : List Char}
    (h : ∀ c ∈ cs, c.isDigit = true ∨ c = '.') : cs.map Char.toLower = cs := by
  have hid : ∀ c ∈ cs, c.toLower = id c := by
    intro c hc
    rcases h c hc with hdigit | rfl
    · exact Text.toLower_of_isDigit hdigit
    · decide
  rw [List.map_congr_left hid, List.map_id]

private theorem map_toLower_exponentText (k : Int) :
    (exponentText k).map Char.toLower =
      'e' :: (if k < 0 then '-' else '+') :: Nat.toDigits 10 k.natAbs := by
  have hdigits : (Nat.toDigits 10 k.natAbs).map Char.toLower = Nat.toDigits 10 k.natAbs :=
    map_toLower_mantissa fun _ hc => Or.inl (Text.isDigit_of_mem_toDigits hc)
  have hsign : (if k < 0 then '-' else '+').toLower = if k < 0 then '-' else '+' := by
    split <;> decide
  have hmark : 'E'.toLower = 'e' := by decide
  simp only [exponentText, List.map_cons, hdigits, hsign, hmark]

private theorem ne_mark_of_mantissa {cs : List Char} (h : ∀ c ∈ cs, c.isDigit = true ∨ c = '.') :
    ∀ c ∈ cs, (c != 'e') = true := by
  intro c hc
  rw [bne_iff_ne]
  rintro rfl
  rcases h 'e' hc with hdigit | hpoint
  · revert hdigit
    decide
  · revert hpoint
    decide

/-- A mantissa followed by nothing or by an exponent is read as a number. -/
private theorem unsigned?_of_mantissa (negative : Bool) {mantissa tail cs : List Char}
    {c places : Nat} {k : Int} (h : IsMantissa mantissa c places)
    (hlower : cs.map Char.toLower = mantissa ++ tail)
    (htail : tail = [] ∧ k = 0 ∨ ∃ rest, tail = 'e' :: rest ∧ int? rest = some k)
    (hwritable : (finite negative c (k - places)).IsWritable) :
    unsigned? negative cs = some (finite negative c (k - places)) := by
  obtain ⟨d, ds, rfl, hd⟩ := h.starts
  have hmark := ne_mark_of_mantissa h.chars
  have hne : ∀ ch : Char, ch.isDigit = false → d ≠ ch := by
    rintro ch hch rfl
    rw [hd] at hch
    exact Bool.noConfusion hch
  have hinf : "inf".toList = ['i', 'n', 'f'] := by decide
  have hinfinity : "infinity".toList = ['i', 'n', 'f', 'i', 'n', 'i', 't', 'y'] := by decide
  have hnan : "nan".toList = ['n', 'a', 'n'] := by decide
  have hsnan : "snan".toList = ['s', 'n', 'a', 'n'] := by decide
  have htake : (d :: ds ++ tail).takeWhile (· != 'e') = d :: ds := by
    rw [List.takeWhile_append_of_pos hmark]
    rcases htail with ⟨rfl, -⟩ | ⟨rest, rfl, -⟩ <;> simp
  have hdrop : (d :: ds ++ tail).dropWhile (· != 'e') = tail := by
    rw [List.dropWhile_append_of_pos hmark]
    rcases htail with ⟨rfl, -⟩ | ⟨rest, rfl, -⟩ <;> simp
  have hlimit : ¬(writtenLimit < (if c = 0 then k - places else k - places + digitCount c - 1) ∨
      k - places < -(2 * writtenLimit - 1)) := by
    simp only [IsWritable] at hwritable
    omega
  have hi := hne 'i' (by decide)
  have hn := hne 'n' (by decide)
  have hs := hne 's' (by decide)
  simp only [unsigned?, hlower, htake, hdrop, h.reads]
  rcases htail with ⟨rfl, rfl⟩ | ⟨rest, rfl, hrest⟩
  · simpa [hinf, hinfinity, hnan, hsnan, hi, hn, hs] using hlimit
  · simpa [hinf, hinfinity, hnan, hsnan, hi, hn, hs, hrest] using hlimit

private theorem unsigned?_finiteText (negative : Bool) {c : Nat} {e : Int}
    (h : (finite negative c e).IsWritable) :
    unsigned? negative (finiteText c e) = some (finite negative c e) := by
  obtain ⟨mantissa, places, hmantissa, hform⟩ := finiteText_eq c e
  have hlower := map_toLower_mantissa hmantissa.chars
  rcases hform with ⟨hplain, he⟩ | hscientific
  · have hexact : (0 : Int) - places = e := by omega
    rw [hplain, ← hexact]
    exact unsigned?_of_mantissa negative hmantissa (by rw [hlower, List.append_nil])
      (Or.inl ⟨rfl, rfl⟩) (by rwa [hexact])
  · have hexact : e + places - places = e := by omega
    have htail : (mantissa ++ exponentText (e + places)).map Char.toLower = mantissa ++
        'e' :: (if e + places < 0 then '-' else '+') :: Nat.toDigits 10 (e + places).natAbs := by
      rw [List.map_append, hlower, map_toLower_exponentText]
    have hread := unsigned?_of_mantissa negative hmantissa htail
      (Or.inr ⟨_, rfl, int?_exponent (e + places)⟩) (by rwa [hexact])
    rwa [hexact, ← hscientific] at hread

private theorem isNumeral_of_mem_finiteText {c : Nat} {e : Int} {ch : Char}
    (h : ch ∈ finiteText c e) : isNumeral ch := by
  obtain ⟨mantissa, places, hmantissa, hform⟩ := finiteText_eq c e
  have hchar : ∀ ch ∈ mantissa, isNumeral ch := by
    intro ch hch
    rcases hmantissa.chars ch hch with hdigit | hpoint
    · exact Or.inl hdigit
    · exact Or.inr (Or.inl hpoint)
  rcases hform with ⟨hplain, -⟩ | hscientific
  · exact hchar ch (hplain ▸ h)
  · rw [hscientific] at h
    rcases List.mem_append.mp h with h | h
    · exact hchar ch h
    · exact isNumeral_of_mem_exponentText h

private theorem starts_finiteText (c : Nat) (e : Int) :
    ∃ d ds, finiteText c e = d :: ds ∧ d.isDigit = true := by
  obtain ⟨mantissa, places, hmantissa, hform⟩ := finiteText_eq c e
  obtain ⟨d, ds, hcons, hd⟩ := hmantissa.starts
  rcases hform with ⟨hplain, -⟩ | hscientific
  · exact ⟨d, ds, hplain.trans hcons, hd⟩
  · exact ⟨d, ds ++ exponentText (e + places), by rw [hscientific, hcons]; rfl, hd⟩

private theorem isBlank_of_isNumeral {c : Char} (h : isNumeral c) : Text.isBlank c = false := by
  rcases h with h | rfl | rfl | rfl | rfl
  · exact Text.isBlank_of_isDigit h
  all_goals decide

private theorem ne_underscore_of_isNumeral {c : Char} (h : isNumeral c) : (c != '_') = true := by
  rcases h with h | rfl | rfl | rfl | rfl
  · have hdigit := Text.isDigit_iff.mp h
    rw [bne_iff_ne]
    rintro rfl
    revert hdigit
    decide
  all_goals decide

private theorem plainChar?_of_isNumeral {c : Char} (h : isNumeral c) : plainChar? c = some c := by
  rcases h with h | rfl | rfl | rfl | rfl
  · rw [plainChar?, if_pos (Text.lt_128_of_isDigit h)]
  all_goals decide

private theorem mapM_plainChar? {cs : List Char} (h : ∀ c ∈ cs, isNumeral c) :
    cs.mapM plainChar? = some cs := by
  induction cs with
  | nil => rfl
  | cons c cs ih =>
    have hrest := ih fun d hd => h d (by simp [hd])
    simp [List.mapM_cons, plainChar?_of_isNumeral (h c (by simp)), hrest]

/-- A written number is read back as it was, to the last zero and with its sign. -/
theorem parse?_toText {x : Decimal} (h : x.IsWritable) : parse? x.toText = some x := by
  rcases x with ⟨negative, c, e⟩ | negative | ⟨negative, signaling, payload⟩
  · obtain ⟨d, ds, hstart, hd⟩ := starts_finiteText c e
    have hread := unsigned?_finiteText negative h
    have hnumeral : ∀ ch ∈ (if negative then ['-'] else []) ++ finiteText c e, isNumeral ch := by
      intro ch hch
      rcases List.mem_append.mp hch with hch | hch
      · cases negative
        · simp at hch
        · exact Or.inr (Or.inr (Or.inr (Or.inl (by simpa using hch))))
      · exact isNumeral_of_mem_finiteText hch
    have hblank := Text.trimList_of_forall fun ch hch => isBlank_of_isNumeral (hnumeral ch hch)
    have hfilter := List.filter_eq_self.mpr fun ch hch =>
      ne_underscore_of_isNumeral (hnumeral ch hch)
    simp only [parse?, toText, String.toList_ofList, hblank, hfilter, mapM_plainChar? hnumeral]
    cases negative
    · rw [hstart] at hread ⊢
      have hminus : d ≠ '-' := by
        rintro rfl
        revert hd
        decide
      have hplus : d ≠ '+' := by
        rintro rfl
        revert hd
        decide
      simpa [hminus, hplus] using hread
    · simpa using hread
  · exact absurd h id
  · exact absurd h id

theorem ofText_toText {x : Decimal} (h : x.IsWritable) : ofText x.toText = .ok x := by
  rw [ofText, parse?_toText h]

private theorem isWritable_of_range {negative : Bool} {c : Nat} {e : Int} {x : Decimal}
    (h : (if writtenLimit < (if c = 0 then e else e + digitCount c - 1) ∨ e < -(2 * writtenLimit - 1)
      then none else some (finite negative c e)) = some x) : x.IsWritable := by
  by_cases hlimit : writtenLimit < (if c = 0 then e else e + digitCount c - 1) ∨
      e < -(2 * writtenLimit - 1)
  · rw [if_pos hlimit] at h
    cases h
  · rw [if_neg hlimit] at h
    obtain rfl := Option.some.inj h
    rw [not_or] at hlimit
    exact ⟨Int.not_lt.mp hlimit.1, Int.not_lt.mp hlimit.2⟩

theorem isWritable_of_unsigned? {negative : Bool} {cs : List Char} {x : Decimal}
    (h : unsigned? negative cs = some x) (hx : x.IsFinite) : x.IsWritable := by
  unfold unsigned? at h
  dsimp only at h
  split at h
  · obtain rfl := Option.some.inj h
    exact absurd hx id
  split at h
  · split at h
    · obtain rfl := Option.some.inj h
      exact absurd hx id
    · obtain ⟨payload, -, rfl⟩ := Option.map_eq_some_iff.mp h
      exact absurd hx id
  split at h
  · split at h
    · obtain rfl := Option.some.inj h
      exact absurd hx id
    · obtain ⟨payload, -, rfl⟩ := Option.map_eq_some_iff.mp h
      exact absurd hx id
  obtain ⟨⟨c, places⟩, -, h⟩ := Option.bind_eq_some_iff.mp h
  split at h
  · exact isWritable_of_range h
  · obtain ⟨e, -, h⟩ := Option.bind_eq_some_iff.mp h
    exact isWritable_of_range h

/-- The finite numbers that a text can give are those that can be written. -/
theorem isWritable_iff {x : Decimal} : x.IsWritable ↔ x.IsFinite ∧ ∃ s, ofText s = .ok x := by
  constructor
  · intro h
    exact ⟨h.isFinite, x.toText, ofText_toText h⟩
  · rintro ⟨hx, s, hs⟩
    unfold ofText at hs
    split at hs
    · next y hparse =>
      obtain rfl := Except.ok.inj hs
      obtain ⟨cs, -, hread⟩ := Option.bind_eq_some_iff.mp hparse
      split at hread <;> exact isWritable_of_unsigned? hread hx
    · cases hs

end Decimal
end Backtesting
