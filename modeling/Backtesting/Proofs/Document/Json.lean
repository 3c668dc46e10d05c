import Backtesting.Proofs.Document.JsonToken

/-!
JSON texts written and read back. A written value is found again in front of any text that cannot
continue it, so the readers of lists and objects take their entries one by one from what the writer
put between the brackets. The fuel of the reader is spent on characters, and a text has as much as
it needs.
-/
namespace Backtesting.Document.Json

/-- The characters that a value begins with. -/
def StartsValue (c : Char) : Prop := c.isDigit = true ∨ c ∈ ['-', '"', '[', '\x7b', 't', 'f', 'n']

theorem StartsValue.ne {c d : Char} (h : StartsValue c) (hdigit : d.isDigit = false)
    (hmem : d ∉ ['-', '"', '[', '\x7b', 't', 'f', 'n']) : c ≠ d := by
  rintro rfl
  rcases h with h | h
  · rw [hdigit] at h
    exact Bool.noConfusion h
  · exact hmem h

theorem skipBlanks_starts {c : Char} (h : StartsValue c) (cs : List Char) :
    skipBlanks (c :: cs) = c :: cs := by
  have hblank : ¬(c = ' ' ∨ c = '\n' ∨ c = '\r' ∨ c = '\t') := by
    simp only [not_or]
    exact ⟨h.ne (by decide) (by decide), h.ne (by decide) (by decide),
      h.ne (by decide) (by decide), h.ne (by decide) (by decide)⟩
  rw [skipBlanks, if_neg hblank]

/-- A text that is read as a value, whatever comes after it. -/
structure Reads (x : Document) (cs : List Char) : Prop where
  starts : ∃ c ds, cs = c :: ds ∧ StartsValue c
  reads : ∀ fuel rest, cs.length < fuel → EndsNumber rest →
    value? fuel (cs ++ rest) = some (x, rest)

private theorem exists_succ {n k : Nat} (h : k < n) : ∃ m, n = m + 1 := ⟨n - 1, by omega⟩

theorem reads_null : Reads .null ['n', 'u', 'l', 'l'] := by
  refine ⟨⟨'n', _, rfl, Or.inr (by decide)⟩, ?_⟩
  intro fuel rest hfuel _
  obtain ⟨fuel, rfl⟩ := exists_succ hfuel
  simp [value?, Json.skipBlanks]

theorem reads_true : Reads (.bool true) ['t', 'r', 'u', 'e'] := by
  refine ⟨⟨'t', _, rfl, Or.inr (by decide)⟩, ?_⟩
  intro fuel rest hfuel _
  obtain ⟨fuel, rfl⟩ := exists_succ hfuel
  simp [value?, Json.skipBlanks]

theorem reads_false : Reads (.bool false) ['f', 'a', 'l', 's', 'e'] := by
  refine ⟨⟨'f', _, rfl, Or.inr (by decide)⟩, ?_⟩
  intro fuel rest hfuel _
  obtain ⟨fuel, rfl⟩ := exists_succ hfuel
  simp [value?, Json.skipBlanks]

theorem reads_text (s : String) : Reads (.text s) (writtenText false s).toList := by
  rw [toList_writtenText]
  refine ⟨⟨'"', _, rfl, Or.inr (by decide)⟩, ?_⟩
  intro fuel rest hfuel _
  obtain ⟨fuel, rfl⟩ := exists_succ hfuel
  have hread := string?_writtenText s rest
  simp only [List.cons_append, List.append_assoc, List.nil_append, value?, Json.skipBlanks]
  rw [if_neg (by decide)]
  simp only [hread, Option.bind_eq_bind, Option.bind_some]

theorem reads_integer (i : Int) : Reads (.integer i) (toString i).toList := by
  rw [toList_toString_int]
  obtain ⟨c, cs, hcons, hc⟩ := starts_integerChars i
  have hstarts : StartsValue c := by
    rcases hc with hc | rfl
    · exact Or.inl hc
    · exact Or.inr (by decide)
  refine ⟨⟨c, cs, hcons, hstarts⟩, ?_⟩
  intro fuel rest hfuel hrest
  obtain ⟨fuel, rfl⟩ := exists_succ hfuel
  have hchars : ∀ d ∈ integerChars i, isNumberChar d = true := fun _ => isNumberChar_of_mem
  have htake := takeWhile_number hchars hrest
  have hdrop := dropWhile_number hchars hrest
  have hne : ∀ d : Char, d.isDigit = false → d ≠ '-' → c ≠ d := by
    rintro d hd hminus rfl
    rcases hc with hc | hc
    · rw [hd] at hc
      exact Bool.noConfusion hc
    · exact hminus hc
  have hskip : skipBlanks (integerChars i ++ rest) = c :: (cs ++ rest) := by
    rw [hcons, List.cons_append, skipBlanks_starts hstarts]
  rw [hcons, List.cons_append] at htake hdrop
  rw [value?, hskip]
  simp [hne '"' (by decide) (by decide), hne '\x7b' (by decide) (by decide),
    hne '[' (by decide) (by decide), hne 't' (by decide) (by decide),
    hne 'f' (by decide) (by decide), hne 'n' (by decide) (by decide), htake, hdrop, ← hcons,
    number?_integerChars]

theorem value?_gap {gap : List Char} (h : IsGap gap) (fuel : Nat) (cs : List Char) :
    value? fuel (gap ++ cs) = value? fuel cs := by
  cases fuel with
  | zero => rfl
  | succ fuel => rw [value?, value?, skipBlanks_gap h]

theorem items?_gap {gap : List Char} (h : IsGap gap) (fuel : Nat) (cs : List Char) :
    items? fuel (gap ++ cs) = items? fuel cs := by
  cases fuel with
  | zero => rfl
  | succ fuel => rw [items?, items?, value?_gap h]

theorem fields?_gap {gap : List Char} (h : IsGap gap) (fuel : Nat) (cs : List Char) :
    fields? fuel (gap ++ cs) = fields? fuel cs := by
  cases fuel with
  | zero => rfl
  | succ fuel => rw [fields?, fields?, skipBlanks_gap h]

theorem intercalate_cons_cons (sep cs ds : List Char) (l : List (List Char)) :
    sep.intercalate (cs :: ds :: l) = cs ++ (sep ++ sep.intercalate (ds :: l)) := by
  simp [List.intercalate]

variable {gap last : List Char}

/-- Values with commas between them, up to the bracket. -/
theorem items?_intercalate (hgap : IsGap gap) (hlast : IsGap last) {text : Document → List Char}
    {x : Document} {xs : List Document} (h : ∀ y ∈ x :: xs, Reads y (text y)) (fuel : Nat)
    (hfuel : ((',' :: gap).intercalate ((x :: xs).map text)).length + 1 < fuel)
    (rest : List Char) :
    items? fuel ((',' :: gap).intercalate ((x :: xs).map text) ++ (last ++ ']' :: rest)) =
      some (x :: xs, rest) := by
  induction xs generalizing x fuel with
  | nil =>
    obtain ⟨fuel, rfl⟩ := exists_succ hfuel
    simp only [List.map_cons, List.map_nil, List.intercalate_singleton] at hfuel ⊢
    have hread := (h x (by simp)).reads fuel (last ++ ']' :: rest) (by omega)
      (endsNumber_gap hlast (endsNumber_cons (by decide) rest))
    simp [items?, hread, skipBlanks_gap hlast, skipBlanks]
  | cons y xs ih =>
    obtain ⟨fuel, rfl⟩ := exists_succ hfuel
    simp only [List.map_cons, intercalate_cons_cons, List.cons_append, List.length_append,
      List.length_cons] at hfuel
    have hrest := ih (x := y) (fun z hz => h z (List.mem_cons_of_mem x hz)) fuel
      (by simp only [List.map_cons]; omega)
    have hread := (h x (by simp)).reads fuel (',' :: (gap ++
        ((',' :: gap).intercalate ((y :: xs).map text) ++ (last ++ ']' :: rest)))) (by omega)
      (endsNumber_cons (by decide) _)
    rw [← items?_gap hgap] at hrest
    simp only [List.map_cons, intercalate_cons_cons, List.cons_append, List.append_assoc] at *
    simp [items?, hread, skipBlanks, hrest]

/-- The text of a field: its key, and its value after a colon. -/
def fieldText (text : Document → List Char) (f : String × Document) : List Char :=
  (writtenText false f.1).toList ++ (':' :: ' ' :: text f.2)

theorem fieldText_append (text : Document → List Char) (f : String × Document)
    (rest : List Char) :
    fieldText text f ++ rest = '"' :: (f.1.toList.flatMap (writtenChar false) ++
      '"' :: (':' :: ' ' :: (text f.2 ++ rest))) := by
  simp [fieldText, toList_writtenText]

theorem length_fieldText (text : Document → List Char) (f : String × Document) :
    (text f.2).length + 1 < (fieldText text f).length := by
  rw [fieldText, List.length_append, List.length_cons, List.length_cons]
  omega

/-- A field is followed by more fields or by the end of the object. -/
theorem fields?_field {text : Document → List Char} {f : String × Document}
    (h : Reads f.2 (text f.2)) (fuel : Nat) (hfuel : (fieldText text f).length < fuel + 1)
    {rest : List Char} (hrest : EndsNumber rest) :
    (∀ cs fs tail, skipBlanks rest = ',' :: cs → fields? fuel cs = some (fs, tail) →
      fields? (fuel + 1) (fieldText text f ++ rest) = some (f :: fs, tail)) ∧
    ∀ cs, skipBlanks rest = '\x7d' :: cs →
      fields? (fuel + 1) (fieldText text f ++ rest) = some ([f], cs) := by
  have hlength := length_fieldText text f
  have hblank : IsGap [' '] := by
    intro c hc
    exact Or.inl (by simpa using hc)
  have hread : value? fuel (' ' :: (text f.2 ++ rest)) = some (f.2, rest) := by
    rw [← h.reads fuel rest (by omega) hrest]
    exact value?_gap hblank fuel _
  have hkey := string?_writtenText f.1 (':' :: ' ' :: (text f.2 ++ rest))
  have hquote : ∀ cs, skipBlanks ('"' :: cs) = '"' :: cs :=
    skipBlanks_starts (Or.inr (by decide))
  have hcolon : ∀ cs, skipBlanks (':' :: cs) = ':' :: cs := by
    intro cs
    simp [skipBlanks]
  constructor
  · intro cs fs tail hcomma hfields
    rw [fieldText_append, fields?]
    simp only [hquote, hkey, hcolon, hread, hcomma, hfields, Option.bind_eq_bind, Option.bind_some]
  · intro cs hend
    rw [fieldText_append, fields?]
    simp only [hquote, hkey, hcolon, hread, hend, Option.bind_eq_bind, Option.bind_some]

theorem fields?_intercalate (hgap : IsGap gap) (hlast : IsGap last) {text : Document → List Char}
    {f : String × Document} {fs : List (String × Document)}
    (h : ∀ g ∈ f :: fs, Reads g.2 (text g.2)) (fuel : Nat)
    (hfuel : ((',' :: gap).intercalate ((f :: fs).map (fieldText text))).length < fuel)
    (rest : List Char) :
    fields? fuel ((',' :: gap).intercalate ((f :: fs).map (fieldText text)) ++
      (last ++ '\x7d' :: rest)) = some (f :: fs, rest) := by
  induction fs generalizing f fuel with
  | nil =>
    obtain ⟨fuel, rfl⟩ := exists_succ hfuel
    simp only [List.map_cons, List.map_nil, List.intercalate_singleton] at hfuel ⊢
    refine (fields?_field (h f (by simp)) fuel hfuel
      (endsNumber_gap hlast (endsNumber_cons (by decide) rest))).2 rest ?_
    rw [skipBlanks_gap hlast]
    simp [skipBlanks]
  | cons g fs ih =>
    obtain ⟨fuel, rfl⟩ := exists_succ hfuel
    simp only [List.map_cons, intercalate_cons_cons, List.cons_append, List.length_append,
      List.length_cons] at hfuel
    have hrest := ih (f := g) (fun i hi => h i (List.mem_cons_of_mem f hi)) fuel
      (by simp only [List.map_cons]; omega)
    rw [← fields?_gap hgap] at hrest
    simp only [List.map_cons, intercalate_cons_cons, List.cons_append, List.append_assoc] at *
    refine (fields?_field (h f (by simp)) fuel (by omega) (endsNumber_cons (by decide) _)).1
      _ _ _ ?_ hrest
    simp [skipBlanks]

theorem isGap_line (n : Nat) : IsGap ('\n' :: List.replicate n ' ') := by
  intro c hc
  rcases List.mem_cons.mp hc with rfl | hc
  · exact Or.inr rfl
  · exact Or.inl (List.eq_of_mem_replicate hc)

/-- Entries between brackets, whatever the layout puts around them. -/
theorem toList_enclosed (layout : Layout) (depth : Nat) (left right : String)
    {entries : List String} (h : entries ≠ []) :
    ∃ first gap last, IsGap first ∧ IsGap gap ∧ IsGap last ∧
      (enclosed layout depth left right entries).toList = left.toList ++ (first ++
        ((',' :: gap).intercalate (entries.map String.toList) ++ (last ++ right.toList))) := by
  have hempty : entries.isEmpty = false := by
    cases entries with
    | nil => exact absurd rfl h
    | cons e es => rfl
  have hcomma : ", ".toList = [',', ' '] := by decide
  have hsep : ",".toList = [','] := by decide
  have hline : "\n".toList = ['\n'] := by decide
  rcases hindent : layout.indent with _ | n
  · refine ⟨[], [' '], [], isGap_nil, ?_, isGap_nil, ?_⟩
    · intro c hc
      exact Or.inl (by simpa using hc)
    · simp [enclosed, hempty, hindent, String.toList_intercalate, hcomma]
  · refine ⟨_, _, _, isGap_line (n * (depth + 1)), isGap_line (n * (depth + 1)),
      isGap_line (n * depth), ?_⟩
    simp [enclosed, hempty, hindent, String.toList_intercalate, hsep, hline]

theorem starts_intercalate (sep : List Char) (c : Char) (cs : List Char) (l : List (List Char)) :
    ∃ ds, sep.intercalate ((c :: cs) :: l) = c :: ds := by
  cases l with
  | nil => exact ⟨cs, List.intercalate_singleton⟩
  | cons e l => exact ⟨_, by rw [intercalate_cons_cons]; rfl⟩

theorem reads_list (layout : Layout) (depth : Nat) {text : Document → List Char}
    {xs : List Document} (h : ∀ x ∈ xs, Reads x (text x)) {entries : List String}
    (hentries : entries.map String.toList = xs.map text) :
    Reads (.list xs) (enclosed layout depth "[" "]" entries).toList := by
  have hleft : "[".toList = ['['] := by decide
  have hright : "]".toList = [']'] := by decide
  rcases xs with _ | ⟨x, xs⟩
  · obtain rfl : entries = [] := by simpa using hentries
    have htext : (enclosed layout depth "[" "]" []).toList = ['[', ']'] := by
      simp [enclosed]
    rw [htext]
    refine ⟨⟨'[', _, rfl, Or.inr (by decide)⟩, ?_⟩
    intro fuel rest hfuel _
    obtain ⟨fuel, rfl⟩ := exists_succ hfuel
    simp [value?, skipBlanks]
  · have hne : entries ≠ [] := by
      rintro rfl
      simp at hentries
    obtain ⟨first, gap, last, hfirst, hgap, hlast, htext⟩ :=
      toList_enclosed layout depth "[" "]" hne
    rw [htext, hentries, hleft, hright]
    refine ⟨⟨'[', _, rfl, Or.inr (by decide)⟩, ?_⟩
    intro fuel rest hfuel _
    obtain ⟨fuel, rfl⟩ := exists_succ hfuel
    simp only [List.length_append, List.length_cons, List.length_nil] at hfuel
    have hitems := items?_intercalate hgap hlast h fuel (by omega) rest
    obtain ⟨c, cs, hcons, hc⟩ := (h x (by simp)).starts
    obtain ⟨ds, hds⟩ := starts_intercalate (',' :: gap) c cs (xs.map text)
    rw [← hcons] at hds
    have hskip := skipBlanks_starts hc (ds ++ (last ++ ']' :: rest))
    have hbracket := skipBlanks_starts (Or.inr (by decide) : StartsValue '[')
    have hclose : c ≠ ']' := hc.ne (by decide) (by decide)
    simp only [List.map_cons, hds, List.cons_append, List.nil_append, List.append_assoc] at hitems ⊢
    simp [value?, hbracket, skipBlanks_gap hfirst, hskip, hclose, hitems]

theorem putField_of_notMem {k : String} {fs : List (String × Document)} (v : Document)
    (h : k ∉ fs.map Prod.fst) : putField k v fs = fs ++ [(k, v)] := by
  induction fs with
  | nil => rfl
  | cons f fs ih =>
    simp only [List.map_cons, List.mem_cons, not_or] at h
    simp [putField, Ne.symm h.1, ih h.2]

/-- Fields under distinct keys are kept as they are. -/
theorem ofFields_of_nodup {fs : List (String × Document)} (h : (fs.map Prod.fst).Nodup) :
    ofFields fs = .object fs := by
  have happend : ∀ acc : List (String × Document), ((acc ++ fs).map Prod.fst).Nodup →
      fs.foldl (fun acc f => putField f.1 f.2 acc) acc = acc ++ fs := by
    clear h
    induction fs with
    | nil => simp
    | cons f fs ih =>
      intro acc hacc
      have hf : f.1 ∉ acc.map Prod.fst := by
        intro hmem
        rw [List.map_append, List.nodup_append] at hacc
        exact hacc.2.2 f.1 hmem f.1 (by simp) rfl
      rw [List.foldl_cons, putField_of_notMem f.2 hf, ih (acc ++ [f]) (by simpa using hacc)]
      simp
  rw [ofFields, happend [] (by simpa using h), List.nil_append]

theorem reads_object (layout : Layout) (depth : Nat) {text : Document → List Char}
    {fs : List (String × Document)} (hkeys : (fs.map Prod.fst).Nodup)
    (h : ∀ f ∈ fs, Reads f.2 (text f.2)) {entries : List String}
    (hentries : entries.map String.toList = fs.map (fieldText text)) :
    Reads (.object fs) (enclosed layout depth "\x7b" "\x7d" entries).toList := by
  have hleft : "\x7b".toList = ['\x7b'] := by decide
  have hright : "\x7d".toList = ['\x7d'] := by decide
  rcases fs with _ | ⟨f, fs⟩
  · obtain rfl : entries = [] := by simpa using hentries
    have htext : (enclosed layout depth "\x7b" "\x7d" []).toList = ['\x7b', '\x7d'] := by
      simp [enclosed]
    rw [htext]
    refine ⟨⟨'\x7b', _, rfl, Or.inr (by decide)⟩, ?_⟩
    intro fuel rest hfuel _
    obtain ⟨fuel, rfl⟩ := exists_succ hfuel
    simp [value?, skipBlanks]
  · have hne : entries ≠ [] := by
      rintro rfl
      simp at hentries
    obtain ⟨first, gap, last, hfirst, hgap, hlast, htext⟩ :=
      toList_enclosed layout depth "\x7b" "\x7d" hne
    rw [htext, hentries, hleft, hright]
    refine ⟨⟨'\x7b', _, rfl, Or.inr (by decide)⟩, ?_⟩
    intro fuel rest hfuel _
    obtain ⟨fuel, rfl⟩ := exists_succ hfuel
    simp only [List.length_append, List.length_cons, List.length_nil] at hfuel
    have hfields := fields?_intercalate hgap hlast h fuel (by omega) rest
    have hcons : ∃ cs, fieldText text f = '"' :: cs := ⟨_, by rw [fieldText, toList_writtenText]; rfl⟩
    obtain ⟨cs, hcons⟩ := hcons
    obtain ⟨ds, hds⟩ := starts_intercalate (',' :: gap) '"' cs (fs.map (fieldText text))
    rw [← hcons] at hds
    have hquote : StartsValue '"' := Or.inr (by decide)
    have hskip := skipBlanks_starts hquote (ds ++ (last ++ '\x7d' :: rest))
    have hbrace := skipBlanks_starts (Or.inr (by decide) : StartsValue '\x7b')
    simp only [List.map_cons, hds, List.cons_append, List.nil_append, List.append_assoc] at hfields ⊢
    simp [value?, hbrace, skipBlanks_gap hfirst, hskip, hfields, ofFields_of_nodup hkeys]

end Json

mutual

/-- A value that JSON has: no date and no binary number in it, and no key twice in an object. -/
def IsPlain : Document → Prop
  | null => True
  | bool _ => True
  | integer _ => True
  | number _ => False
  | text _ => True
  | date _ => False
  | list xs => ItemsArePlain xs
  | object fs => (fs.map Prod.fst).Nodup ∧ FieldsArePlain fs

def ItemsArePlain : List Document → Prop
  | [] => True
  | x :: xs => IsPlain x ∧ ItemsArePlain xs

def FieldsArePlain : List (String × Document) → Prop
  | [] => True
  | (_, x) :: fs => IsPlain x ∧ FieldsArePlain fs

end

theorem itemsArePlain_iff {xs : List Document} :
    ItemsArePlain xs ↔ ∀ x ∈ xs, x.IsPlain := by
  induction xs with
  | nil => simp [ItemsArePlain]
  | cons x xs ih => simp [ItemsArePlain, ih]

theorem fieldsArePlain_iff {fs : List (String × Document)} :
    FieldsArePlain fs ↔ ∀ f ∈ fs, f.2.IsPlain := by
  induction fs with
  | nil => simp [FieldsArePlain]
  | cons f fs ih => simp [FieldsArePlain, ih]

@[simp] theorem isPlain_text (s : String) : (text s).IsPlain := by
  simp [IsPlain]

@[simp] theorem isPlain_integer (i : Int) : (integer i).IsPlain := by
  simp [IsPlain]

theorem isPlain_list {xs : List Document} : (list xs).IsPlain ↔ ∀ x ∈ xs, x.IsPlain := by
  rw [IsPlain, itemsArePlain_iff]

theorem isPlain_object {fs : List (String × Document)} :
    (object fs).IsPlain ↔ (fs.map Prod.fst).Nodup ∧ ∀ f ∈ fs, f.2.IsPlain := by
  rw [IsPlain, fieldsArePlain_iff]

namespace Json

theorem map_toList_writtenItems (layout : Layout) (depth : Nat) (xs : List Document) :
    (writtenItems layout depth xs).map String.toList =
      xs.map fun x => (written layout depth x).toList := by
  induction xs with
  | nil => rfl
  | cons x xs ih => simp [writtenItems, ih]

theorem map_toList_writtenFields {layout : Layout} (hlayout : layout.asciiOnly = false)
    (depth : Nat) (fs : List (String × Document)) :
    (writtenFields layout depth fs).map String.toList =
      fs.map (fieldText fun x => (written layout depth x).toList) := by
  have hcolon : ": ".toList = [':', ' '] := by decide
  induction fs with
  | nil => rfl
  | cons f fs ih => simp [writtenFields, ih, hlayout, fieldText, hcolon]

/-- A plain document is found again at the start of what is written of it. -/
theorem reads_written {layout : Layout} (hlayout : layout.asciiOnly = false) (depth : Nat) :
    ∀ x : Document, x.IsPlain → Reads x (written layout depth x).toList
  | null, _ => by
    have htext : "null".toList = ['n', 'u', 'l', 'l'] := by decide
    simpa [written, htext] using reads_null
  | bool true, _ => by
    have htext : "true".toList = ['t', 'r', 'u', 'e'] := by decide
    simpa [written, htext] using reads_true
  | bool false, _ => by
    have htext : "false".toList = ['f', 'a', 'l', 's', 'e'] := by decide
    simpa [written, htext] using reads_false
  | integer i, _ => by
    rw [written]
    exact reads_integer i
  | number _, h => by simp [IsPlain] at h
  | text s, _ => by
    rw [written, hlayout]
    exact reads_text s
  | date _, h => by simp [IsPlain] at h
  | list xs, h => by
    have hitems : ∀ x ∈ xs, Reads x (written layout (depth + 1) x).toList := by
      intro x hx
      exact reads_written hlayout (depth + 1) x (isPlain_list.mp h x hx)
    rw [written]
    exact reads_list layout depth hitems (map_toList_writtenItems layout (depth + 1) xs)
  | object fs, h => by
    obtain ⟨hkeys, hplain⟩ := isPlain_object.mp h
    have hfields : ∀ f ∈ fs, Reads f.2 (written layout (depth + 1) f.2).toList := by
      intro f hf
      exact reads_written hlayout (depth + 1) f.2 (hplain f hf)
    rw [written]
    exact reads_object layout depth hkeys hfields (map_toList_writtenFields hlayout (depth + 1) fs)
termination_by x => sizeOf x
decreasing_by
  · have := List.sizeOf_lt_of_mem hx
    simp only [list.sizeOf_spec]
    omega
  · have := List.sizeOf_lt_of_mem hf
    obtain ⟨k, y⟩ := f
    simp only [object.sizeOf_spec, Prod.mk.sizeOf_spec] at *
    omega

/-- Reading undoes writing, in every layout that leaves the characters as they are. -/
theorem parse?_render {layout : Layout} (hlayout : layout.asciiOnly = false) {x : Document}
    (h : x.IsPlain) : parse? (render layout x) = some x := by
  have hreads := (reads_written hlayout 0 x h).reads ((render layout x).toList.length + 1) []
    (Nat.lt_succ_self _) (by intro c cs hcons; simp at hcons)
  rw [List.append_nil] at hreads
  simp only [render] at hreads
  simp [parse?, render, hreads, skipBlanks]

end Json
end Backtesting.Document
