import Backtesting.OrderedMap
import Mathlib.Data.List.Forall2
import Mathlib.Data.List.Induction

/-!
Maps that remember the order of their keys, seen as lists of entries. A look-up finds exactly the
entries of the list, putting a key that is there changes nothing but its value, and a list without
repeated keys is the list of the map that is made of it.
-/
namespace Backtesting

/-- Lists whose elements are related one by one end in related elements, or are both empty. -/
theorem rel_getLast? {α β : Type} {R : α → β → Prop} {l : List α} {m : List β}
    (h : List.Forall₂ R l m) : Option.Rel R l.getLast? m.getLast? := by
  induction h with
  | nil => exact Option.Rel.none
  | @cons a b l m hab htail ih =>
    cases htail with
    | nil => exact Option.Rel.some hab
    | cons _ _ => simpa only [List.getLast?_cons_cons] using ih

/-- Lists with the same keys are related one by one where entries of one key are. -/
theorem forall₂_of_map_eq {α β γ : Type*} {R : α → β → Prop} {f : α → γ} {g : β → γ} {l : List α}
    {m : List β} (hkeys : l.map f = m.map g) (h : ∀ a ∈ l, ∀ b ∈ m, f a = g b → R a b) :
    List.Forall₂ R l m := by
  induction l generalizing m with
  | nil =>
    obtain rfl : m = [] := by simpa using hkeys.symm
    exact .nil
  | cons a l ih =>
    obtain ⟨b, rest, rfl, hab, hrest⟩ := List.map_eq_cons_iff.mp hkeys.symm
    refine .cons (h a List.mem_cons_self b List.mem_cons_self hab.symm) (ih hrest.symm ?_)
    exact fun x hx y hy => h x (List.mem_cons_of_mem a hx) y (List.mem_cons_of_mem b hy)

namespace OrderedMap

variable {κ : Type u} {ν : Type v} {μ : Type w}

theorem eq_of_toList_eq {m n : OrderedMap κ ν} (h : m.toList = n.toList) : m = n := by
  cases m
  cases n
  simpa using h

theorem isEmpty_eq_of_size_eq {m : OrderedMap κ ν} {n : OrderedMap κ μ} (h : m.size = n.size) :
    m.isEmpty = n.isEmpty := by
  unfold size at h
  unfold isEmpty
  rw [Bool.eq_iff_iff, List.isEmpty_iff_length_eq_zero, List.isEmpty_iff_length_eq_zero, h]

variable [DecidableEq κ]

theorem mem_of_find? {k : κ} {v : ν} {l : List (κ × ν)} (h : find? k l = some v) : (k, v) ∈ l := by
  induction l with
  | nil => simp [find?] at h
  | cons e l ih =>
    by_cases he : e.1 = k
    · simp only [find?, he, if_true, Option.some.injEq] at h
      subst he h
      exact List.mem_cons_self
    · simp only [find?, he, if_false] at h
      exact List.mem_cons_of_mem _ (ih h)

theorem find?_of_mem {k : κ} {v : ν} {l : List (κ × ν)} (hl : (l.map Prod.fst).Nodup)
    (h : (k, v) ∈ l) : find? k l = some v := by
  induction l with
  | nil => simp at h
  | cons e l ih =>
    simp only [List.map_cons, List.nodup_cons] at hl
    rcases List.mem_cons.mp h with rfl | h
    · simp [find?]
    · have he : e.1 ≠ k := by
        rintro rfl
        exact hl.1 (List.mem_map.mpr ⟨_, h, rfl⟩)
      simpa [find?, he] using ih hl.2 h

theorem get?_eq_some_iff {m : OrderedMap κ ν} {k : κ} {v : ν} :
    m.get? k = some v ↔ (k, v) ∈ m.toList :=
  ⟨mem_of_find?, find?_of_mem m.nodup⟩

theorem mem_keys_iff {m : OrderedMap κ ν} {k : κ} : k ∈ m.keys ↔ ∃ v, m.get? k = some v := by
  simp [keys, get?_eq_some_iff]

theorem mem_keys_of_get? {m : OrderedMap κ ν} {k : κ} {v : ν} (h : m.get? k = some v) :
    k ∈ m.keys := mem_keys_iff.mpr ⟨v, h⟩

theorem get?_eq_none_iff {m : OrderedMap κ ν} {k : κ} : m.get? k = none ↔ k ∉ m.keys := by
  rw [mem_keys_iff]
  cases h : m.get? k <;> simp

theorem contains_eq_true_iff {m : OrderedMap κ ν} {k : κ} :
    m.contains k = true ↔ k ∈ m.keys := by
  rw [contains, Option.isSome_iff_exists, mem_keys_iff]

theorem getD_put (m : OrderedMap κ ν) (k j : κ) (v d : ν) :
    (m.put k v).getD j d = if j = k then v else m.getD j d := by
  unfold getD
  rw [get?_put]
  split <;> rfl

theorem putList_of_find? {k : κ} {v : ν} {l : List (κ × ν)} (h : find? k l = some v) :
    putList k v l = l := by
  induction l with
  | nil => simp [find?] at h
  | cons e l ih =>
    by_cases he : e.1 = k
    · simp only [find?, he, if_true, Option.some.injEq] at h
      subst he h
      simp [putList]
    · simp only [find?, he, if_false] at h
      simp [putList, he, ih h]

theorem putList_putList (k : κ) (v w : ν) (l : List (κ × ν)) :
    putList k w (putList k v l) = putList k w l := by
  induction l with
  | nil => simp [putList]
  | cons e l ih => by_cases he : e.1 = k <;> simp [putList, he, ih]

theorem putList_of_notMem {k : κ} (v : ν) {l : List (κ × ν)} (h : k ∉ l.map Prod.fst) :
    putList k v l = l ++ [(k, v)] := by
  induction l with
  | nil => rfl
  | cons e l ih =>
    simp only [List.map_cons, List.mem_cons, not_or] at h
    simp [putList, Ne.symm h.1, ih h.2]

theorem putList_append {k : κ} {v : ν} {l : List (κ × ν)} (h : ∀ e ∈ l, e.1 ≠ k)
    (l' : List (κ × ν)) : putList k v (l ++ l') = l ++ putList k v l' := by
  induction l with
  | nil => rfl
  | cons e l ih =>
    have he : e.1 ≠ k := h e List.mem_cons_self
    simp [putList, he, ih fun x hx => h x (List.mem_cons_of_mem e hx)]

theorem put_of_get? {m : OrderedMap κ ν} {k : κ} {v : ν} (h : m.get? k = some v) :
    m.put k v = m := eq_of_toList_eq (putList_of_find? h)

@[simp] theorem put_put (m : OrderedMap κ ν) (k : κ) (v w : ν) :
    (m.put k v).put k w = m.put k w := eq_of_toList_eq (putList_putList k v w m.toList)

theorem toList_put_of_notMem {m : OrderedMap κ ν} {k : κ} (v : ν) (h : k ∉ m.keys) :
    (m.put k v).toList = m.toList ++ [(k, v)] := putList_of_notMem v h

theorem mem_values_of_get? {m : OrderedMap κ ν} {k : κ} {v : ν} (h : m.get? k = some v) :
    v ∈ m.values := List.mem_map.mpr ⟨(k, v), get?_eq_some_iff.mp h, rfl⟩

theorem mem_keys_put {m : OrderedMap κ ν} {k j : κ} {v : ν} :
    j ∈ (m.put k v).keys ↔ j = k ∨ j ∈ m.keys := by
  rw [keys_put]
  split
  · next hk => exact ⟨Or.inr, fun h => h.elim (fun hj => hj ▸ hk) id⟩
  · rw [List.mem_append, List.mem_singleton, or_comm]

theorem forall_get?_iff {m : OrderedMap κ ν} {P : ν → Prop} :
    (∀ k v, m.get? k = some v → P v) ↔ ∀ v ∈ m.values, P v := by
  refine ⟨fun h v hv => ?_, fun h k v hv => h v (mem_values_of_get? hv)⟩
  obtain ⟨⟨k, v⟩, hmem, rfl⟩ := List.mem_map.mp hv
  exact h k v (get?_eq_some_iff.mpr hmem)

/-- What holds of all values and of a new one holds of all values with it. -/
theorem forall_get?_put {m : OrderedMap κ ν} {P : ν → Prop} {k : κ} {v : ν}
    (hm : ∀ j w, m.get? j = some w → P w) (hv : P v) :
    ∀ j w, (m.put k v).get? j = some w → P w := by
  intro j w hw
  rw [get?_put] at hw
  split at hw
  · exact Option.some.inj hw ▸ hv
  · exact hm j w hw

theorem keys_put_of_get? {m : OrderedMap κ ν} {k : κ} {v : ν} (w : ν) (h : m.get? k = some v) :
    (m.put k w).keys = m.keys := by
  rw [keys_put, if_pos (mem_keys_of_get? h)]

theorem toList_putAll (m : OrderedMap κ ν) (l : List (κ × ν))
    (h : (m.keys ++ l.map Prod.fst).Nodup) : (m.putAll l).toList = m.toList ++ l := by
  induction l generalizing m with
  | nil => simp [putAll]
  | cons e l ih =>
    obtain ⟨k, v⟩ := e
    have hk : k ∉ m.keys := by
      intro hk
      exact (List.nodup_append.mp h).2.2 k hk k (by simp) rfl
    have hkeys : (m.put k v).keys = m.keys ++ [k] := by
      rw [keys_put, if_neg hk]
    have hrest := ih (m.put k v) (by simpa [hkeys] using h)
    rw [toList_put_of_notMem v hk] at hrest
    simpa [putAll] using hrest

theorem toList_ofList {l : List (κ × ν)} (h : (l.map Prod.fst).Nodup) : (ofList l).toList = l := by
  have hkeys : ((empty : OrderedMap κ ν).keys ++ l.map Prod.fst).Nodup := h
  exact toList_putAll empty l hkeys

theorem mem_putList {k : κ} {v : ν} {l : List (κ × ν)} {e : κ × ν} (h : e ∈ putList k v l) :
    e = (k, v) ∨ e ∈ l := by
  induction l with
  | nil => exact Or.inl (by simpa [putList] using h)
  | cons x l ih =>
    by_cases hx : x.1 = k
    · simp only [putList, hx, if_true, List.mem_cons] at h
      rcases h with h | h
      · exact Or.inl h
      · exact Or.inr (List.mem_cons_of_mem x h)
    · simp only [putList, hx, if_false, List.mem_cons] at h
      rcases h with rfl | h
      · exact Or.inr List.mem_cons_self
      · rcases ih h with h | h
        · exact Or.inl h
        · exact Or.inr (List.mem_cons_of_mem x h)

theorem mem_putAll {m : OrderedMap κ ν} {l : List (κ × ν)} {e : κ × ν}
    (h : e ∈ (m.putAll l).toList) : e ∈ m.toList ∨ e ∈ l := by
  induction l generalizing m with
  | nil => exact Or.inl h
  | cons x l ih =>
    rcases ih h with h | h
    · rcases mem_putList h with rfl | h
      · exact Or.inr List.mem_cons_self
      · exact Or.inl h
    · exact Or.inr (List.mem_cons_of_mem x h)

theorem mem_ofList {l : List (κ × ν)} {e : κ × ν} (h : e ∈ (ofList l).toList) : e ∈ l := by
  rcases mem_putAll h with h | h
  · exact absurd h List.not_mem_nil
  · exact h

theorem mem_keys_putAll {m : OrderedMap κ ν} {l : List (κ × ν)} {k : κ} :
    k ∈ (m.putAll l).keys ↔ k ∈ m.keys ∨ k ∈ l.map Prod.fst := by
  induction l generalizing m with
  | nil => simp [putAll]
  | cons e l ih =>
    have hrest : (m.putAll (e :: l)) = (m.put e.1 e.2).putAll l := rfl
    rw [hrest, ih, mem_keys_put, List.map_cons, List.mem_cons, or_assoc, or_left_comm]

theorem mem_keys_ofList {l : List (κ × ν)} {k : κ} :
    k ∈ (ofList l).keys ↔ k ∈ l.map Prod.fst := by
  rw [ofList, mem_keys_putAll]
  simp [keys, empty]

theorem find?_map (f : κ → ν → μ) (k : κ) (l : List (κ × ν)) :
    find? k (l.map fun (k, v) => (k, f k v)) = (find? k l).map (f k) := by
  induction l with
  | nil => rfl
  | cons e l ih =>
    by_cases he : e.1 = k
    · subst he
      simp [find?]
    · simp [find?, he, ih]

theorem get?_mapValues (m : OrderedMap κ ν) (f : κ → ν → μ) (k : κ) :
    (m.mapValues f).get? k = (m.get? k).map (f k) := find?_map f k m.toList

/-- A value that looks the same under a map is not seen to be replaced. -/
theorem map_putList {f : κ → ν → μ} {k : κ} {v w : ν} (hf : f k w = f k v) {l : List (κ × ν)}
    (h : find? k l = some v) :
    (putList k w l).map (fun (k, v) => (k, f k v)) = l.map fun (k, v) => (k, f k v) := by
  induction l with
  | nil => simp [find?] at h
  | cons e l ih =>
    by_cases he : e.1 = k
    · simp only [find?, he, if_true, Option.some.injEq] at h
      subst h he
      simp [putList, hf]
    · simp only [find?, he, if_false] at h
      simp [putList, he, ih h]

theorem mapValues_put {m : OrderedMap κ ν} {f : κ → ν → μ} {k : κ} {v w : ν}
    (h : m.get? k = some v) (hf : f k w = f k v) :
    (m.put k w).mapValues f = m.mapValues f := eq_of_toList_eq (map_putList hf h)

/-- A map takes over the values of another one with the same keys in the same order. -/
theorem putAll_toList {m n : OrderedMap κ ν} (h : m.keys = n.keys) : m.putAll n.toList = n := by
  have hsplit : ∀ done left rest : List (κ × ν), ∀ m : OrderedMap κ ν,
      m.toList = done ++ left → left.map Prod.fst = rest.map Prod.fst →
      (m.putAll rest).toList = done ++ rest := by
    intro done left rest
    induction rest generalizing done left with
    | nil =>
      intro m hm hkeys
      obtain rfl : left = [] := by simpa using hkeys
      exact hm
    | cons e rest ih =>
      intro m hm hkeys
      obtain ⟨x, left, rfl⟩ : ∃ x l, left = x :: l := by
        cases left with
        | nil => simp at hkeys
        | cons x l => exact ⟨x, l, rfl⟩
      obtain ⟨hx, hkeys⟩ : x.1 = e.1 ∧ left.map Prod.fst = rest.map Prod.fst := by
        simpa using hkeys
      have hnodup := m.nodup
      rw [hm, List.map_append, List.nodup_append] at hnodup
      have hfresh : ∀ y ∈ done, y.1 ≠ e.1 := by
        intro y hy
        exact hnodup.2.2 y.1 (List.mem_map_of_mem hy) e.1 (by simp [hx])
      have hput : (m.put e.1 e.2).toList = (done ++ [e]) ++ left := by
        show putList e.1 e.2 m.toList = _
        rw [hm, putList_append hfresh]
        simp [putList, hx]
      have hrest := ih (done ++ [e]) left (m.put e.1 e.2) hput hkeys
      simpa [putAll] using hrest
  exact eq_of_toList_eq (by simpa using hsplit [] m.toList n.toList m rfl h)

/-- Maps whose values agree under `f` key by key have the same list of results. -/
theorem map_values_congr {m n : OrderedMap κ ν} {f : ν → μ} (hkeys : m.keys = n.keys)
    (h : ∀ k v, m.get? k = some v → ∃ w, n.get? k = some w ∧ f v = f w) :
    m.values.map f = n.values.map f := by
  have hget : ∀ m : OrderedMap κ ν,
      (m.values.map f).map some = m.keys.map fun k => (m.get? k).map f := by
    intro m
    simp only [values, keys, List.map_map]
    apply List.map_congr_left
    intro e he
    have hvalue : m.get? e.1 = some e.2 := get?_eq_some_iff.mpr he
    simp [hvalue]
  have hmapped : (m.values.map f).map some = (n.values.map f).map some := by
    rw [hget m, hget n, hkeys]
    apply List.map_congr_left
    intro k hk
    obtain ⟨v, hv⟩ := mem_keys_iff.mp (hkeys ▸ hk)
    obtain ⟨w, hw, hvw⟩ := h k v hv
    rw [hv, hw, Option.map_some, Option.map_some, hvw]
  exact (List.map_inj_right fun _ _ => Option.some.inj).mp hmapped

/-- Maps with the same keys have values that are related one by one. -/
theorem forall₂_values {m : OrderedMap κ ν} {n : OrderedMap κ μ} {R : ν → μ → Prop}
    (hkeys : n.keys = m.keys) (h : ∀ k v w, m.get? k = some v → n.get? k = some w → R v w) :
    List.Forall₂ R m.values n.values := by
  rw [values, values, List.forall₂_map_left_iff, List.forall₂_map_right_iff]
  refine forall₂_of_map_eq hkeys.symm fun x hx y hy hxy => ?_
  refine h x.1 x.2 y.2 (get?_eq_some_iff.mpr hx) ?_
  rw [hxy]
  exact get?_eq_some_iff.mpr hy

theorem ofList_toList (m : OrderedMap κ ν) : ofList m.toList = m :=
  eq_of_toList_eq (toList_ofList m.nodup)

/-- The place of an entry does not matter for what is found. -/
theorem get?_of_perm {m n : OrderedMap κ ν} (h : m.toList.Perm n.toList) (k : κ) :
    m.get? k = n.get? k := by
  ext v
  rw [get?_eq_some_iff, get?_eq_some_iff, h.mem_iff]

/-- Two values that are there are replaced in either order. -/
theorem put_comm {m : OrderedMap κ ν} {j k : κ} {v w v' w' : ν} (hjk : j ≠ k)
    (hv : m.get? j = some v') (hw : m.get? k = some w') : (m.put j v).put k w = (m.put k w).put j v := by
  have hlist : ∀ l : List (κ × ν), find? j l = some v' → find? k l = some w' →
      putList k w (putList j v l) = putList j v (putList k w l) := by
    intro l hj hk
    induction l with
    | nil => simp [find?] at hj
    | cons e l ih =>
      by_cases hej : e.1 = j
      · have hek : e.1 ≠ k := fun hek => hjk (hej.symm.trans hek)
        simp [putList, hej, hjk]
      · by_cases hek : e.1 = k
        · simp [putList, hek, hjk.symm]
        · simp only [find?, hej, hek, if_false] at hj hk
          simp [putList, hej, hek, ih hj hk]
  exact eq_of_toList_eq (hlist m.toList hv hw)

theorem ofList_append_singleton (l : List (κ × ν)) (e : κ × ν) :
    ofList (l ++ [e]) = (ofList l).put e.1 e.2 := by
  simp [ofList, putAll]

/-- Of several entries of a key, the last one is found. -/
theorem get?_ofList (l : List (κ × ν)) (k : κ) :
    (ofList l).get? k = (l.filter (·.1 = k)).getLast?.map Prod.snd := by
  induction l using List.reverseRecOn with
  | nil => rfl
  | append_singleton l e ih =>
    rw [ofList_append_singleton, get?_put, List.filter_append, ih]
    by_cases he : e.1 = k
    · simp [he]
    · have hke : ¬ k = e.1 := fun h => he h.symm
      simp [he, hke]

/-- Keys stand in the order of their first entries. -/
theorem pairwise_keys_ofList (l : List (κ × ν)) :
    (ofList l).keys.Pairwise fun j k =>
      ∃ l₁ e l₂, l = l₁ ++ e :: l₂ ∧ e.1 = j ∧ ∀ x ∈ l₁, x.1 ≠ k := by
  induction l using List.reverseRecOn with
  | nil => exact List.Pairwise.nil
  | append_singleton l e ih =>
    have hold : (ofList l).keys.Pairwise fun j k =>
        ∃ l₁ x l₂, l ++ [e] = l₁ ++ x :: l₂ ∧ x.1 = j ∧ ∀ y ∈ l₁, y.1 ≠ k := by
      apply ih.imp
      intro j k h
      obtain ⟨l₁, x, l₂, hl, hx, hbefore⟩ := h
      exact ⟨l₁, x, l₂ ++ [e], by simp [hl], hx, hbefore⟩
    rw [ofList_append_singleton, keys_put]
    by_cases he : e.1 ∈ (ofList l).keys
    · rw [if_pos he]
      exact hold
    · rw [if_neg he, List.pairwise_append]
      refine ⟨hold, List.pairwise_singleton _ _, ?_⟩
      intro j hj k hk
      obtain rfl := List.mem_singleton.mp hk
      obtain ⟨x, hx, rfl⟩ := List.mem_map.mp (mem_keys_ofList.mp hj)
      obtain ⟨l₁, l₂, rfl⟩ := List.append_of_mem hx
      refine ⟨l₁, x, l₂ ++ [e], by simp, rfl, ?_⟩
      intro y hy hye
      exact he (mem_keys_ofList.mpr (List.mem_map.mpr ⟨y, List.mem_append_left _ hy, hye⟩))

end OrderedMap
end Backtesting
