import Backtesting.Chronicle
import Mathlib.Data.List.Sort
import Mathlib.Data.List.TakeWhile

/-!
Chronicles, seen as lists of days. Writing a day keeps the days before it and drops the rest, which
is the day itself or nothing where writing is allowed at all; whether it is allowed depends on the
days alone. So a chronicle that is only written where that is allowed continues what it was: no day
is lost, and all values but the last one are settled.
-/
namespace Backtesting

theorem Date.nodup_of_ascending {l : List Date} (h : l.Pairwise (· < ·)) : l.Nodup := by
  apply h.imp
  intro d e hlt heq
  exact Date.lt_irrefl d (heq ▸ hlt)

theorem Date.eq_of_mem_iff {l m : List Date} (hl : l.Pairwise (· < ·)) (hm : m.Pairwise (· < ·))
    (h : ∀ d, d ∈ l ↔ d ∈ m) : l = m := by
  have : Std.Irrefl (α := Date) (· < ·) := ⟨Date.lt_irrefl⟩
  have : Std.Antisymm (α := Date) (· < ·) :=
    ⟨fun d _ hlt hlt' => absurd (Date.lt_trans hlt hlt') (Date.lt_irrefl d)⟩
  exact hl.eq_of_mem_iff hm h

namespace Chronicle

variable {ν : Type u} {μ : Type v}

theorem eq_of_days_eq {c e : Chronicle ν} (h : c.days = e.days) : c = e := by
  cases c
  cases e
  simpa using h

theorem lastDate?_eq (c : Chronicle ν) : c.lastDate? = c.dates.getLast? := by
  simp [lastDate?, last?, dates, List.getLast?_map]

theorem later?_eq_of_dates_eq {c : Chronicle ν} {e : Chronicle μ} (h : c.dates = e.dates)
    (d : Date) : c.later? d = e.later? d := by
  rw [later?, later?, lastDate?_eq, lastDate?_eq, h]

theorem later?_eq_none {c : Chronicle ν} {d : Date} (h : ∀ e ∈ c.dates, e < d) :
    c.later? d = none := by
  rw [later?, lastDate?_eq, Option.filter_eq_none_iff]
  intro e he hlt
  have hlast : e < d := h e (List.mem_of_getLast? he)
  exact Date.lt_irrefl e (Date.lt_trans hlast (by simpa using hlt))

theorem days_put_of_forall_lt {c : Chronicle ν} {d : Date} (v : ν) (h : ∀ e ∈ c.dates, e < d) :
    (c.put d v).days = c.days ++ [(d, v)] := by
  have hall : c.days.takeWhile (·.1 < d) = c.days := by
    have hlt : ∀ e ∈ c.days, decide (e.1 < d) = true := by
      intro e he
      simpa using h e.1 (List.mem_map.mpr ⟨e, he, rfl⟩)
    exact List.takeWhile_eq_self_iff.mpr hlt
  simp [put, replaceFrom, hall]

theorem dates_put (c : Chronicle ν) (d : Date) (v : ν) :
    (c.put d v).dates = c.dates.takeWhile (· < d) ++ [d] := by
  simp [put, replaceFrom, dates, List.takeWhile_map, Function.comp_def]

theorem mem_dates_put_self (c : Chronicle ν) (d : Date) (v : ν) : d ∈ (c.put d v).dates := by
  rw [dates_put]
  exact List.mem_append_right _ (List.mem_singleton_self d)

/-- After a day was written, no day before it counts as later. -/
theorem later?_put (c : Chronicle ν) {d e : Date} (v : ν) (h : ¬ e < d) :
    (c.put d v).later? e = none := by
  rw [later?, lastDate?_eq, dates_put, List.getLast?_append, List.getLast?_singleton]
  simpa using h

theorem eq_or_mem_of_mem_dates_put {c : Chronicle ν} {d e : Date} {v : ν}
    (h : e ∈ (c.put d v).dates) : e = d ∨ e ∈ c.dates := by
  rw [dates_put] at h
  rcases List.mem_append.mp h with h | h
  · exact Or.inr ((List.takeWhile_prefix _).subset h)
  · exact Or.inl (List.mem_singleton.mp h)

theorem find?_append (d : Date) (l m : List (Date × ν)) :
    find? d (l ++ m) = (find? d l).or (find? d m) := by
  induction l with
  | nil => simp [find?]
  | cons e l ih =>
    by_cases he : e.1 = d
    · simp [find?, he]
    · simp [find?, he, ih]

theorem find?_eq_none {d : Date} {l : List (Date × ν)} (h : ∀ e ∈ l, e.1 ≠ d) :
    find? d l = none := by
  induction l with
  | nil => rfl
  | cons e l ih =>
    have he : e.1 ≠ d := h e List.mem_cons_self
    simpa [find?, he] using ih fun f hf => h f (List.mem_cons_of_mem _ hf)

theorem find?_takeWhile {d e : Date} (h : e < d) {l : List (Date × ν)}
    (hl : (l.map Prod.fst).Pairwise (· < ·)) : find? e (l.takeWhile (·.1 < d)) = find? e l := by
  induction l with
  | nil => rfl
  | cons x l ih =>
    simp only [List.map_cons, List.pairwise_cons] at hl
    by_cases hx : x.1 < d
    · simp only [List.takeWhile_cons, hx, decide_true, if_true, find?]
      rw [ih hl.2]
    · have hne : ∀ y ∈ x :: l, y.1 ≠ e := by
        intro y hy hye
        subst hye
        rcases List.mem_cons.mp hy with rfl | hy
        · exact hx h
        · exact hx (Date.lt_trans (hl.1 y.1 (List.mem_map.mpr ⟨y, hy, rfl⟩)) h)
      rw [find?_eq_none hne]
      simp [hx, find?]

theorem mem_of_find? {d : Date} {v : ν} {l : List (Date × ν)} (h : find? d l = some v) :
    (d, v) ∈ l := by
  induction l with
  | nil => simp [find?] at h
  | cons e l ih =>
    by_cases he : e.1 = d
    · obtain rfl : e.2 = v := by simpa [find?, he] using h
      exact he ▸ List.mem_cons_self
    · exact List.mem_cons_of_mem _ (ih (by simpa [find?, he] using h))

theorem find?_of_mem {d : Date} {v : ν} {l : List (Date × ν)}
    (hl : (l.map Prod.fst).Pairwise (· < ·)) (h : (d, v) ∈ l) : find? d l = some v := by
  induction l with
  | nil => exact absurd h List.not_mem_nil
  | cons e l ih =>
    obtain ⟨hfirst, hlater⟩ := List.pairwise_cons.mp hl
    rcases List.mem_cons.mp h with rfl | h
    · exact if_pos rfl
    · have hlt : e.1 < d := hfirst d (List.mem_map_of_mem h)
      have hne : e.1 ≠ d := by
        rintro rfl
        exact Date.lt_irrefl _ hlt
      rw [find?, if_neg hne]
      exact ih hlater h

theorem get?_eq_some_iff {c : Chronicle ν} {d : Date} {v : ν} :
    c.get? d = some v ↔ (d, v) ∈ c.days :=
  ⟨mem_of_find?, find?_of_mem c.ascending⟩

theorem get?_put_self (c : Chronicle ν) (d : Date) (v : ν) : (c.put d v).get? d = some v := by
  have hbefore : find? d (c.days.takeWhile (·.1 < d)) = none := by
    apply find?_eq_none
    intro e he hed
    have hlt : e.1 < d := lt_of_mem_takeWhile he
    exact Date.lt_irrefl d (by rwa [hed] at hlt)
  simp [get?, put, replaceFrom, find?_append, hbefore, find?]

theorem get?_put_of_lt (c : Chronicle ν) {d e : Date} (v : ν) (h : e < d) :
    (c.put d v).get? e = c.get? e := by
  have hne : d ≠ e := by
    rintro rfl
    exact Date.lt_irrefl d h
  simp [get?, put, replaceFrom, find?_append, find?, hne, find?_takeWhile h c.ascending]

theorem get?_put_of_gt (c : Chronicle ν) {d e : Date} (v : ν) (h : d < e) :
    (c.put d v).get? e = none := by
  apply find?_eq_none
  intro x hx hxe
  subst hxe
  rcases List.mem_append.mp hx with hx | hx
  · exact Date.lt_irrefl d (Date.lt_trans h (lt_of_mem_takeWhile hx))
  · rw [List.mem_singleton.mp hx] at h
    exact Date.lt_irrefl d h

@[simp] theorem put_put (c : Chronicle ν) (d : Date) (v w : ν) : (c.put d v).put d w = c.put d w := by
  have hbefore : ∀ e ∈ c.days.takeWhile (·.1 < d), decide (e.1 < d) = true := by
    intro e he
    simpa using lt_of_mem_takeWhile he
  apply eq_of_days_eq
  simp only [put, replaceFrom]
  rw [List.takeWhile_append_of_pos hbefore]
  simp [Date.lt_irrefl]

theorem days_put_of_last {c : Chronicle ν} {d : Date} {l : List (Date × ν)} {w : ν}
    (h : c.days = l ++ [(d, w)]) (v : ν) : (c.put d v).days = l ++ [(d, v)] := by
  have hascending := c.ascending
  rw [h, List.map_append, List.pairwise_append] at hascending
  have hbefore : ∀ e ∈ l, decide (e.1 < d) = true := by
    intro e he
    simpa using hascending.2.2 e.1 (List.mem_map_of_mem he) d (by simp)
  have htake : (l ++ [(d, w)]).takeWhile (·.1 < d) = l := by
    rw [List.takeWhile_append_of_pos hbefore]
    simp [Date.lt_irrefl]
  simp [put, replaceFrom, h, htake]

/-- Where a day may be written, the last day is that day or an earlier one. -/
theorem last_le_of_later? {c : Chronicle ν} {d last : Date} (h : c.later? d = none)
    (hlast : c.lastDate? = some last) : last < d ∨ last = d := by
  rw [later?, hlast, Option.filter_eq_none_iff] at h
  have hnot : ¬ d < last := by simpa using h last rfl
  exact Date.lt_or_eq_of_not_lt hnot |>.imp id Eq.symm

/-- Where a day may be written, no later day has been written at all. -/
theorem not_lt_of_later? {c : Chronicle ν} {d e : Date} (h : c.later? d = none)
    (he : e ∈ c.dates) : ¬ d < e := by
  intro hlt
  have hascending : c.dates.Pairwise (· < ·) := c.ascending
  rw [later?, lastDate?_eq, Option.filter_eq_none_iff] at h
  rcases List.eq_nil_or_concat c.dates with hnil | ⟨l, last, hdates⟩
  · simp [hnil] at he
  · have hlast : ¬ d < last := by simpa using h last (by simp [hdates])
    rw [hdates, List.concat_eq_append] at he hascending
    rcases List.mem_append.mp he with he | he
    · exact hlast (Date.lt_trans hlt ((List.pairwise_append.mp hascending).2.2 e he last (by simp)))
    · exact hlast (List.mem_singleton.mp he ▸ hlt)

/-- A new day comes after all that have been written. -/
theorem lt_of_later? {c : Chronicle ν} {d e : Date} (h : c.later? d = none) (hd : d ∉ c.dates)
    (he : e ∈ c.dates) : e < d := by
  refine (Date.lt_or_eq_of_not_lt (not_lt_of_later? h he)).resolve_right ?_
  rintro rfl
  exact hd he

theorem later?_eq_none_of_subset {c : Chronicle ν} {c' : Chronicle μ} {d : Date}
    (h : ∀ e ∈ c.dates, e ∈ c'.dates) (hc' : c'.later? d = none) : c.later? d = none := by
  rw [later?, lastDate?_eq, Option.filter_eq_none_iff]
  intro e he
  simpa using not_lt_of_later? hc' (h e (List.mem_of_getLast? he))

theorem later?_eq_some_iff {c : Chronicle ν} {d last : Date} :
    c.later? d = some last ↔ c.lastDate? = some last ∧ d < last := by
  simp [later?, Option.filter_eq_some_iff]

/-- What can be read after a day is written is that day or was there before it. -/
theorem eq_or_of_get?_put {c : Chronicle ν} {d e : Date} {v w : ν}
    (h : (c.put d v).get? e = some w) : e = d ∧ w = v ∨ e < d ∧ c.get? e = some w := by
  by_cases hlt : e < d
  · rw [get?_put_of_lt c v hlt] at h
    exact Or.inr ⟨hlt, h⟩
  · rcases Date.lt_or_eq_of_not_lt hlt with hgt | rfl
    · rw [get?_put_of_gt c v hgt] at h
      simp at h
    · rw [get?_put_self] at h
      exact Or.inl ⟨rfl, (Option.some.inj h).symm⟩

/-- Every value is one of `P`. -/
def All (P : ν → Prop) (c : Chronicle ν) : Prop := ∀ e ∈ c.days, P e.2

namespace All

variable {P : ν → Prop} {c : Chronicle ν}

theorem get? (h : c.All P) {d : Date} {v : ν} (hv : c.get? d = some v) : P v :=
  h (d, v) (mem_of_find? hv)

theorem put (h : c.All P) (d : Date) {v : ν} (hv : P v) : (c.put d v).All P := by
  intro e he
  rcases List.mem_append.mp he with he | he
  · exact h e ((List.takeWhile_sublist _).subset he)
  · obtain rfl := List.mem_singleton.mp he
    exact hv

end All

/-- Days were added behind the last one, and only the value of the last one may have changed. -/
structure Continues (c e : Chronicle ν) : Prop where
  dates : c.dates <+: e.dates
  settled : c.days.dropLast <+: e.days

namespace Continues

variable {c e f : Chronicle ν}

theorem refl (c : Chronicle ν) : c.Continues c := ⟨List.prefix_rfl, List.dropLast_prefix _⟩

theorem trans (h : c.Continues e) (h' : e.Continues f) : c.Continues f where
  dates := h.dates.trans h'.dates
  settled := by
    have hlength : c.days.length ≤ e.days.length := by
      simpa [Chronicle.dates] using h.dates.length_le
    have hsettled : c.days.dropLast <+: e.days.dropLast := by
      apply List.prefix_of_prefix_length_le h.settled (List.dropLast_prefix _)
      rw [List.length_dropLast, List.length_dropLast]
      omega
    exact hsettled.trans h'.settled

/-- A day is written where no later one has been. -/
theorem put {d : Date} (h : c.later? d = none) (v : ν) : c.Continues (c.put d v) := by
  rcases List.eq_nil_or_concat c.days with hnil | ⟨l, ⟨last, w⟩, hdays⟩
  · constructor
    · rw [Chronicle.dates, hnil]
      exact List.nil_prefix
    · rw [hnil]
      exact List.nil_prefix
  rw [List.concat_eq_append] at hdays
  have hlast : c.lastDate? = some last := by
    rw [lastDate?, last?, hdays, List.getLast?_append]
    rfl
  rcases last_le_of_later? h hlast with hlt | rfl
  · have hall : ∀ x ∈ c.dates, x < d := by
      have hascending := c.ascending
      rw [hdays, List.map_append, List.pairwise_append] at hascending
      intro x hx
      rw [Chronicle.dates, hdays, List.map_append] at hx
      rcases List.mem_append.mp hx with hx | hx
      · exact Date.lt_trans (hascending.2.2 x hx last (by simp)) hlt
      · rw [List.mem_singleton.mp hx]
        exact hlt
    constructor
    · rw [Chronicle.dates, Chronicle.dates, days_put_of_forall_lt v hall, List.map_append]
      exact List.prefix_append _ _
    · rw [days_put_of_forall_lt v hall]
      exact (List.dropLast_prefix _).trans (List.prefix_append _ _)
  · constructor
    · rw [Chronicle.dates, Chronicle.dates, days_put_of_last hdays, hdays, List.map_append,
        List.map_append]
      exact List.prefix_rfl
    · rw [days_put_of_last hdays, hdays, List.dropLast_concat]
      exact List.prefix_append _ _

/-- What stands before the last day stands there for good. -/
theorem get?_eq (h : c.Continues e) {d last : Date} (hlast : c.lastDate? = some last)
    (hd : d < last) : e.get? d = c.get? d := by
  rcases List.eq_nil_or_concat c.days with hnil | ⟨l, ⟨x, w⟩, hdays⟩
  · rw [lastDate?, last?, hnil] at hlast
    simp at hlast
  rw [List.concat_eq_append] at hdays
  obtain rfl : x = last := by
    rw [lastDate?, last?, hdays, List.getLast?_append] at hlast
    exact Option.some.inj hlast
  obtain ⟨m, hm⟩ := h.settled
  rw [hdays, List.dropLast_concat] at hm
  have hnone : find? d m = none := by
    obtain ⟨k, hk⟩ := h.dates
    rw [Chronicle.dates, Chronicle.dates, hdays, ← hm, List.map_append, List.map_append,
      List.append_assoc] at hk
    have hbehind : m.map Prod.fst = x :: k := (List.append_cancel_left hk).symm
    have hascending := e.ascending
    rw [← hm, List.map_append, List.pairwise_append, hbehind, List.pairwise_cons] at hascending
    apply find?_eq_none
    intro y hy hyd
    have hmem : y.1 ∈ x :: k := hbehind ▸ List.mem_map_of_mem hy
    rw [hyd] at hmem
    rcases List.mem_cons.mp hmem with rfl | hmem
    · exact Date.lt_irrefl d hd
    · exact Date.lt_irrefl d (Date.lt_trans hd (hascending.2.1.1 d hmem))
  have hne : x ≠ d := by
    rintro rfl
    exact Date.lt_irrefl x hd
  rw [get?, get?, ← hm, hdays, find?_append, find?_append, hnone]
  simp [find?, hne]

end Continues
end Chronicle
end Backtesting
