import Backtesting.Calendar.Date

/-!
Values by day, in the order of the days. Only the last day may be written again, which replaces its
value; an earlier day is refused, so the days are always strictly ascending.
-/
namespace Backtesting

structure Chronicle (ν : Type u) where
  days : List (Date × ν)
  ascending : (days.map Prod.fst).Pairwise (· < ·)

namespace Chronicle

variable {ν : Type u}

def empty : Chronicle ν := ⟨[], by simp⟩

instance : Inhabited (Chronicle ν) := ⟨empty⟩

def dates (c : Chronicle ν) : List Date := c.days.map Prod.fst

def values (c : Chronicle ν) : List ν := c.days.map Prod.snd

def size (c : Chronicle ν) : Nat := c.days.length

def last? (c : Chronicle ν) : Option (Date × ν) := c.days.getLast?

def lastDate? (c : Chronicle ν) : Option Date := c.last?.map Prod.fst

def find? (d : Date) : List (Date × ν) → Option ν
  | [] => none
  | e :: l => if e.1 = d then some e.2 else find? d l

def get? (c : Chronicle ν) (d : Date) : Option ν := find? d c.days

def contains (c : Chronicle ν) (d : Date) : Bool := (c.get? d).isSome

/-- The days before `d`, then `d`. -/
def replaceFrom (d : Date) (v : ν) (l : List (Date × ν)) : List (Date × ν) :=
  l.takeWhile (·.1 < d) ++ [(d, v)]

theorem lt_of_mem_takeWhile {d : Date} {l : List (Date × ν)} {e : Date × ν}
    (h : e ∈ l.takeWhile (·.1 < d)) : e.1 < d := by
  induction l with
  | nil => simp at h
  | cons x l ih =>
    by_cases hx : x.1 < d
    · simp only [List.takeWhile_cons, hx, decide_true, if_true, List.mem_cons] at h
      rcases h with rfl | h
      · exact hx
      · exact ih h
    · simp [hx] at h

theorem ascending_replaceFrom (d : Date) (v : ν) {l : List (Date × ν)}
    (h : (l.map Prod.fst).Pairwise (· < ·)) :
    ((replaceFrom d v l).map Prod.fst).Pairwise (· < ·) := by
  rw [replaceFrom, List.map_append, List.pairwise_append]
  refine ⟨h.sublist ((List.takeWhile_sublist _).map _), by simp, ?_⟩
  intro a ha b hb
  obtain ⟨e, he, rfl⟩ := List.mem_map.mp ha
  have hb : b = d := by simpa using hb
  exact hb ▸ lt_of_mem_takeWhile he

/-- The last day, when it is later than `d`: then nothing may be written on `d` any more. -/
def later? (c : Chronicle ν) (d : Date) : Option Date := c.lastDate?.filter (d < ·)

/-- The chronicle that ends with `v` on day `d`. -/
def put (c : Chronicle ν) (d : Date) (v : ν) : Chronicle ν :=
  ⟨replaceFrom d v c.days, ascending_replaceFrom d v c.ascending⟩

def mapValues (f : Date → ν → μ) (c : Chronicle ν) : Chronicle μ :=
  ⟨c.days.map fun (d, v) => (d, f d v), by
    simpa [List.map_map, Function.comp_def] using c.ascending⟩

/-- Changes values from the first day on. `f` gives `none` where there is nothing to change; where
it fails, the days from there on stay as they are. The result counts the changed days. -/
def reviseList (f : ν → Except ε (Option ν)) : List (Date × ν) → List (Date × ν) × Except ε Nat
  | [] => ([], .ok 0)
  | (d, v) :: l =>
      match f v with
      | .error e => ((d, v) :: l, .error e)
      | .ok none => ((d, v) :: (reviseList f l).1, (reviseList f l).2)
      | .ok (some w) => ((d, w) :: (reviseList f l).1, (reviseList f l).2.map (· + 1))

theorem dates_reviseList (f : ν → Except ε (Option ν)) (l : List (Date × ν)) :
    (reviseList f l).1.map Prod.fst = l.map Prod.fst := by
  induction l with
  | nil => rfl
  | cons e l ih =>
    obtain ⟨d, v⟩ := e
    unfold reviseList
    split <;> simp [ih]

def revise (f : ν → Except ε (Option ν)) (c : Chronicle ν) : Chronicle ν × Except ε Nat :=
  (⟨(reviseList f c.days).1, by rw [dates_reviseList]; exact c.ascending⟩,
    (reviseList f c.days).2)

@[simp] theorem dates_revise (f : ν → Except ε (Option ν)) (c : Chronicle ν) :
    (c.revise f).1.dates = c.dates := dates_reviseList f c.days

end Chronicle
end Backtesting
