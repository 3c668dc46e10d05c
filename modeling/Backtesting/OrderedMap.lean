/-!
Maps that remember the order in which their keys were first put. A key that is put again keeps its
place and takes the new value; no key occurs twice.
-/
namespace Backtesting

structure OrderedMap (κ : Type u) (ν : Type v) where
  toList : List (κ × ν)
  nodup : (toList.map Prod.fst).Nodup
deriving DecidableEq

namespace OrderedMap

variable {κ : Type u} {ν : Type v}

def empty : OrderedMap κ ν := ⟨[], by simp⟩

instance : Inhabited (OrderedMap κ ν) := ⟨empty⟩

def keys (m : OrderedMap κ ν) : List κ := m.toList.map Prod.fst

def values (m : OrderedMap κ ν) : List ν := m.toList.map Prod.snd

def size (m : OrderedMap κ ν) : Nat := m.toList.length

def isEmpty (m : OrderedMap κ ν) : Bool := m.toList.isEmpty

def mapValues (f : κ → ν → μ) (m : OrderedMap κ ν) : OrderedMap κ μ :=
  ⟨m.toList.map fun (k, v) => (k, f k v), by
    simpa [List.map_map, Function.comp_def] using m.nodup⟩

variable [DecidableEq κ]

def find? (k : κ) : List (κ × ν) → Option ν
  | [] => none
  | e :: l => if e.1 = k then some e.2 else find? k l

def get? (m : OrderedMap κ ν) (k : κ) : Option ν := find? k m.toList

def getD (m : OrderedMap κ ν) (k : κ) (v : ν) : ν := (m.get? k).getD v

def contains (m : OrderedMap κ ν) (k : κ) : Bool := (m.get? k).isSome

def putList (k : κ) (v : ν) : List (κ × ν) → List (κ × ν)
  | [] => [(k, v)]
  | e :: l => if e.1 = k then (k, v) :: l else e :: putList k v l

theorem map_fst_putList (k : κ) (v : ν) (l : List (κ × ν)) :
    (putList k v l).map Prod.fst =
      if k ∈ l.map Prod.fst then l.map Prod.fst else l.map Prod.fst ++ [k] := by
  induction l with
  | nil => simp [putList]
  | cons e l ih =>
    by_cases h : e.1 = k
    · simp [putList, h]
    · have h' : ¬ k = e.1 := fun hk => h hk.symm
      simp only [putList, h, if_false, List.map_cons, ih, List.mem_cons, h', false_or]
      split <;> simp

theorem nodup_putList (k : κ) (v : ν) (l : List (κ × ν)) (h : (l.map Prod.fst).Nodup) :
    ((putList k v l).map Prod.fst).Nodup := by
  rw [map_fst_putList]
  split
  · exact h
  · next hk =>
    rw [List.nodup_append]
    refine ⟨h, by simp, fun a ha b hb => ?_⟩
    rw [List.mem_singleton.mp hb]
    exact fun hab => hk (hab ▸ ha)

def put (m : OrderedMap κ ν) (k : κ) (v : ν) : OrderedMap κ ν :=
  ⟨putList k v m.toList, nodup_putList k v m.toList m.nodup⟩

def putAll (m : OrderedMap κ ν) (l : List (κ × ν)) : OrderedMap κ ν :=
  l.foldl (fun m e => m.put e.1 e.2) m

def ofList (l : List (κ × ν)) : OrderedMap κ ν := empty.putAll l

/-- The map without the entry of a key. -/
def erase (m : OrderedMap κ ν) (k : κ) : OrderedMap κ ν :=
  ⟨m.toList.filter (·.1 ≠ k), m.nodup.sublist (List.filter_sublist.map _)⟩

theorem find?_putList (k k' : κ) (v : ν) (l : List (κ × ν)) :
    find? k' (putList k v l) = if k' = k then some v else find? k' l := by
  induction l with
  | nil => by_cases h : k = k' <;> simp [putList, find?, h, eq_comm]
  | cons e l ih =>
    by_cases he : e.1 = k
    · by_cases h : k = k' <;> simp [putList, find?, he, h, eq_comm]
    · by_cases h : e.1 = k'
      · have h' : ¬ k' = k := h ▸ he
        simp [putList, find?, h, h']
      · simp [putList, find?, he, h, ih]

@[simp] theorem get?_put (m : OrderedMap κ ν) (k k' : κ) (v : ν) :
    (m.put k v).get? k' = if k' = k then some v else m.get? k' :=
  find?_putList k k' v m.toList

theorem keys_put (m : OrderedMap κ ν) (k : κ) (v : ν) :
    (m.put k v).keys = if k ∈ m.keys then m.keys else m.keys ++ [k] :=
  map_fst_putList k v m.toList

omit [DecidableEq κ] in
@[simp] theorem keys_mapValues (m : OrderedMap κ ν) (f : κ → ν → μ) :
    (m.mapValues f).keys = m.keys := by
  simp [keys, mapValues, List.map_map, Function.comp_def]

end OrderedMap
end Backtesting
