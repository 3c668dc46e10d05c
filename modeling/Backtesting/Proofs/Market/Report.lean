import Backtesting.Proofs.Chronicle
import Backtesting.Proofs.Market.Row

/-!
Feeds that report rows. A day is read from its rows, one entry for each of them, so it has the keys that
its rows name in the order of the first ones, and of several rows for one key the last one counts. Read
day by day, the feed ends before the first day with an unreadable row. Where no day has two rows for one
key, the order of the rows does not matter.
-/
namespace Backtesting

namespace MarketTables

section Days

variable {κ ν : Type} [DecidableEq κ] {rows : List DatedRow} {names : DatedRow → κ → Prop}
  {shows : DatedRow → ν → Prop}

/-- A day read from its rows, entry by entry. -/
def readDay (read : DatedRow → Except Error (κ × ν)) (rows : List DatedRow) (d : Date) :
    Except Error (Date × OrderedMap κ ν) := do
  let entries ← rows.mapM read
  pure (d, OrderedMap.ofList entries)

variable {read : DatedRow → Except Error (κ × ν)}
  (hread : ∀ {r k v}, read r = .ok (k, v) ↔ names r k ∧ shows r v)
  (hkey : ∀ {r j k}, names r j → names r k → j = k)

include hread

theorem exists_readDay (hnamed : ∀ r ∈ rows, ∃ k, names r k) {d : Date} :
    (∃ x, readDay read rows d = .ok x) ↔ ∀ r ∈ rows, ∃ v, shows r v := by
  constructor
  · intro h r hr
    obtain ⟨x, hx⟩ := h
    obtain ⟨entries, hentries, -⟩ := Except.bind_eq_ok.mp hx
    obtain ⟨⟨k, v⟩, -, hv⟩ := Except.exists_mem_of_mapM hentries hr
    exact ⟨v, (hread.mp hv).2⟩
  · intro h
    obtain ⟨entries, hentries⟩ := Except.exists_mapM (f := read) (l := rows) fun r hr => by
      obtain ⟨k, hk⟩ := hnamed r hr
      obtain ⟨v, hv⟩ := h r hr
      exact ⟨(k, v), hread.mpr ⟨hk, hv⟩⟩
    exact ⟨_, Except.bind_eq_ok.mpr ⟨entries, hentries, rfl⟩⟩

include hkey

/-- A day has the keys that its rows name. -/
theorem mem_keys_readDay {d e : Date} {m : OrderedMap κ ν} (h : readDay read rows d = .ok (e, m))
    (k : κ) : k ∈ m.keys ↔ ∃ r ∈ rows, names r k := by
  obtain ⟨entries, hentries, h⟩ := Except.bind_eq_ok.mp h
  obtain ⟨-, rfl⟩ := Prod.mk.inj (Except.pure_eq_ok.mp h)
  rw [OrderedMap.mem_keys_ofList, List.mem_map]
  constructor
  · intro hk
    obtain ⟨e, he, rfl⟩ := hk
    obtain ⟨r, hr, hre⟩ := Except.mem_of_mapM hentries he
    exact ⟨r, hr, (hread.mp hre).1⟩
  · intro hk
    obtain ⟨r, hr, hrk⟩ := hk
    obtain ⟨e, he, hre⟩ := Except.exists_mem_of_mapM hentries hr
    exact ⟨e, he, hkey (hread.mp hre).1 hrk⟩

/-- In a list of rows, some row names the first key before any row names the second one. -/
def ComesFirst (rows : List DatedRow) (names : DatedRow → κ → Prop) (j k : κ) : Prop :=
  ∃ before r after, rows = before ++ r :: after ∧ names r j ∧ ∀ s ∈ before, ¬ names s k

/-- The keys of a day come in the order of their first rows. -/
theorem pairwise_keys_readDay {d e : Date}
    {m : OrderedMap κ ν} (h : readDay read rows d = .ok (e, m)) :
    m.keys.Pairwise (ComesFirst rows names) := by
  obtain ⟨entries, hentries, h⟩ := Except.bind_eq_ok.mp h
  obtain ⟨-, rfl⟩ := Prod.mk.inj (Except.pure_eq_ok.mp h)
  have hpairs := Except.mapM_eq_ok.mp hentries
  apply (OrderedMap.pairwise_keys_ofList entries).imp
  intro j k h
  obtain ⟨l₁, x, l₂, rfl, rfl, hbefore⟩ := h
  have hsplit := List.take_append_drop l₁.length rows
  have hfirst := List.forall₂_take_append rows l₁ (x :: l₂) hpairs
  have hrest := List.forall₂_drop_append rows l₁ (x :: l₂) hpairs
  obtain ⟨r, after, hr, -, hdrop⟩ := List.forall₂_cons_right_iff.mp hrest
  refine ⟨rows.take l₁.length, r, after, by rw [← hdrop, hsplit], (hread.mp hr).1, ?_⟩
  intro s hs hsk
  obtain ⟨y, hy, hsy⟩ := Except.exists_mem_of_mapM (Except.mapM_eq_ok.mpr hfirst) hs
  exact hbefore y hy (hkey (hread.mp hsy).1 hsk)

end Days

/-- The rows of a day that name a key. -/
def rowsFor {κ : Type} (rows : List DatedRow) (names : DatedRow → κ → Prop)
    [∀ r k, Decidable (names r k)] (d : Date) (k : κ) : List DatedRow :=
  rows.filter fun r => r.date = d ∧ names r k

/-- A feed that says what rows show: its days come in order and each once, they are those with a row
that have no unreadable row on them or before them, and on a day there is, under each key, what that of
its rows shows that counts. It fails as the retrieval of data does, and only for an unreadable row. -/
structure Reports {κ ν : Type} [DecidableEq κ] (rows : List DatedRow) (names : DatedRow → κ → Prop)
    [∀ r k, Decidable (names r k)] (shows : DatedRow → ν → Prop)
    (counts : List DatedRow → Option DatedRow) (feed : Feed (Date × OrderedMap κ ν)) : Prop where
  ascends : feed.dates.Pairwise (· < ·)
  mem_dates : ∀ d, d ∈ feed.dates ↔ (∃ r ∈ rows, r.date = d) ∧
    ∀ r ∈ rows, ¬ d < r.date → ∃ v, shows r v
  keys : ∀ d m, (d, m) ∈ feed.items → ∀ k, k ∈ m.keys ↔ ∃ r ∈ rows, r.date = d ∧ names r k
  entries : ∀ d m, (d, m) ∈ feed.items → ∀ k v, m.get? k = some v ↔
    ∃ r, counts (rowsFor rows names d k) = some r ∧ shows r v
  fails_iff : feed.failure ≠ none ↔ ∃ r ∈ rows, ∀ v, ¬ shows r v
  label : ∀ e, feed.failure = some e → e.label? = some "MarketDataRetrievalError"

section Reports

variable {κ ν : Type} [DecidableEq κ] {rows : List DatedRow} {names : DatedRow → κ → Prop}
  [∀ r k, Decidable (names r k)] {shows : DatedRow → ν → Prop}
  {counts : List DatedRow → Option DatedRow} {read : DatedRow → Except Error (κ × ν)}
  (hread : ∀ {r k v}, read r = .ok (k, v) ↔ names r k ∧ shows r v)
  (hkey : ∀ {r j k}, names r j → names r k → j = k)

include hread hkey

/-- Of a day, the last row of each key counts. -/
theorem get?_readDay {d e : Date} {m : OrderedMap κ ν} (h : readDay read rows d = .ok (e, m)) (k : κ)
    (v : ν) : m.get? k = some v ↔
      ∃ r, (rows.filter (names · k)).getLast? = some r ∧ shows r v := by
  obtain ⟨entries, hentries, h⟩ := Except.bind_eq_ok.mp h
  obtain ⟨-, rfl⟩ := Prod.mk.inj (Except.pure_eq_ok.mp h)
  have hpairs : List.Forall₂ (fun r e => read r = .ok e) (rows.filter (names · k))
      (entries.filter (·.1 = k)) := by
    refine List.rel_filter ?_ (Except.mapM_eq_ok.mp hentries)
    intro r e hre
    have hnames := (hread.mp hre).1
    by_cases hk : e.1 = k
    · simp [hk, hk ▸ hnames]
    · have hnot : ¬ names r k := fun hrk => hk (hkey hnames hrk)
      simp [hk, hnot]
  rw [OrderedMap.get?_ofList]
  have hlast := rel_getLast? hpairs
  generalize (rows.filter (names · k)).getLast? = x at hlast
  generalize (entries.filter (·.1 = k)).getLast? = y at hlast
  cases hlast with
  | none => simp
  | @some r e hre =>
    constructor
    · intro hv
      obtain rfl : e.2 = v := Option.some.inj hv
      exact ⟨r, rfl, (hread.mp hre).2⟩
    · intro hv
      obtain ⟨r', hr', hv⟩ := hv
      obtain rfl := Option.some.inj hr'
      have hboth := hread.mpr ⟨(hread.mp hre).1, hv⟩
      rw [hre] at hboth
      exact congrArg (some ·.2) (Except.ok.inj hboth)

/-- Days read one after another report their rows, if each day is read from its own rows, of those that
name a key the one that counts last. -/
theorem reports_mapUntil {on : Date → List DatedRow}
    (hnamed : ∀ r ∈ rows, ∃ k, names r k)
    (hlabel : ∀ r ∈ rows, ∀ e, read r = .error e → e.label? = some "MarketDataRetrievalError")
    (hmem : ∀ {r d}, r ∈ on d ↔ r ∈ rows ∧ r.date = d)
    (hon : ∀ d k, ((on d).filter (names · k)).getLast? = counts (rowsFor rows names d k)) :
    Reports rows names shows counts
      (Feed.mapUntil (fun d => readDay read (on d) d) (Date.sortedSet (rows.map DatedRow.date))) := by
  have hdate : ∀ {d x}, readDay read (on d) d = .ok x → x.1 = d := by
    intro d x hx
    obtain ⟨entries, -, hx⟩ := Except.bind_eq_ok.mp hx
    rw [← Except.pure_eq_ok.mp hx]
  have hday : ∀ d, (∃ x, readDay read (on d) d = .ok x) ↔
      ∀ r ∈ rows, r.date = d → ∃ v, shows r v := by
    intro d
    rw [exists_readDay hread fun r hr => hnamed r (hmem.mp hr).1]
    exact ⟨fun h r hr hd => h r (hmem.mpr ⟨hr, hd⟩), fun h r hr => h r (hmem.mp hr).1 (hmem.mp hr).2⟩
  have hsorted := Date.pairwise_sortedSet (rows.map DatedRow.date)
  have hdates : ∀ d, d ∈ Date.sortedSet (rows.map DatedRow.date) ↔ ∃ r ∈ rows, r.date = d := by
    intro d
    rw [Date.mem_sortedSet, List.mem_map]
  constructor
  case ascends => exact List.pairwise_map.mpr (Feed.ascends_mapUntil hdate hsorted)
  case mem_dates =>
    intro d
    rw [Feed.mem_dates_mapUntil hdate hsorted, hdates]
    refine and_congr_right fun _ => ?_
    constructor
    · intro h r hr hd
      exact (hday r.date).mp (h r.date ((hdates r.date).mpr ⟨r, hr, rfl⟩) hd) r hr rfl
    · intro h e _ hd
      exact (hday e).mpr fun r hr he => h r hr (he ▸ hd)
  case keys =>
    intro d m hm k
    obtain ⟨d', -, hd'⟩ := Feed.exists_of_mem_mapUntil hm
    obtain rfl : d = d' := hdate hd'
    rw [mem_keys_readDay hread hkey hd']
    simp only [hmem, and_assoc]
  case entries =>
    intro d m hm k v
    obtain ⟨d', -, hd'⟩ := Feed.exists_of_mem_mapUntil hm
    obtain rfl : d = d' := hdate hd'
    rw [get?_readDay hread hkey hd', hon d k]
  case fails_iff =>
    rw [Ne, Feed.failure_mapUntil_eq_none]
    constructor
    · intro h
      by_contra hnot
      refine h fun d _ => (hday d).mpr fun r hr _ => ?_
      by_contra hv
      exact hnot ⟨r, hr, fun v hshows => hv ⟨v, hshows⟩⟩
    · intro h hall
      obtain ⟨r, hr, hnone⟩ := h
      obtain ⟨v, hv⟩ := (hday r.date).mp (hall r.date ((hdates r.date).mpr ⟨r, hr, rfl⟩)) r hr rfl
      exact hnone v hv
  case label =>
    intro e he
    obtain ⟨d, -, hd⟩ := Feed.exists_of_failure_mapUntil he
    rcases Except.bind_eq_error.mp hd with hentries | ⟨entries, -, hpure⟩
    · have hfails : Except.FailsOnly (fun e => e.label? = some "MarketDataRetrievalError")
          ((on d).mapM read) :=
        Except.FailsOnly.mapM fun r hr e' he' => hlabel r (hmem.mp hr).1 e' he'
      exact hfails e hentries
    · cases hpure

end Reports

section Same

variable {κ ν : Type} {rows rows' : List DatedRow} {names : DatedRow → κ → Prop}
  [∀ r k, Decidable (names r k)] {shows : DatedRow → ν → Prop}
  {counts : List DatedRow → Option DatedRow}

/-- Feeds of the same days with the same entries on each, in whatever order, that both come to their
end or both fail. -/
def SameDays [DecidableEq κ] (feed feed' : Feed (Date × OrderedMap κ ν)) : Prop :=
  List.Forall₂ (fun x y => x.1 = y.1 ∧ x.2.toList.Perm y.2.toList) feed.items feed'.items ∧
    (feed.failure = none ↔ feed'.failure = none)

variable (hperm : rows.Perm rows')
  (hdistinct : rows.Pairwise fun r s => ∀ d k, ¬ ((r.date = d ∧ names r k) ∧ s.date = d ∧ names s k))

include hperm hdistinct

/-- Where no two rows of a day name one key, their order does not matter. -/
theorem rowsFor_perm (d : Date) (k : κ) : rowsFor rows names d k = rowsFor rows' names d k := by
  have hfilter := hperm.filter fun r => r.date = d ∧ names r k
  have hpair : (rows.filter fun r => r.date = d ∧ names r k).Pairwise fun _ _ => False := by
    rw [List.pairwise_filter]
    apply hdistinct.imp
    intro r s h hr hs
    exact h d k ⟨of_decide_eq_true hr, of_decide_eq_true hs⟩
  have hpair' := hfilter.pairwise hpair id
  exact hfilter.eq_of_pairwise (fun _ _ _ _ h => h.elim) hpair hpair'

theorem Reports.sameDays [DecidableEq κ] {feed feed' : Feed (Date × OrderedMap κ ν)}
    (h : Reports rows names shows counts feed) (h' : Reports rows' names shows counts feed') :
    SameDays feed feed' := by
  have hdates : feed.dates = feed'.dates := by
    have hmem : ∀ d, d ∈ feed.dates ↔ d ∈ feed'.dates := by
      intro d
      simp only [h.mem_dates, h'.mem_dates, hperm.mem_iff]
    have hsame := (List.perm_ext_iff_of_nodup (Date.nodup_of_ascending h.ascends)
      (Date.nodup_of_ascending h'.ascends)).mpr hmem
    refine hsame.eq_of_pairwise (fun d e _ _ hlt hgt => ?_) h.ascends h'.ascends
    exact absurd (Date.lt_trans hlt hgt) (Date.lt_irrefl d)
  constructor
  · refine forall₂_of_map_eq (f := Prod.fst) (g := Prod.fst) hdates ?_
    intro x hx y hy hxy
    obtain ⟨d, m⟩ := x
    obtain ⟨d', m'⟩ := y
    obtain rfl : d = d' := hxy
    refine ⟨rfl, ?_⟩
    refine (List.perm_ext_iff_of_nodup (.of_map _ m.nodup) (.of_map _ m'.nodup)).mpr fun e => ?_
    rw [← OrderedMap.get?_eq_some_iff, ← OrderedMap.get?_eq_some_iff,
      h.entries d m hx, h'.entries d m' hy, rowsFor_perm hperm hdistinct]
  · have hfails : feed.failure ≠ none ↔ feed'.failure ≠ none := by
      simp only [h.fails_iff, h'.fails_iff, hperm.mem_iff]
    exact not_iff_not.mp hfails

end Same

end MarketTables
end Backtesting
