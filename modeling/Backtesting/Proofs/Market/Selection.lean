import Backtesting.Proofs.Market.Foreign
import Backtesting.Proofs.Market.Tables
import Mathlib.Data.Prod.Lex
import Mathlib.Data.String.Basic

/-!
Requesting more than is needed. What is read for a day is read row by row, and rows are kept apart by
their asset or currency, so a wider request gives the same day with further bars and rates put in:
the rows of a day are sorted stably, and what becomes of a row does not depend on the others.
-/
namespace Backtesting

/-- A stable sort and a filter may be exchanged. -/
theorem filter_mergeSort {le : α → α → Bool} (htrans : ∀ a b c, le a b → le b c → le a c)
    (htotal : ∀ a b, le a b || le b a) (f : α → Bool) (l : List α) :
    (l.mergeSort le).filter f = (l.filter f).mergeSort le := by
  -- an element that is put in front goes before the first one that it precedes, filtered or not
  induction l with
  | nil => simp
  | cons a l ih =>
    obtain ⟨l₁, l₂, hal, hl, hbefore⟩ := List.mergeSort_cons htrans htotal a l
    have hsorted := List.pairwise_mergeSort htrans htotal (a :: l)
    rw [hal] at hsorted ⊢
    rw [hl, List.filter_append] at ih
    cases hf : f a with
    | false => simp [hf, ih]
    | true =>
      obtain ⟨m₁, m₂, ham, hm, hbefore'⟩ := List.mergeSort_cons htrans htotal a (l.filter f)
      have hsorted' := List.pairwise_mergeSort htrans htotal (a :: l.filter f)
      rw [ham] at hsorted'
      have hafter {k₁ k₂ : List α} (h : (k₁ ++ a :: k₂).Pairwise fun a b => le a b) :
          ∀ b ∈ k₂, le a b := (List.pairwise_cons.mp (List.pairwise_append.mp h).2.1).1
      have hfront {k₁ k₂ : List α} (h₁ : ∀ b ∈ k₁, (!le a b) = true) (h₂ : ∀ b ∈ k₂, le a b) :
          (k₁ ++ k₂).takeWhile (fun b => !le a b) = k₁ := by
        rw [List.takeWhile_append_of_pos h₁]
        cases k₂ with
        | nil => simp
        | cons b k₂ => simp [h₂ b List.mem_cons_self]
      have hfirst : l₁.filter f = m₁ := by
        rw [← hfront hbefore' (hafter hsorted'), ← hm, ← ih]
        refine (hfront (fun b hb => hbefore b (List.mem_filter.mp hb).1) fun b hb => ?_).symm
        exact hafter hsorted b (List.mem_filter.mp hb).1
      rw [hm, ← hfirst] at ih
      rw [List.filter_append, List.filter_cons_of_pos hf, List.filter_cons_of_pos hf, ham, hfirst,
        List.append_cancel_left ih]

/-- A stable sort ends in the last of the elements that no element comes after. -/
theorem getLast?_mergeSort {le : α → α → Bool} (htrans : ∀ a b c, le a b → le b c → le a c)
    (htotal : ∀ a b, le a b || le b a) (l : List α) :
    (l.mergeSort le).getLast? = (l.filter fun a => l.all fun b => le b a).getLast? := by
  generalize hlast : (fun a => l.all fun b => le b a) = isLast
  have hfilter := filter_mergeSort htrans htotal isLast l
  have halike : (l.filter isLast).Pairwise fun a b => le a b := by
    refine List.pairwise_of_forall_mem_list fun a ha b hb => ?_
    obtain ⟨-, hb⟩ := List.mem_filter.mp hb
    rw [← hlast] at hb
    exact List.all_eq_true.mp hb a (List.mem_filter.mp ha).1
  rw [List.mergeSort_of_pairwise halike] at hfilter
  rw [← hfilter]
  rcases List.eq_nil_or_concat (l.mergeSort le) with hnil | ⟨m, x, hx⟩
  · rw [hnil, List.filter_nil]
  · have hsorted := List.pairwise_mergeSort htrans htotal l
    rw [List.concat_eq_append] at hx
    rw [hx] at hsorted
    have hxlast : isLast x = true := by
      rw [← hlast]
      refine List.all_eq_true.mpr fun b hb => ?_
      have hmem : b ∈ m ++ [x] := hx ▸ List.mem_mergeSort.mpr hb
      rcases List.mem_append.mp hmem with hm | hbx
      · exact (List.pairwise_append.mp hsorted).2.2 b hm x (List.mem_singleton_self x)
      · obtain rfl := List.mem_singleton.mp hbx
        simpa using htotal b b
    simp [hx, List.filter_append, hxlast]

theorem Except.mapM_filter {α β ε : Type} {f : α → Except ε β} {p : α → Bool} {q : β → Bool} {l : List α}
    {bs : List β} (h : l.mapM f = .ok bs) (hpq : ∀ a b, f a = .ok b → q b = p a) :
    (l.filter p).mapM f = .ok (bs.filter q) := by
  induction l generalizing bs with
  | nil =>
    obtain rfl := Except.pure_eq_ok.mp h
    rfl
  | cons a l ih =>
    rw [List.mapM_cons] at h
    obtain ⟨b, hb, h⟩ := Except.bind_eq_ok.mp h
    obtain ⟨bs', hbs, h⟩ := Except.bind_eq_ok.mp h
    obtain rfl := Except.pure_eq_ok.mp h
    rw [List.filter_cons, List.filter_cons, hpq a b hb]
    split
    · rw [List.mapM_cons, hb, ih hbs]
      rfl
    · exact ih hbs

namespace OrderedMap

variable {κ : Type u} {ν : Type v} [DecidableEq κ] {f : κ → Bool}

theorem filter_putList (k : κ) (v : ν) (l : List (κ × ν)) :
    (putList k v l).filter (fun e => f e.1) =
      if f k then putList k v (l.filter fun e => f e.1) else l.filter fun e => f e.1 := by
  induction l with
  | nil => cases hk : f k <;> simp [putList, hk]
  | cons e l ih =>
    by_cases he : e.1 = k
    · subst he
      cases hk : f e.1 <;> simp [putList, hk]
    · cases hk : f k <;> cases hf : f e.1 <;> simp [putList, he, ih, hk, hf]

theorem filter_putAll (m n : OrderedMap κ ν) (hmn : m.toList.filter (fun e => f e.1) = n.toList)
    (l : List (κ × ν)) :
    (m.putAll l).toList.filter (fun e => f e.1) = (n.putAll (l.filter fun e => f e.1)).toList := by
  induction l generalizing m n with
  | nil => exact hmn
  | cons e l ih =>
    have hput := filter_putList (f := f) e.1 e.2 m.toList
    rw [hmn] at hput
    rw [List.filter_cons]
    cases hf : f e.1 with
    | false =>
      rw [hf] at hput
      exact ih (m.put e.1 e.2) n hput
    | true =>
      rw [hf] at hput
      exact ih (m.put e.1 e.2) (n.put e.1 e.2) hput

/-- The entries of some keys come in the order in which these keys were put. -/
theorem filter_ofList (l : List (κ × ν)) :
    (ofList l).toList.filter (fun e => f e.1) = (ofList (l.filter fun e => f e.1)).toList :=
  filter_putAll empty empty rfl l

end OrderedMap

namespace DatedRow

variable {r s : DatedRow}

/-- Where a row stands in a day, as one value. -/
def standing (r : DatedRow) : Nat ×ₗ Int ×ₗ String :=
  toLex ((rank (r.cell "asset")).1, toLex (rank (r.cell "asset")).2)

theorem precedes_iff : r.precedes s ↔ r.standing ≤ s.standing := by
  simp [precedes, standing, Prod.Lex.toLex_le_toLex]

theorem precedes_total (r s : DatedRow) : r.precedes s || s.precedes r := by
  rw [Bool.or_eq_true, precedes_iff, precedes_iff]
  exact le_total r.standing s.standing

theorem precedes_trans (r s t : DatedRow) (hrs : r.precedes s) (hst : s.precedes t) :
    r.precedes t := by
  rw [precedes_iff] at *
  exact le_trans hrs hst

end DatedRow

namespace MarketTables

variable {rows : List DatedRow} {d : Date}

theorem filter_rowsOn (f : DatedRow → Bool) :
    (rowsOn rows d).filter f = rowsOn (rows.filter f) d := by
  unfold rowsOn
  rw [filter_mergeSort DatedRow.precedes_trans DatedRow.precedes_total, List.filter_filter,
    List.filter_filter]
  simp only [Bool.and_comm]

/-- Fewer assets, fewer bars. -/
theorem barsOn_filter {x : Date × Bars} (h : barsOn rows d = .ok x) (f : Asset → Bool) :
    ∃ bars, barsOn (rows.filter fun r => f r.asset) d = .ok (d, bars) ∧
      Inserts (fun e => f e.1 = false) bars.toList x.2.toList := by
  obtain ⟨entries, hentries, h⟩ := Except.bind_eq_ok.mp h
  obtain rfl := Except.pure_eq_ok.mp h
  have hfiltered := Except.mapM_filter (p := fun r => f r.asset) (q := fun e => f e.1) hentries
    fun row e he => by
      obtain ⟨bar, -, he⟩ := Except.bind_eq_ok.mp he
      rw [← Except.pure_eq_ok.mp he]
  rw [filter_rowsOn] at hfiltered
  refine ⟨OrderedMap.ofList (entries.filter fun e => f e.1), ?_, ?_⟩
  · simp only [barsOn, hfiltered, Except.ok_bind]
    rfl
  · rw [← OrderedMap.filter_ofList]
    exact Inserts.of_filter fun e _ he => he

/-- Fewer currencies, fewer rates. -/
theorem ratesOn_filter {x : Date × OrderedMap Currency Decimal} (h : ratesOn rows d = .ok x)
    (f : Currency → Bool) {g : DatedRow → Bool}
    (hfg : ∀ (r : DatedRow) (c : Currency), r.currencyCode = c.code → g r = f c) :
    ∃ rates, ratesOn (rows.filter g) d = .ok (d, rates) ∧
      Inserts (fun e => f e.1 = false) rates.toList x.2.toList := by
  obtain ⟨entries, hentries, h⟩ := Except.bind_eq_ok.mp h
  obtain rfl := Except.pure_eq_ok.mp h
  have hfiltered := Except.mapM_filter (p := g) (q := fun e => f e.1) hentries fun row e he => by
    obtain ⟨c, hc, he⟩ := Except.bind_eq_ok.mp he
    obtain ⟨rate, -, he⟩ := Except.bind_eq_ok.mp he
    rw [← Except.pure_eq_ok.mp he]
    exact (hfg row c (Currency.code_of_ofCode hc).symm).symm
  rw [List.filter_comm] at hfiltered
  refine ⟨OrderedMap.ofList (entries.filter fun e => f e.1), ?_, ?_⟩
  · simp only [ratesOn, hfiltered, Except.ok_bind]
    rfl
  · rw [← OrderedMap.filter_ofList]
    exact Inserts.of_filter fun e _ he => he

variable {t : MarketTables}

theorem barsOn_of_mem_barFeed {assets : List Asset} {bars : Bars}
    (h : (d, bars) ∈ (t.barFeed assets).items) :
    barsOn (t.bars.filter fun r => assets.contains r.asset) d = .ok (d, bars) := by
  obtain ⟨d', -, hbars⟩ := Feed.exists_of_mem_mapUntil h
  obtain rfl : d = d' := (barsOn_eq_ok hbars).1
  exact hbars

/-- The rows of some currencies. -/
def rateRows (t : MarketTables) (currencies : List Currency) : List DatedRow :=
  (t.fx.getD []).filter fun r => currencies.any fun c => c.code = r.currencyCode

/-- What an unblocked feed has for a day are the rates of all rows of the day. -/
theorem ratesOn_of_rateFeed {currencies : List Currency} {feed : Feed (Date × OrderedMap Currency Decimal)}
    (hfeed : t.rateFeed (currencies.map fun c => .text c.code) = feed)
    (h : (feed.since d).blocked? = none) :
    ratesOn (t.rateRows currencies) d = .ok (d, ((feed.since d).on? d).getD OrderedMap.empty) := by
  have hascends : feed.Ascends := hfeed ▸ t.ascends_rateFeed currencies
  rw [rateFeed_codes] at hfeed
  unfold rateRows
  cases hfx : t.fx with
  | none =>
    rw [hfx] at hfeed
    obtain rfl := hfeed.symm
    rfl
  | some rows =>
    rw [hfx] at hfeed
    dsimp only at hfeed
    rw [Option.getD_some]
    generalize rows.filter _ = wanted at hfeed
    by_cases hd : d ∈ Date.sortedSet (wanted.map DatedRow.date)
    · have hanswers := Feed.answers_mapUntil (f := ratesOn wanted) (fun h => (ratesOn_eq_ok h).1)
        (Date.pairwise_sortedSet _) hd (P := fun rates => ratesOn wanted d = .ok (d, rates))
        fun _ h => h
      rw [hfeed] at hanswers
      obtain ⟨rates, hrates, hread⟩ := hanswers.on? hascends h
      rw [hrates]
      exact hread
    · have hnone : wanted.filter (·.date = d) = [] := by
        refine List.filter_eq_nil_iff.mpr fun row hrow hdate => hd ?_
        exact Date.mem_sortedSet.mpr (List.mem_map.mpr ⟨row, hrow, by simpa using hdate⟩)
      have habsent : (feed.since d).on? d = none := by
        rw [Feed.on?, Option.map_eq_none_iff, Option.filter_eq_none_iff]
        intro x hx hdate
        rw [← hfeed] at hx
        have hmem := (List.dropWhile_sublist _).subset (List.mem_of_head? hx)
        obtain ⟨d', hd', hread⟩ := Feed.exists_of_mem_mapUntil hmem
        obtain rfl : x.1 = d' := (ratesOn_eq_ok hread).1
        exact hd (of_decide_eq_true hdate ▸ hd')
      rw [habsent, ratesOn, hnone]
      rfl

end MarketTables
end Backtesting
