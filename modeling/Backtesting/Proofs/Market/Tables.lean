import Backtesting.Proofs.Market.Rates

/-!
Days read from tables. The bars of a feed come day by day in order and hold every row of the day, and
a feed of rates answers for each day that has a row: with the rates of all rows of that day, or by
having failed before. What ends a feed early is a row that cannot be read.
-/
namespace Backtesting

open Backtesting.Except (FailsOnly)

namespace Date

theorem mem_insertSorted {d e : Date} {l : List Date} :
    e ∈ insertSorted d l ↔ e = d ∨ e ∈ l := by
  induction l with
  | nil => simp [insertSorted]
  | cons x l ih =>
    unfold insertSorted
    split
    · exact List.mem_cons
    · split
      · next hx =>
        rw [← hx, List.mem_cons]
        exact ⟨Or.inr, fun h => h.elim Or.inl id⟩
      · rw [List.mem_cons, ih, List.mem_cons, or_left_comm]

theorem pairwise_insertSorted {d : Date} {l : List Date} (h : l.Pairwise (· < ·)) :
    (insertSorted d l).Pairwise (· < ·) := by
  induction l with
  | nil => exact List.pairwise_singleton _ _
  | cons x l ih =>
    obtain ⟨hx, hl⟩ := List.pairwise_cons.mp h
    unfold insertSorted
    split
    · next hlt =>
      refine List.pairwise_cons.mpr ⟨fun e he => ?_, h⟩
      rcases List.mem_cons.mp he with rfl | he
      · exact hlt
      · exact lt_trans hlt (hx e he)
    · next hnot =>
      split
      · exact h
      · next hne =>
        refine List.pairwise_cons.mpr ⟨fun e he => ?_, ih hl⟩
        rcases mem_insertSorted.mp he with rfl | he
        · exact (lt_or_eq_of_not_lt hnot).resolve_right hne
        · exact hx e he

theorem pairwise_sortedSet (ds : List Date) : (sortedSet ds).Pairwise (· < ·) := by
  have hfold : ∀ (ds acc : List Date), acc.Pairwise (· < ·) →
      (ds.foldl (fun acc d => insertSorted d acc) acc).Pairwise (· < ·) := by
    intro ds
    induction ds with
    | nil => exact fun acc h => h
    | cons d ds ih => exact fun acc h => ih _ (pairwise_insertSorted h)
  exact hfold ds [] List.Pairwise.nil

theorem mem_sortedSet {d : Date} {ds : List Date} : d ∈ sortedSet ds ↔ d ∈ ds := by
  have hfold : ∀ ds acc : List Date,
      d ∈ ds.foldl (fun acc d => insertSorted d acc) acc ↔ d ∈ ds ∨ d ∈ acc := by
    intro ds
    induction ds with
    | nil => simp
    | cons e ds ih =>
      intro acc
      rw [List.foldl_cons, ih, mem_insertSorted, List.mem_cons, or_assoc, or_left_comm]
  rw [sortedSet, hfold]
  simp

end Date

namespace Feed

variable {α β : Type} {d e : Date}

theorem exists_of_mem_mapUntil {f : β → Except Error α} {l : List β} {a : α}
    (h : a ∈ (mapUntil f l).items) : ∃ b ∈ l, f b = .ok a := by
  induction l with
  | nil => exact absurd h List.not_mem_nil
  | cons b l ih =>
    unfold mapUntil at h
    split at h
    · next a' ha' =>
      rcases List.mem_cons.mp h with rfl | h
      · exact ⟨b, List.mem_cons_self, ha'⟩
      · obtain ⟨b', hb', h⟩ := ih h
        exact ⟨b', List.mem_cons_of_mem b hb', h⟩
    · exact absurd h List.not_mem_nil

theorem exists_of_failure_mapUntil {f : β → Except Error α} {l : List β} {e : Error}
    (h : (mapUntil f l).failure = some e) : ∃ b ∈ l, f b = .error e := by
  induction l with
  | nil => simp [mapUntil, ofList] at h
  | cons b l ih =>
    unfold mapUntil at h
    split at h
    · obtain ⟨b', hb', h⟩ := ih h
      exact ⟨b', List.mem_cons_of_mem b hb', h⟩
    · next e' he' =>
      obtain rfl : e' = e := Option.some.inj h
      exact ⟨b, List.mem_cons_self, he'⟩

theorem failure_mapUntil_eq_none {f : β → Except Error α} {l : List β} :
    (mapUntil f l).failure = none ↔ ∀ b ∈ l, ∃ a, f b = .ok a := by
  induction l with
  | nil => simp [mapUntil, ofList]
  | cons b l ih =>
    unfold mapUntil
    split
    · next a ha => simpa [cons, ha] using ih
    · next e he => simp [failed, he]

/-- Days in order. -/
def Ascends (f : Feed (Date × α)) : Prop := f.items.Pairwise fun a b => a.1 < b.1

/-- The feed has an item of the day as it is asked for, or it has failed before the day. -/
def Answers (f : Feed (Date × α)) (d : Date) (P : α → Prop) : Prop :=
  (∃ a, (d, a) ∈ f.items ∧ P a) ∨ f.failure.isSome ∧ ∀ x ∈ f.items, x.1 < d

section MapUntil

variable {f : Date → Except Error (Date × α)} (hf : ∀ {d x}, f d = .ok x → x.1 = d)

include hf

theorem ascends_mapUntil {l : List Date} (hl : l.Pairwise (· < ·)) : (mapUntil f l).Ascends := by
  induction l with
  | nil => exact List.Pairwise.nil
  | cons b l ih =>
    obtain ⟨hb, hl⟩ := List.pairwise_cons.mp hl
    unfold mapUntil
    split
    · next a ha =>
      refine List.pairwise_cons.mpr ⟨fun x hx => ?_, ih hl⟩
      obtain ⟨b', hb', hx⟩ := exists_of_mem_mapUntil hx
      rw [hf ha, hf hx]
      exact hb b' hb'
    · exact List.Pairwise.nil

/-- The days of a feed are those that it is made of, up to the first one that fails. -/
theorem mem_dates_mapUntil {l : List Date} (hl : l.Pairwise (· < ·)) :
    d ∈ (mapUntil f l).dates ↔ d ∈ l ∧ ∀ e ∈ l, ¬ d < e → ∃ x, f e = .ok x := by
  induction l with
  | nil => simp [mapUntil, ofList, dates]
  | cons b l ih =>
    obtain ⟨hb, hrest⟩ := List.pairwise_cons.mp hl
    unfold mapUntil
    split
    · next x hx =>
      have hdates : (cons x (mapUntil f l)).dates = b :: (mapUntil f l).dates := by
        rw [← hf hx]
        rfl
      rw [hdates, List.mem_cons, ih hrest]
      constructor
      · intro h
        rcases h with rfl | ⟨hd, hbefore⟩
        · refine ⟨List.mem_cons_self, fun e he hde => ?_⟩
          rcases List.mem_cons.mp he with rfl | he
          · exact ⟨x, hx⟩
          · exact absurd (hb e he) hde
        · refine ⟨List.mem_cons_of_mem b hd, fun e he hde => ?_⟩
          rcases List.mem_cons.mp he with rfl | he
          · exact ⟨x, hx⟩
          · exact hbefore e he hde
      · intro h
        obtain ⟨hd, hbefore⟩ := h
        rcases List.mem_cons.mp hd with rfl | hd
        · exact Or.inl rfl
        · exact Or.inr ⟨hd, fun e he => hbefore e (List.mem_cons_of_mem b he)⟩
    · next e he =>
      constructor
      · intro h
        exact absurd h List.not_mem_nil
      · intro h
        obtain ⟨hd, hbefore⟩ := h
        have hnot : ¬ d < b := by
          intro hlt
          rcases List.mem_cons.mp hd with rfl | hd
          · exact Date.lt_irrefl d hlt
          · exact Date.lt_irrefl d (Date.lt_trans hlt (hb d hd))
        obtain ⟨x, hx⟩ := hbefore b List.mem_cons_self hnot
        rw [he] at hx
        cases hx

theorem answers_mapUntil {l : List Date} (hl : l.Pairwise (· < ·)) (hd : d ∈ l) {P : α → Prop}
    (hP : ∀ a, f d = .ok (d, a) → P a) : (mapUntil f l).Answers d P := by
  induction l with
  | nil => exact absurd hd List.not_mem_nil
  | cons b l ih =>
    obtain ⟨hb, hrest⟩ := List.pairwise_cons.mp hl
    unfold mapUntil
    split
    · next x hx =>
      obtain ⟨b', a⟩ := x
      obtain rfl : b' = b := hf hx
      rcases List.mem_cons.mp hd with rfl | hd
      · exact Or.inl ⟨a, List.mem_cons_self, hP a hx⟩
      · refine (ih hrest hd).imp ?_ ?_
        · rintro ⟨a', ha', hPa⟩
          exact ⟨a', List.mem_cons_of_mem _ ha', hPa⟩
        · rintro ⟨hfailed, hbefore⟩
          refine ⟨hfailed, fun x hx => ?_⟩
          rcases List.mem_cons.mp hx with rfl | hx
          · exact hb d hd
          · exact hbefore x hx
    · exact Or.inr ⟨rfl, fun x hx => absurd hx List.not_mem_nil⟩

end MapUntil

variable {f : Feed (Date × α)} {P : α → Prop}

theorem Ascends.since (h : f.Ascends) (d : Date) : (f.since d).Ascends :=
  h.sublist (List.dropWhile_sublist _)

theorem since_since (f : Feed (Date × α)) (h : d < e) : (f.since d).since e = f.since e := by
  unfold Feed.since
  refine congrArg (Feed.mk · f.failure) ?_
  induction f.items with
  | nil => rfl
  | cons x l ih =>
    by_cases hx : x.1 < d
    · rw [List.dropWhile_cons_of_pos (by simpa using hx),
        List.dropWhile_cons_of_pos (by simpa using Date.lt_trans hx h)]
      exact ih
    · rw [List.dropWhile_cons_of_neg (by simpa using hx)]

theorem Answers.since (h : f.Answers d P) (hd : ¬ d < e) : (f.since e).Answers d P := by
  refine h.imp ?_ ?_
  · rintro ⟨a, ha, hPa⟩
    refine ⟨a, ?_, hPa⟩
    have hsplit := List.takeWhile_append_dropWhile (p := fun x : Date × α => x.1 < e) (l := f.items)
    rw [← hsplit] at ha
    refine (List.mem_append.mp ha).resolve_left fun hbefore => hd ?_
    simpa using List.mem_takeWhile_imp hbefore
  · rintro ⟨hfailed, hbefore⟩
    exact ⟨hfailed, fun x hx => hbefore x ((List.dropWhile_sublist _).subset hx)⟩

/-- Unless the feed is blocked, the item of the day is at its front. -/
theorem Answers.on? (h : f.Answers d P) (hascends : f.Ascends)
    (hblocked : (f.since d).blocked? = none) : ∃ a, (f.since d).on? d = some a ∧ P a := by
  have hsince := h.since (Date.lt_irrefl d)
  have hsorted := hascends.since d
  have hfront : ∀ x, (f.since d).items.head? = some x → ¬ x.1 < d := by
    intro x hx
    have hnot := List.head?_dropWhile_not (fun x : Date × α => decide (x.1 < d)) f.items
    simp only [Feed.since] at hx
    simpa [hx] using hnot
  unfold Ascends at hsorted
  unfold Answers at hsince
  unfold blocked? at hblocked
  unfold Feed.on?
  cases hitems : (f.since d).items with
  | nil =>
    rw [hitems] at hblocked hsince
    obtain ⟨a, ha, -⟩ | ⟨hfailed, -⟩ := hsince
    · exact absurd ha List.not_mem_nil
    · rw [show (f.since d).failure = none from hblocked] at hfailed
      exact Bool.noConfusion hfailed
  | cons x rest =>
    rw [hitems] at hsorted hsince hfront
    have hx : ¬ x.1 < d := hfront x rfl
    obtain ⟨a, ha, hPa⟩ | ⟨-, hbefore⟩ := hsince
    · rcases List.mem_cons.mp ha with rfl | ha
      · exact ⟨a, by simp, hPa⟩
      · exact absurd ((List.pairwise_cons.mp hsorted).1 (d, a) ha) hx
    · exact absurd (hbefore x List.mem_cons_self) hx

end Feed

namespace MarketTables

variable {rows : List DatedRow} {d : Date} {row : DatedRow} {t : MarketTables}

theorem mem_rowsOn : row ∈ rowsOn rows d ↔ row ∈ rows ∧ row.date = d := by
  simp [rowsOn]

theorem barsOn_eq_ok {x : Date × Bars} (h : barsOn rows d = .ok x) :
    x.1 = d ∧ ∀ row ∈ rows, row.date = d → row.asset ∈ x.2.keys ∧ ∃ bar, row.bar = .ok bar := by
  obtain ⟨entries, hentries, h⟩ := Except.bind_eq_ok.mp h
  obtain rfl := Except.pure_eq_ok.mp h
  refine ⟨rfl, fun row hrow hd => ?_⟩
  obtain ⟨e, he, hentry⟩ := Except.exists_mem_of_mapM hentries (mem_rowsOn.mpr ⟨hrow, hd⟩)
  obtain ⟨bar, hbar, hpair⟩ := Except.bind_eq_ok.mp hentry
  obtain rfl := Except.pure_eq_ok.mp hpair
  exact ⟨OrderedMap.mem_keys_ofList.mpr (List.mem_map.mpr ⟨_, he, rfl⟩), bar, hbar⟩

theorem gapless_barsOn (rows : List DatedRow) (d : Date) : Gapless (barsOn rows d) :=
  FailsOnly.bind (FailsOnly.mapM fun row _ => by simp) fun _ _ => FailsOnly.ok _

theorem ratesOn_eq_ok {x : Date × OrderedMap Currency Decimal} (h : ratesOn rows d = .ok x) :
    x.1 = d ∧ ∀ row ∈ rows, row.date = d → ∀ c : Currency, row.currencyCode = c.code →
      c ∈ x.2.keys := by
  obtain ⟨entries, hentries, h⟩ := Except.bind_eq_ok.mp h
  obtain rfl := Except.pure_eq_ok.mp h
  refine ⟨rfl, fun row hrow hd c hc => ?_⟩
  obtain ⟨e, he, hrate⟩ :=
    Except.exists_mem_of_mapM hentries (a := row) (by simpa using ⟨hrow, hd⟩)
  obtain ⟨c', hcode, hrate⟩ := Except.bind_eq_ok.mp hrate
  obtain ⟨rate, -, hpair⟩ := Except.bind_eq_ok.mp hrate
  obtain rfl := Except.pure_eq_ok.mp hpair
  rw [hc, Currency.ofCode_code] at hcode
  obtain rfl := Except.ok.inj hcode
  exact OrderedMap.mem_keys_ofList.mpr (List.mem_map.mpr ⟨_, he, rfl⟩)

theorem gapless_ratesOn (rows : List DatedRow) (d : Date) : Gapless (ratesOn rows d) :=
  FailsOnly.bind (FailsOnly.mapM fun row _ => by simp) fun _ _ => FailsOnly.ok _

section Bars

variable (t : MarketTables) (assets : List Asset)

theorem ascends_barFeed : (t.barFeed assets).Ascends :=
  Feed.ascends_mapUntil (fun h => (barsOn_eq_ok h).1) (Date.pairwise_sortedSet _)

theorem gapless_barFeed {e : Error} (h : (t.barFeed assets).failure = some e) : e.IsOther := by
  obtain ⟨d, -, he⟩ := Feed.exists_of_failure_mapUntil h
  exact gapless_barsOn _ d e he

end Bars

/-- The bars of a day are those of all its rows, of which there is one. -/
theorem mem_barFeed {assets : List Asset} {bars : Bars} (h : (d, bars) ∈ (t.barFeed assets).items) :
    (∃ row ∈ t.bars, row.asset ∈ assets ∧ row.date = d ∧ ∃ bar, row.bar = .ok bar) ∧
      ∀ row ∈ t.bars, row.asset ∈ assets → row.date = d → row.asset ∈ bars.keys := by
  obtain ⟨d', hd', hbars⟩ := Feed.exists_of_mem_mapUntil h
  obtain ⟨hd, hrows⟩ := barsOn_eq_ok hbars
  obtain rfl : d = d' := hd
  obtain ⟨row, hrow, hdate⟩ := List.mem_map.mp (Date.mem_sortedSet.mp hd')
  obtain ⟨hmem, hasset⟩ := List.mem_filter.mp hrow
  refine ⟨⟨row, hmem, by simpa using hasset, hdate, (hrows row hrow hdate).2⟩, ?_⟩
  intro row hrow hasset hdate
  exact (hrows row (List.mem_filter.mpr ⟨hrow, by simpa using hasset⟩) hdate).1

section Rates

variable (t : MarketTables) (currencies : List Currency)

/-- The rates of some currencies day by day. -/
theorem rateFeed_codes : t.rateFeed (currencies.map fun c => .text c.code) =
    match t.fx with
    | none => Feed.ofList []
    | some rows =>
        let rows := rows.filter fun r => currencies.any fun c => c.code = r.currencyCode
        Feed.mapUntil (ratesOn rows) (Date.sortedSet (rows.map DatedRow.date)) := by
  have hread : (currencies.map fun c => Document.text c.code).mapM Currency.read = .ok currencies :=
    Except.mapM_map_eq_ok fun c _ => Currency.read_code c
  unfold rateFeed
  cases t.fx with
  | none => rfl
  | some rows => simp only [hread]

theorem ascends_rateFeed : (t.rateFeed (currencies.map fun c => .text c.code)).Ascends := by
  rw [rateFeed_codes]
  cases t.fx with
  | none => exact List.Pairwise.nil
  | some rows =>
    exact Feed.ascends_mapUntil (fun h => (ratesOn_eq_ok h).1) (Date.pairwise_sortedSet _)

theorem gapless_rateFeed {e : Error}
    (h : (t.rateFeed (currencies.map fun c => .text c.code)).failure = some e) : e.IsOther := by
  rw [rateFeed_codes] at h
  cases hfx : t.fx with
  | none => simp [hfx, Feed.ofList] at h
  | some rows =>
    rw [hfx] at h
    obtain ⟨d, -, he⟩ := Feed.exists_of_failure_mapUntil h
    exact gapless_ratesOn _ d e he

end Rates

/-- A day with a row of a wanted currency has a rate of it, if the feed comes that far. -/
theorem answers_rateFeed {currencies : List Currency} {c : Currency} (hc : c ∈ currencies)
    (hrow : row ∈ t.fx.getD []) (hcode : row.currencyCode = c.code) :
    (t.rateFeed (currencies.map fun c => .text c.code)).Answers row.date (c ∈ ·.keys) := by
  rw [rateFeed_codes]
  cases hfx : t.fx with
  | none => simp [hfx] at hrow
  | some rows =>
    rw [hfx] at hrow
    have hwanted : row ∈ rows.filter fun r => currencies.any fun c => c.code = r.currencyCode := by
      refine List.mem_filter.mpr ⟨hrow, ?_⟩
      simpa using ⟨c, hc, hcode.symm⟩
    refine Feed.answers_mapUntil (fun h => (ratesOn_eq_ok h).1) (Date.pairwise_sortedSet _)
      (Date.mem_sortedSet.mpr (List.mem_map.mpr ⟨row, hwanted, rfl⟩)) fun rates hrates => ?_
    exact (ratesOn_eq_ok hrates).2 row hwanted rfl c hcode

end MarketTables
end Backtesting
