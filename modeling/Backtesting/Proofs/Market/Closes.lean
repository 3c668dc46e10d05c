import Backtesting.Proofs.Market.Split
import Backtesting.Proofs.Portfolio.Stores

/-!
The closes of one asset up to a day. They are read off the bars that the asset has on the days up to it,
and a day that is appended later adds nothing there. A split walks over the same bars from the first one
on, and what it does to them does not depend on the bars behind them, so to the closes up to a day only the
splits of the asset matter of all that happens to the history once later days are appended.
-/
namespace Backtesting

/-- Neither capped nor beyond the cap. -/
def Date.isUpTo (cap : Option Date) (d : Date) : Bool := !cap.any (· < d)

theorem Date.isUpTo_iff {cap : Option Date} {d : Date} : d.isUpTo cap = true ↔ ∀ c ∈ cap, d ≤ c := by
  cases cap with
  | none => simp [isUpTo]
  | some c =>
    simp only [isUpTo, Option.any_some, Bool.not_eq_true', decide_eq_false_iff_not, Option.mem_some_iff,
      forall_eq', lt_iff, le_iff]
    exact Nat.not_lt

theorem Date.isUpTo_of_lt {cap : Option Date} {d e : Date} (h : e < d) (hd : d.isUpTo cap = true) :
    e.isUpTo cap = true := by
  rw [isUpTo_iff] at hd ⊢
  intro c hc
  exact Nat.le_trans (Nat.le_of_lt h) (hd c hc)

namespace Chronicle

variable {ν ε : Type}

/-- The days up to the cap. -/
def upTo (cap : Option Date) (l : List (Date × ν)) : List (Date × ν) := l.filter fun e => e.1.isUpTo cap

theorem upTo_eq_nil {cap : Option Date} {d : Date} {v : ν} {l : List (Date × ν)}
    (hl : (((d, v) :: l).map Prod.fst).Pairwise (· < ·)) (hd : ¬ d.isUpTo cap = true) :
    upTo cap ((d, v) :: l) = [] := by
  rw [List.map_cons, List.pairwise_cons] at hl
  refine List.filter_eq_nil_iff.mpr fun e he hcap => ?_
  rcases List.mem_cons.mp he with rfl | he
  · exact hd hcap
  · exact hd (Date.isUpTo_of_lt (hl.1 e.1 (List.mem_map_of_mem he)) hcap)

/-- A day beyond the cap is written without a trace up to it. -/
theorem upTo_put (c : Chronicle ν) {cap : Option Date} {d : Date} (v : ν)
    (hd : ¬ d.isUpTo cap = true) : upTo cap (c.put d v).days = upTo cap c.days := by
  have hascending := c.ascending
  unfold put
  dsimp only
  generalize c.days = l at hascending ⊢
  induction l with
  | nil => exact upTo_eq_nil (List.pairwise_singleton _ _) hd
  | cons e l ih =>
    by_cases he : e.1 < d
    · have hrest := ih (List.pairwise_cons.mp hascending).2
      have hfirst : replaceFrom d v (e :: l) = e :: replaceFrom d v l := by
        simp [replaceFrom, he]
      unfold upTo at hrest ⊢
      rw [hfirst, List.filter_cons, List.filter_cons, hrest]
    · have hnone : replaceFrom d v (e :: l) = [(d, v)] := by
        simp [replaceFrom, he]
      have hbeyond : ¬ e.1.isUpTo cap = true := by
        intro hcap
        rcases Date.lt_or_eq_of_not_lt he with hlt | heq
        · exact hd (Date.isUpTo_of_lt hlt hcap)
        · exact hd (heq ▸ hcap)
      rw [hnone, upTo_eq_nil hascending hbeyond]
      exact upTo_eq_nil (List.pairwise_singleton _ _) hd

/-- A revision goes over the days up to the cap as if there were no others. -/
theorem upTo_reviseList (f : ν → Except ε (Option ν)) {cap : Option Date} {l : List (Date × ν)}
    (hl : (l.map Prod.fst).Pairwise (· < ·)) :
    upTo cap (reviseList f l).1 = (reviseList f (upTo cap l)).1 := by
  induction l with
  | nil => rfl
  | cons e l ih =>
    obtain ⟨d, v⟩ := e
    have hrest := ih (List.pairwise_cons.mp hl).2
    by_cases hd : d.isUpTo cap = true
    · have hcons : ∀ w (m : List (Date × ν)), upTo cap ((d, w) :: m) = (d, w) :: upTo cap m :=
        fun _ _ => List.filter_cons_of_pos hd
      rw [hcons]
      unfold reviseList
      split
      · rw [hcons]
      · rw [hcons, hrest]
      · rw [hcons, hrest]
    · rw [upTo_eq_nil hl hd]
      have hdates := dates_reviseList f ((d, v) :: l)
      rw [← hdates] at hl
      cases hrevised : (reviseList f ((d, v) :: l)).1 with
      | nil => rfl
      | cons e m =>
        obtain ⟨d', w⟩ := e
        rw [hrevised] at hl hdates
        obtain rfl : d' = d := (List.cons.inj hdates).1
        exact upTo_eq_nil hl hd

end Chronicle

namespace MarketHistory

open Chronicle (upTo)

variable {h g : MarketHistory} {a b : Asset} {cap : Option Date} {x : Decimal}

def barOf (a : Asset) (e : Date × Bars) : Option (Date × Bar) := (e.2.get? a).map (e.1, ·)

/-- The bars of `a` on the days up to the cap, oldest first. -/
def series (h : MarketHistory) (a : Asset) (cap : Option Date) : List (Date × Bar) :=
  (upTo cap h.bars.days).filterMap (barOf a)

theorem mem_series {d : Date} {bar : Bar} : (d, bar) ∈ h.series a cap ↔
    (∀ c ∈ cap, d ≤ c) ∧ h.bar? d a = some bar := by
  have hstored : h.bar? d a = some bar ↔ ∃ bars, (d, bars) ∈ h.bars.days ∧ bars.get? a = some bar := by
    simp only [bar?, Option.bind_eq_bind, Option.bind_eq_some_iff, Chronicle.get?_eq_some_iff]
  rw [hstored, ← Date.isUpTo_iff]
  simp only [series, List.mem_filterMap, upTo, List.mem_filter, barOf, Option.map_eq_some_iff,
    Prod.mk.injEq]
  constructor
  · rintro ⟨⟨d', bars⟩, ⟨hmem, hcap⟩, bar', hbar, rfl, rfl⟩
    exact ⟨hcap, bars, hmem, hbar⟩
  · rintro ⟨hcap, bars, hmem, hbar⟩
    exact ⟨(d, bars), ⟨hmem, hcap⟩, bar, hbar, rfl, rfl⟩

/-- The walk over the days ends at the first one beyond the cap and misses none up to it. -/
theorem closes_eq_map_series (h : MarketHistory) (a : Asset) (cap : Option Date) :
    h.closes a cap = (h.series a cap).map fun e => (e.1, e.2.close) := by
  have hascending := h.bars.ascending
  unfold closes series
  generalize h.bars.days = l at hascending ⊢
  induction l with
  | nil => rfl
  | cons e l ih =>
    obtain ⟨d, bars⟩ := e
    have hrest := ih (List.pairwise_cons.mp hascending).2
    by_cases hd : d.isUpTo cap = true
    · have hcap : cap.any (· < d) = false := by simpa [Date.isUpTo] using hd
      have hcons : upTo cap ((d, bars) :: l) = (d, bars) :: upTo cap l := List.filter_cons_of_pos hd
      rw [closesIn, hcap, hcons, List.filterMap_cons]
      cases hbar : bars.get? a with
      | none => simpa [barOf, hbar] using hrest
      | some bar => simpa [barOf, hbar] using hrest
    · have hcap : cap.any (· < d) = true := by simpa [Date.isUpTo] using hd
      rw [closesIn, hcap, Chronicle.upTo_eq_nil hascending hd]
      rfl

theorem series_ascending (h : MarketHistory) (a : Asset) (cap : Option Date) :
    ((h.series a cap).map Prod.fst).Pairwise (· < ·) := by
  have hdays : ∀ l : List (Date × Bars), ((l.filterMap (barOf a)).map Prod.fst).Sublist
      (l.map Prod.fst) := by
    intro l
    induction l with
    | nil => exact .slnil
    | cons e l ih =>
      rw [List.filterMap_cons]
      cases hbar : e.2.get? a with
      | none => simpa [barOf, hbar] using ih.cons e.1
      | some bar => simpa [barOf, hbar] using ih.cons_cons e.1
  exact h.bars.ascending.sublist ((hdays _).trans (List.filter_sublist.map _))

/-- The bars of one asset after a split, up to the first one that cannot be adjusted. -/
def adjusted (x : Decimal) : List (Date × Bar) → List (Date × Bar)
  | [] => []
  | (d, bar) :: l =>
      match bar.adjustedForSplit x with
      | .ok bar' => (d, bar') :: adjusted x l
      | .error _ => (d, bar) :: l

theorem dates_adjusted (x : Decimal) (l : List (Date × Bar)) :
    (adjusted x l).map Prod.fst = l.map Prod.fst := by
  induction l with
  | nil => rfl
  | cons e l ih =>
    obtain ⟨d, bar⟩ := e
    unfold adjusted
    split
    · rw [List.map_cons, List.map_cons, ih]
    · rfl

theorem filterMap_reviseList_self (x : Decimal) (l : List (Date × Bars)) :
    (Chronicle.reviseList (splitDay a x) l).1.filterMap (barOf a) = adjusted x (l.filterMap (barOf a)) := by
  induction l with
  | nil => rfl
  | cons e l ih =>
    obtain ⟨d, bars⟩ := e
    cases hbar : bars.get? a with
    | none =>
      have hday : splitDay a x bars = .ok none := by simp [splitDay, hbar]
      simpa [Chronicle.reviseList, hday, barOf, hbar] using ih
    | some bar =>
      have hday : splitDay a x bars =
          (bar.adjustedForSplit x).map fun bar' => some (bars.put a bar') := by simp [splitDay, hbar]
      cases hadjusted : bar.adjustedForSplit x with
      | error e => simp [Chronicle.reviseList, hday, barOf, hbar, hadjusted, adjusted, Except.map]
      | ok bar' =>
        rw [hadjusted, Except.map] at hday
        simpa [Chronicle.reviseList, hday, barOf, hbar, hadjusted, adjusted] using ih

theorem filterMap_reviseList_of_ne (x : Decimal) (hb : b ≠ a) (l : List (Date × Bars)) :
    (Chronicle.reviseList (splitDay b x) l).1.filterMap (barOf a) = l.filterMap (barOf a) := by
  induction l with
  | nil => rfl
  | cons e l ih =>
    obtain ⟨d, bars⟩ := e
    unfold Chronicle.reviseList
    split
    · rfl
    · rw [List.filterMap_cons, List.filterMap_cons, ih]
    · next bars' hbars' =>
      obtain ⟨bar, bar', -, -, rfl⟩ := splitDay_eq_ok hbars'
      have hkept : (bars.put b bar').get? a = bars.get? a := by simp [Ne.symm hb]
      simp only [List.filterMap_cons, barOf, hkept]
      rw [ih]

theorem series_split_self (h : MarketHistory) (a : Asset) (x : Decimal) (cap : Option Date) :
    (h.split a x).1.series a cap = adjusted x (h.series a cap) := by
  have hrevised : upTo cap (h.split a x).1.bars.days =
      (Chronicle.reviseList (splitDay a x) (upTo cap h.bars.days)).1 :=
    Chronicle.upTo_reviseList _ h.bars.ascending
  rw [series, hrevised, filterMap_reviseList_self, series]

theorem series_split_of_ne (h : MarketHistory) (hb : b ≠ a) (x : Decimal) (cap : Option Date) :
    (h.split b x).1.series a cap = h.series a cap := by
  have hrevised : upTo cap (h.split b x).1.bars.days =
      (Chronicle.reviseList (splitDay b x) (upTo cap h.bars.days)).1 :=
    Chronicle.upTo_reviseList _ h.bars.ascending
  rw [series, hrevised, filterMap_reviseList_of_ne x hb, series]

theorem series_append {d : Date} {bars : Bars} (hd : ¬ d.isUpTo cap = true)
    (happend : h.append d bars = .ok g) : g.series a cap = h.series a cap := by
  obtain ⟨-, rfl⟩ := append_eq_ok.mp happend
  rw [series, Chronicle.upTo_put h.bars bars hd, series]

/-- The first closes are divided by the coefficient. The others stay, and the first of their bars cannot
be adjusted. -/
theorem adjusted_closes (x : Decimal) (l : List (Date × Bar)) : ∃ first rest first',
    l = first ++ rest ∧ adjusted x l = first' ++ rest ∧
      List.Forall₂ (fun e e' => e'.1 = e.1 ∧ e.2.close.div x = .ok e'.2.close) first first' ∧
      ∀ e ∈ rest.head?, ∃ fault, e.2.adjustedForSplit x = .error fault := by
  induction l with
  | nil => exact ⟨[], [], [], rfl, rfl, .nil, by simp⟩
  | cons e l ih =>
    obtain ⟨d, bar⟩ := e
    cases hadjusted : bar.adjustedForSplit x with
    | error fault =>
      refine ⟨[], (d, bar) :: l, [], rfl, by simp [adjusted, hadjusted], .nil, ?_⟩
      intro e he
      obtain rfl := Option.some.inj he
      exact ⟨fault, hadjusted⟩
    | ok bar' =>
      obtain ⟨first, rest, first', hl, hl', hdivided, hstop⟩ := ih
      refine ⟨(d, bar) :: first, rest, (d, bar') :: first', by rw [hl]; rfl, ?_, ?_, hstop⟩
      · rw [adjusted, hadjusted]
        exact congrArg _ hl'
      · exact .cons ⟨rfl, (Bar.adjustedForSplit_eq_ok hadjusted).1⟩ hdivided

theorem exists_adjusted_of_split {n : Nat} (hsplit : (h.split a x).2 = .ok n) {d : Date} {bar : Bar}
    (hbar : h.bar? d a = some bar) : ∃ bar', bar.adjustedForSplit x = .ok bar' := by
  obtain ⟨bars, hbars, hbar⟩ := Option.bind_eq_some_iff.mp hbar
  obtain ⟨hnone, -⟩ | ⟨v, w, hv, -, hday⟩ := Chronicle.get?_revise hsplit d
  · simp [hnone] at hbars
  · obtain rfl : bars = v := Option.some.inj (hbars.symm.trans hv)
    rcases hday with ⟨hkept, -⟩ | hchanged
    · rw [get?_of_splitDay_none hkept] at hbar
      simp at hbar
    · obtain ⟨bar₀, bar', hthere, hadjusted, -⟩ := splitDay_eq_ok hchanged
      obtain rfl : bar₀ = bar := Option.some.inj (hthere.symm.trans hbar)
      exact ⟨bar', hadjusted⟩

/-- What a split does to the closes: it divides those of its asset from the first one on, all of them if it
succeeds. -/
theorem closes_split (h : MarketHistory) (a b : Asset) (x : Decimal) (cap : Option Date) :
    ∃ first rest first', h.closes a cap = first ++ rest ∧ (h.split b x).1.closes a cap = first' ++ rest ∧
      List.Forall₂ (fun e e' => e'.1 = e.1 ∧ e.2.div x = .ok e'.2) first first' ∧
      (b ≠ a → first = []) ∧ (b = a → (∃ n, (h.split b x).2 = .ok n) → rest = []) := by
  simp only [closes_eq_map_series]
  by_cases hb : b = a
  · subst hb
    rw [series_split_self]
    obtain ⟨first, rest, first', hl, hl', hdivided, hstop⟩ := adjusted_closes x (h.series b cap)
    refine ⟨first.map fun e => (e.1, e.2.close), rest.map fun e => (e.1, e.2.close),
      first'.map fun e => (e.1, e.2.close), by rw [hl, List.map_append], by rw [hl', List.map_append],
      List.forall₂_map_left_iff.mpr (List.forall₂_map_right_iff.mpr hdivided),
      fun hne => absurd rfl hne, ?_⟩
    rintro - ⟨n, hn⟩
    cases rest with
    | nil => rfl
    | cons e rest =>
      obtain ⟨fault, hfault⟩ := hstop e rfl
      have hmem : (e.1, e.2) ∈ h.series b cap := by simp [hl]
      obtain ⟨bar', hbar'⟩ := exists_adjusted_of_split hn (mem_series.mp hmem).2
      rw [hfault] at hbar'
      exact nomatch hbar'
  · rw [series_split_of_ne h hb]
    exact ⟨[], _, [], rfl, rfl, .nil, fun _ => rfl, fun heq => absurd heq hb⟩

/-- A call that writes to a history. -/
inductive Call
  | append (d : Date) (bars : Bars)
  | split (a : Asset) (x : Decimal)

namespace Call

def splits (a : Asset) : Call → Bool
  | append .. => false
  | split b _ => b == a

/-- Nothing is appended on the day or before it. -/
def IsAfter (c : Date) : Call → Prop
  | append d _ => c < d
  | split .. => True

/-- What a call does to the bars of an asset up to a day, if it appends later days only. -/
def effect (a : Asset) : Call → List (Date × Bar) → List (Date × Bar)
  | append .. => id
  | split b x => if b = a then adjusted x else id

theorem effect_of_not_splits {call : Call} (h : ¬ call.splits a = true) : call.effect a = id := by
  cases call with
  | append d bars => rfl
  | split b x => exact if_neg (by simpa [splits] using h)

theorem dates_effect (call : Call) (l : List (Date × Bar)) :
    (call.effect a l).map Prod.fst = l.map Prod.fst := by
  cases call with
  | append d bars => rfl
  | split b x =>
    by_cases hb : b = a
    · rw [effect, if_pos hb]
      exact dates_adjusted x l
    · rw [effect, if_neg hb]
      rfl

end Call

/-- The history after a call. One that is refused leaves it as it is; a split that fails leaves it where it
got to. -/
def after (h : MarketHistory) : Call → MarketHistory
  | .append d bars =>
      match h.append d bars with
      | .ok g => g
      | .error _ => h
  | .split a x => (h.split a x).1

def afterAll (h : MarketHistory) (calls : List Call) : MarketHistory := calls.foldl after h

theorem series_after {c : Date} {call : Call} (hcall : call.IsAfter c) :
    (h.after call).series a (some c) = call.effect a (h.series a (some c)) := by
  cases call with
  | append d bars =>
    have hbeyond : ¬ d.isUpTo (some c) = true := by
      have hlt : c < d := hcall
      simp [Date.isUpTo, hlt]
    unfold after
    dsimp only
    cases happend : h.append d bars with
    | error e => rfl
    | ok g => exact series_append hbeyond happend
  | split b x =>
    by_cases hb : b = a
    · rw [Call.effect, if_pos hb, ← hb]
      exact series_split_self h b x _
    · rw [Call.effect, if_neg hb]
      exact series_split_of_ne h hb x _

/-- Calls that append later days only change the bars up to a day as the splits among them do. -/
theorem series_afterAll {c : Date} {later : List Call} (hlater : ∀ call ∈ later, call.IsAfter c) :
    (h.afterAll later).series a (some c) =
      (later.filter (·.splits a)).foldl (fun l call => call.effect a l) (h.series a (some c)) := by
  induction later generalizing h with
  | nil => rfl
  | cons call later ih =>
    obtain ⟨hcall, hrest⟩ := List.forall_mem_cons.mp hlater
    have hafter := ih (h := h.after call) hrest
    rw [series_after hcall] at hafter
    by_cases hsplits : call.splits a = true
    · rw [List.filter_cons_of_pos hsplits]
      exact hafter
    · rw [Call.effect_of_not_splits hsplits] at hafter
      rw [List.filter_cons_of_neg hsplits]
      exact hafter

theorem series_afterAll_filter {c : Date} {later : List Call}
    (hlater : ∀ call ∈ later, call.IsAfter c) : (h.afterAll later).series a (some c) =
      (h.afterAll (later.filter (·.splits a))).series a (some c) := by
  rw [series_afterAll hlater, series_afterAll fun call hcall => hlater call (List.mem_filter.mp hcall).1,
    List.filter_filter]
  simp only [Bool.and_self]

theorem dates_series_afterAll {c : Date} {later : List Call} (hlater : ∀ call ∈ later, call.IsAfter c) :
    ((h.afterAll later).series a (some c)).map Prod.fst = (h.series a (some c)).map Prod.fst := by
  rw [series_afterAll hlater]
  generalize h.series a (some c) = l
  induction later.filter (·.splits a) generalizing l with
  | nil => rfl
  | cons call later ih => rw [List.foldl_cons, ih, Call.dates_effect]

/-- After any calls the closes of an asset up to a day are those of all its bars there are up to it, in the
order of the days and each once. A split divides closes of its asset from the first one on, all of them if
it succeeds, and moves none to another day. Of any further calls that append later days only, just the
splits of the asset matter to its closes up to the day, and the days of these never change. -/
theorem closes_see_no_later (calls : List Call) (a : Asset) :
    (∀ cap, (((empty.afterAll calls).closes a cap).map Prod.fst).Pairwise (· < ·) ∧
      ∀ d y, (d, y) ∈ (empty.afterAll calls).closes a cap ↔
        (∀ c ∈ cap, d ≤ c) ∧ ∃ bar, (empty.afterAll calls).bar? d a = some bar ∧ bar.close = y) ∧
    (∀ b x cap, ∃ first rest first', (empty.afterAll calls).closes a cap = first ++ rest ∧
      ((empty.afterAll calls).split b x).1.closes a cap = first' ++ rest ∧
      List.Forall₂ (fun e e' => e'.1 = e.1 ∧ e.2.div x = .ok e'.2) first first' ∧
      (b ≠ a → first = []) ∧
      (b = a → (∃ n, ((empty.afterAll calls).split b x).2 = .ok n) → rest = [])) ∧
    ∀ c later, (∀ call ∈ later, Call.IsAfter c call) →
      (empty.afterAll (calls ++ later)).closes a (some c) =
        (empty.afterAll (calls ++ later.filter (·.splits a))).closes a (some c) ∧
      ((empty.afterAll (calls ++ later)).closes a (some c)).map Prod.fst =
        ((empty.afterAll calls).closes a (some c)).map Prod.fst := by
  have hdates : ∀ l : List (Date × Bar), (l.map fun e => (e.1, e.2.close)).map Prod.fst =
      l.map Prod.fst := fun l => by simp
  have hgo : ∀ later, empty.afterAll (calls ++ later) = (empty.afterAll calls).afterAll later :=
    fun later => List.foldl_append
  generalize empty.afterAll calls = h at hgo ⊢
  refine ⟨fun cap => ⟨?_, fun d y => ?_⟩, fun b x cap => closes_split h a b x cap, fun c later hlater => ?_⟩
  · rw [closes_eq_map_series, hdates]
    exact series_ascending h a cap
  · simp only [closes_eq_map_series, List.mem_map, Prod.mk.injEq]
    constructor
    · rintro ⟨⟨d', bar⟩, hmem, rfl, rfl⟩
      obtain ⟨hcap, hbar⟩ := mem_series.mp hmem
      exact ⟨hcap, bar, hbar, rfl⟩
    · rintro ⟨hcap, bar, hbar, rfl⟩
      exact ⟨(d, bar), mem_series.mpr ⟨hcap, hbar⟩, rfl, rfl⟩
  · simp only [hgo, closes_eq_map_series, hdates]
    exact ⟨by rw [series_afterAll_filter hlater], dates_series_afterAll hlater⟩

/-- Two later days are appended while the bars are halved and those of another asset are adjusted. -/
theorem closes_see_no_later_halved :
    let first : Date := ⟨2024, 1, 2, by decide, by decide, by decide⟩
    let second : Date := ⟨2024, 1, 3, by decide, by decide, by decide⟩
    let third : Date := ⟨2024, 1, 4, by decide, by decide, by decide⟩
    let fourth : Date := ⟨2024, 1, 5, by decide, by decide, by decide⟩
    let bars : Bars := OrderedMap.ofList [("A", .flat), ("B", .flat)]
    let calls : List Call := [.append first bars, .append second bars, .append first bars]
    let later : List Call := [.append third bars, .split "A" 2, .split "B" 5, .append fourth bars]
    (∀ call ∈ later, call.IsAfter second) ∧
      (empty.afterAll (calls ++ later)).closes "A" (some second) = [(first, 5), (second, 5)] := by
  intro first second third fourth bars calls later
  have hlater : ∀ call ∈ later, call.IsAfter second := by
    intro call hcall
    simp only [later, List.mem_cons, List.not_mem_nil, or_false] at hcall
    rcases hcall with rfl | rfl | rfl | rfl
    · exact (by decide : second < third)
    · trivial
    · trivial
    · exact (by decide : second < fourth)
  obtain ⟨-, -, hunseen⟩ := closes_see_no_later calls "A"
  refine ⟨hlater, (hunseen second later hlater).1.trans ?_⟩
  decide +kernel

end MarketHistory
end Backtesting
