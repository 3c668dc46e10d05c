import Backtesting.Proofs.Calendar.Month
import Backtesting.Proofs.OrderedMap
import Backtesting.Proofs.Strategy.Setup

/-!
When a rebalancing strategy signals. It does on the first day it is asked about, and from then on
whenever the period that its last signal began is over. The day of that signal is all it remembers,
so a fresh strategy that takes over in between goes on as it would have.
-/
namespace Backtesting

namespace Frequency

variable {f : Frequency} {d e due : Date}

/-- The months of a period that is counted in months. -/
def months : Frequency → Nat
  | monthly => 1
  | quarterly => 3
  | annually => 12
  | _ => 0

/-- The period that begins on `e` is over from `due` on. -/
def Due (f : Frequency) (e due : Date) : Prop :=
  match f with
  | never => False
  | daily => due.ordinal = e.ordinal + 1
  | weekly => due.ordinal = e.ordinal + 7
  | monthly | quarterly | annually => Date.IsMonthsAfter f.months e due

def IsOver (f : Frequency) (e d : Date) : Prop := ∃ due, f.Due e due ∧ due ≤ d

/-- A period that begins on `d` ends within the calendar, if it ends at all. -/
def HasRoom (f : Frequency) (d : Date) : Prop := f = never ∨ ∃ due, f.Due d due

theorem next_eq_ok : f.next e = .ok (some due) ↔ f.Due e due := by
  have hmap : ∀ x : Except Error Date, x.map some = .ok (some due) ↔ x = .ok due := by
    intro x
    cases x <;> simp [Except.map]
  cases f with
  | never => simp [next, Due]
  | daily =>
    simp only [next, Due, hmap, Date.addDays_eq_ok]
    omega
  | weekly =>
    simp only [next, Due, hmap, Date.addDays_eq_ok]
    omega
  | monthly => exact (hmap _).trans Date.addMonths_eq_ok
  | quarterly => exact (hmap _).trans Date.addMonths_eq_ok
  | annually => exact (hmap _).trans Date.addMonths_eq_ok

theorem Due.lt (h : f.Due e due) : e < due := by
  cases f with
  | never => exact h.elim
  | daily => exact Date.lt_iff_ordinal.mpr (by simp only [Due] at h; omega)
  | weekly => exact Date.lt_iff_ordinal.mpr (by simp only [Due] at h; omega)
  | monthly => exact Date.IsMonthsAfter.lt h (by decide)
  | quarterly => exact Date.IsMonthsAfter.lt h (by decide)
  | annually => exact Date.IsMonthsAfter.lt h (by decide)

theorem Due.monthNumber_le (h : f.Due e due) : e.monthNumber + f.months ≤ due.monthNumber := by
  have hle := Date.monthNumber_le_of_le (Nat.le_of_lt h.lt)
  cases f with
  | never => exact h.elim
  | daily => exact hle
  | weekly => exact hle
  | monthly => exact Int.ofNat_le.mp (Int.le_of_eq h.month.symm)
  | quarterly => exact Int.ofNat_le.mp (Int.le_of_eq h.month.symm)
  | annually => exact Int.ofNat_le.mp (Int.le_of_eq h.month.symm)

theorem IsOver.lt (h : f.IsOver e d) : e < d := by
  obtain ⟨due, hdue, hle⟩ := h
  exact Nat.lt_of_lt_of_le hdue.lt hle

/-- A period of some months has left the month it began in and all but the last of those. -/
theorem IsOver.monthNumber_le (h : f.IsOver e d) : e.monthNumber + f.months ≤ d.monthNumber := by
  obtain ⟨due, hdue, hle⟩ := h
  exact Nat.le_trans hdue.monthNumber_le (Date.monthNumber_le_of_le hle)

theorem IsOver.trans {x : Date} (h : f.IsOver e d) (h' : f.IsOver d x) : f.IsOver e x := by
  obtain ⟨due, hdue, hle⟩ := h
  exact ⟨due, hdue, Nat.le_trans hle (Nat.le_of_lt h'.lt)⟩

theorem hasRoom_of_year_lt (f : Frequency) (h : d.year < 9999) : f.HasRoom d := by
  have hmonth := d.month_bounds
  have hyear := d.year_bounds
  have hmonths : ∀ n : Nat, n ≤ 12 → ∃ due, Date.IsMonthsAfter n d due := by
    intro n hn
    apply Date.exists_isMonthsAfter <;> simp only [Date.monthNumber] <;> omega
  have hdays : ∀ n ≤ 7, ∃ due : Date, due.ordinal = d.ordinal + n := by
    intro n hn
    have hbefore := d.ordinal_bounds.2
    have hyears : Date.daysBeforeYear (d.year + 1) ≤ Date.daysBeforeYear 9999 :=
      Date.daysBeforeYear_le h
    apply Date.exists_ordinal (d := ⟨9999, 12, 31, by decide, by decide, by decide⟩)
    have hlast : (⟨9999, 12, 31, by decide, by decide, by decide⟩ : Date).ordinal = 3652059 := by
      decide
    have hfirst : Date.daysBeforeYear 9999 = 3651694 := by decide
    omega
  cases f with
  | never => exact Or.inl rfl
  | daily => exact Or.inr (hdays 1 (by decide))
  | weekly => exact Or.inr (hdays 7 (by decide))
  | monthly => exact Or.inr (hmonths 1 (by decide))
  | quarterly => exact Or.inr (hmonths 3 (by decide))
  | annually => exact Or.inr (hmonths 12 (by decide))

/-- Where there is room for the period, it is decided whether it is over. -/
theorem isDue_eq_ok (h : f.HasRoom e) (d : Date) :
    ∃ b, Rule.isDue f (some e) d = .ok b ∧ (b = true ↔ f.IsOver e d) := by
  rcases h with rfl | ⟨due, hdue⟩
  · refine ⟨false, rfl, ?_⟩
    simp [IsOver, Due]
  · have hnext := next_eq_ok.mpr hdue
    refine ⟨decide (due ≤ d), by simp [Rule.isDue, hnext, pure, Except.pure], ?_⟩
    rw [decide_eq_true_iff]
    constructor
    · intro hle
      exact ⟨due, hdue, hle⟩
    · rintro ⟨due', hdue', hle⟩
      have hsame : some due = some due' :=
        Except.ok.inj (hnext.symm.trans (next_eq_ok.mpr hdue'))
      rwa [Option.some.inj hsame]

/-- The answers of a strategy that signalled on `e` before them. -/
inductive Follows (f : Frequency) (all : Signals) : Date → List (Date × Signals) → Prop
  | done (e : Date) : Follows f all e []
  | quiet {e d : Date} {l : List (Date × Signals)} : ¬ f.IsOver e d → Follows f all e l →
      Follows f all e ((d, .empty) :: l)
  | signal {e d : Date} {l : List (Date × Signals)} : f.IsOver e d → Follows f all d l →
      Follows f all e ((d, all) :: l)

/-- The days with a signal. -/
def signalDays (l : List (Date × Signals)) : List Date :=
  (l.filter fun c => !c.2.isEmpty).map Prod.fst

/-- Signals as a frequency has them: all on the first day, and on a later one where the period since
the last of them is over. -/
structure OnSchedule (f : Frequency) (all : Signals) (l : List (Date × Signals)) : Prop where
  allOrNone : ∀ c ∈ l, c.2 = all ∨ c.2 = .empty
  first : ∀ c ∈ l.head?, c.2 = all
  /-- None comes early: between two of them a period has ended. -/
  ended : (signalDays l).Pairwise f.IsOver
  /-- None is skipped: where all is quiet after a signal, its period is not over. -/
  running : ∀ before e quiet after, l = before ++ (e, all) :: (quiet ++ after) →
    (∀ c ∈ quiet, c.2 = .empty) → ∀ c ∈ quiet, ¬ f.IsOver e c.1
  ascending : (signalDays l).Pairwise (· < ·)
  months : (signalDays l).Pairwise fun e d => e.monthNumber + f.months ≤ d.monthNumber
  once : f = .never → l ≠ [] → ∃ d, signalDays l = [d]

variable {f : Frequency} {all : Signals} {d e : Date} {l : List (Date × Signals)}

theorem signalDays_signal (hall : all.isEmpty = false) (d : Date) (l : List (Date × Signals)) :
    signalDays ((d, all) :: l) = d :: signalDays l := by
  simp [signalDays, hall]

namespace Follows

theorem allOrNone (h : Follows f all e l) : ∀ c ∈ l, c.2 = all ∨ c.2 = .empty := by
  induction h with
  | done e => simp
  | quiet _ _ ih =>
    intro c hc
    rcases List.mem_cons.mp hc with rfl | hc
    · exact Or.inr rfl
    · exact ih c hc
  | signal _ _ ih =>
    intro c hc
    rcases List.mem_cons.mp hc with rfl | hc
    · exact Or.inl rfl
    · exact ih c hc

theorem isOver (h : Follows f all e l) (hall : all.isEmpty = false) :
    ∀ d ∈ signalDays l, f.IsOver e d := by
  induction h with
  | done e => simp [signalDays]
  -- a quiet day adds nothing to the days with a signal
  | quiet _ _ ih => exact ih
  | signal hover _ ih =>
    intro x hx
    rw [signalDays_signal hall, List.mem_cons] at hx
    rcases hx with rfl | hx
    · exact hover
    · exact hover.trans (ih x hx)

theorem pairwise_isOver (h : Follows f all e l) (hall : all.isEmpty = false) :
    (signalDays l).Pairwise f.IsOver := by
  induction h with
  | done e => exact List.Pairwise.nil
  | quiet _ _ ih => exact ih
  | signal _ hrest ih =>
    rw [signalDays_signal hall]
    exact List.Pairwise.cons (hrest.isOver hall) ih

theorem running {quiet after : List (Date × Signals)} (h : Follows f all e (quiet ++ after))
    (hall : all.isEmpty = false) (hquiet : ∀ c ∈ quiet, c.2 = .empty) :
    ∀ c ∈ quiet, ¬ f.IsOver e c.1 := by
  induction quiet with
  | nil => simp
  | cons x quiet ih =>
    have hx : x.2 ≠ all := by
      rintro rfl
      rw [hquiet x List.mem_cons_self] at hall
      cases hall
    cases h with
    | quiet hnot hrest =>
      intro c hc
      rcases List.mem_cons.mp hc with rfl | hc
      · exact hnot
      · exact ih hrest (fun c hc => hquiet c (List.mem_cons_of_mem _ hc)) c hc
    | signal => exact absurd rfl hx

/-- From a signal on, the answers are those after it. -/
theorem after_signal {before rest : List (Date × Signals)} (hall : all.isEmpty = false)
    (h : Follows f all e (before ++ (d, all) :: rest)) : Follows f all d rest := by
  induction before generalizing e with
  | nil =>
    generalize hc : (d, all) = c at h
    cases h with
    | quiet =>
      rw [(Prod.mk.inj hc).2] at hall
      cases hall
    | signal _ hrest =>
      obtain ⟨rfl, -⟩ := Prod.mk.inj hc
      exact hrest
  | cons x before ih =>
    cases h with
    | quiet _ hrest => exact ih hrest
    | signal _ hrest => exact ih hrest

theorem onSchedule (h : Follows f all d l) (hall : all.isEmpty = false) :
    OnSchedule f all ((d, all) :: l) := by
  have hover : (signalDays ((d, all) :: l)).Pairwise f.IsOver := by
    rw [signalDays_signal hall]
    exact List.Pairwise.cons (h.isOver hall) (h.pairwise_isOver hall)
  constructor
  case allOrNone =>
    intro c hc
    rcases List.mem_cons.mp hc with rfl | hc
    · exact Or.inl rfl
    · exact h.allOrNone c hc
  case first => simp
  case ended => exact hover
  case running =>
    intro before e quiet after hl hquiet
    cases before with
    | nil =>
      obtain ⟨hd, rfl⟩ := List.cons.inj hl
      obtain ⟨rfl, -⟩ := Prod.mk.inj hd
      exact h.running hall hquiet
    | cons x before =>
      obtain ⟨-, rfl⟩ := List.cons.inj hl
      exact (h.after_signal hall).running hall hquiet
  case ascending => exact hover.imp IsOver.lt
  case months => exact hover.imp IsOver.monthNumber_le
  case once =>
    rintro rfl -
    refine ⟨d, ?_⟩
    have hnone : signalDays l = [] := by
      apply List.eq_nil_iff_forall_not_mem.mpr
      intro x hx
      obtain ⟨due, hdue, -⟩ := h.isOver hall x hx
      exact hdue.elim
    rw [signalDays_signal hall, hnone]

end Follows

theorem onSchedule_nil : OnSchedule f all [] := by
  constructor
  case running => simp
  all_goals simp [signalDays]

end Frequency

namespace Strategy

/-- A day on which a strategy is asked for its signals: what has been seen of the market by then, the
book it has come to, and whether it is another strategy that takes over from the last one. -/
structure Request where
  date : Date
  market : MarketHistory
  book : Book
  takesOver : Bool

/-- The answer of a strategy, or of the fresh one that restores what it exports. -/
def answer (fresh s : Strategy) (q : Request) : Except Error (Strategy × Signals) := do
  let s ← if q.takesOver then fresh.restoreState s.rule.exportState else pure s
  { s with book := q.book }.signals q.date q.market

/-- The answers to requests in turn, each with its day. -/
def answers (fresh s : Strategy) : List Request → Except Error (List (Date × Signals))
  | [] => pure []
  | q :: requests => do
      let (s, signals) ← answer fresh s q
      pure ((q.date, signals) :: (← answers fresh s requests))

/-- The strategy is the fresh one after its last signal. -/
structure Awaits (fresh : Strategy) (f : Frequency) (last : Option Date) (s : Strategy) : Prop where
  assets : s.assets = fresh.assets
  rule : s.rule = .rebalancing f last

/-- The signals of a day on which a rebalancing strategy signals. -/
def rebalanceAll (s : Strategy) : Signals := Signals.same .rebalance s.assets.keys

theorem isEmpty_rebalanceAll {s : Strategy} (h : s.assets.keys ≠ []) :
    s.rebalanceAll.isEmpty = false := by
  obtain ⟨a, ha⟩ := List.exists_mem_of_ne_nil _ h
  have hkey : a ∈ s.rebalanceAll.keys := by
    simpa [rebalanceAll, Signals.same, OrderedMap.mem_keys_ofList] using ha
  obtain ⟨e, he, -⟩ := List.mem_map.mp hkey
  simpa [OrderedMap.isEmpty] using List.ne_nil_of_mem he

variable {fresh s : Strategy} {f : Frequency} {last : Option Date} {q : Request}
  {requests : List Request}

theorem Awaits.restored (hs : fresh.Awaits f last s) (hfresh : fresh.rule = .rebalancing f none) :
    fresh.restoreState s.rule.exportState = .ok { fresh with rule := .rebalancing f last } := by
  have hrule : fresh.rule.restoreState s.rule.exportState = .ok s.rule := by
    have hsame : fresh.rule.unused = s.rule.unused := by
      rw [hfresh, hs.rule]
      rfl
    simpa [hs.rule, Rule.exportState, Document.fields] using Rule.restoreState_exportState hsame
  rw [← hs.rule, restoreState, hrule]
  rfl

/-- One answer: a day on which the strategy signals is the last one from there on. -/
theorem Awaits.answer_eq {b : Bool} (hs : fresh.Awaits f last s)
    (hfresh : fresh.rule = .rebalancing f none) (hb : Rule.isDue f last q.date = .ok b) :
    ∃ t, answer fresh s q = .ok (t, if b then fresh.rebalanceAll else .empty) ∧
      fresh.Awaits f (if b then some q.date else last) t := by
  have hasked : ∀ t : Strategy, fresh.Awaits f last t →
      ∃ u, { t with book := q.book }.signals q.date q.market =
          .ok (u, if b then fresh.rebalanceAll else .empty) ∧
        fresh.Awaits f (if b then some q.date else last) u := by
    intro t ht
    refine ⟨{ t with book := q.book, rule := .rebalancing f (if b then some q.date else last) },
      ?_, ht.assets, rfl⟩
    cases b <;>
      simp [signals, Rule.signals, ht.rule, hb, ht.assets, rebalanceAll, pure, Except.pure]
  unfold answer
  cases q.takesOver with
  | false => exact hasked s hs
  | true =>
    simp only [if_true, hs.restored hfresh]
    exact hasked _ ⟨rfl, rfl⟩

/-- All answers after a signal on `e`, by induction on the requests. -/
theorem Awaits.answers_eq {e : Date} (hs : fresh.Awaits f (some e) s)
    (hfresh : fresh.rule = .rebalancing f none) (he : f.HasRoom e)
    (hroom : ∀ q ∈ requests, f.HasRoom q.date) :
    ∃ l, answers fresh s requests = .ok l ∧ l.map Prod.fst = requests.map Request.date ∧
      f.Follows fresh.rebalanceAll e l := by
  induction requests generalizing s e with
  | nil => exact ⟨[], rfl, rfl, .done e⟩
  | cons q requests ih =>
    have hq : f.HasRoom q.date := hroom q List.mem_cons_self
    have hrest : ∀ q ∈ requests, f.HasRoom q.date :=
      fun r hr => hroom r (List.mem_cons_of_mem _ hr)
    obtain ⟨b, hb, hover⟩ := Frequency.isDue_eq_ok he q.date
    obtain ⟨t, hanswer, ht⟩ := hs.answer_eq hfresh hb
    cases b with
    | false =>
      have hnot : ¬ f.IsOver e q.date := fun h => by simpa using hover.mpr h
      obtain ⟨l, hl, hdates, hfollows⟩ := ih ht he hrest
      refine ⟨(q.date, .empty) :: l, ?_, by simp [hdates], .quiet hnot hfollows⟩
      simp [answers, hanswer, hl]
    | true =>
      obtain ⟨l, hl, hdates, hfollows⟩ := ih ht hq hrest
      refine ⟨(q.date, fresh.rebalanceAll) :: l, ?_, by simp [hdates],
        .signal (hover.mp rfl) hfollows⟩
      simp [answers, hanswer, hl]

/-- A rebalancing strategy signals on schedule, whatever the days it is asked about and whoever takes
over in between. -/
theorem rebalances_on_schedule (hfresh : fresh.rule = .rebalancing f none)
    (hassets : fresh.assets.keys ≠ []) (hroom : ∀ q ∈ requests, f.HasRoom q.date) :
    ∃ l, answers fresh fresh requests = .ok l ∧ l.map Prod.fst = requests.map Request.date ∧
      f.OnSchedule fresh.rebalanceAll l := by
  have hstart : fresh.Awaits f none fresh := ⟨rfl, hfresh⟩
  cases requests with
  | nil => exact ⟨[], rfl, rfl, Frequency.onSchedule_nil⟩
  | cons q requests =>
    have hdue : Rule.isDue f none q.date = .ok true := rfl
    obtain ⟨t, hanswer, ht⟩ := hstart.answer_eq hfresh hdue
    obtain ⟨l, hl, hdates, hfollows⟩ := ht.answers_eq hfresh (hroom q List.mem_cons_self)
      (fun r hr => hroom r (List.mem_cons_of_mem _ hr))
    refine ⟨(q.date, fresh.rebalanceAll) :: l, ?_, by simp [hdates],
      hfollows.onSchedule (isEmpty_rebalanceAll hassets)⟩
    simp [answers, hanswer, hl]

/-- Monthly from the end of January: the period is over on the leap day, and from there on the 29th. -/
theorem rebalances_after_leap_day :
    let monthly : Strategy := { holder "A" with rule := .rebalancing .monthly none }
    let request (takesOver : Bool) (d : Date) : Request :=
      ⟨d, MarketHistory.empty, monthly.book, takesOver⟩
    let january : Date := ⟨2024, 1, 31, by decide, by decide, by decide⟩
    let february : Date := ⟨2024, 2, 29, by decide, by decide, by decide⟩
    let march : Date := ⟨2024, 3, 29, by decide, by decide, by decide⟩
    let requests := [request false january, request true january,
      request false ⟨2024, 2, 28, by decide, by decide, by decide⟩, request true february,
      request true ⟨2024, 3, 28, by decide, by decide, by decide⟩, request false march]
    ∃ l, answers monthly monthly requests = .ok l ∧
      Frequency.signalDays l = [january, february, march] ∧
      Frequency.OnSchedule .monthly monthly.rebalanceAll l := by
  intro monthly request january february march requests
  have hroom : ∀ q ∈ requests, Frequency.HasRoom .monthly q.date :=
    fun q hq => Frequency.hasRoom_of_year_lt _ (by revert q; decide)
  have hdays : (answers monthly monthly requests).toOption.map Frequency.signalDays =
      some [january, february, march] := by decide +kernel
  have hrule : monthly.rule = .rebalancing .monthly none := rfl
  obtain ⟨l, hl, -, hschedule⟩ := rebalances_on_schedule hrule (by decide) hroom
  rw [hl] at hdays
  exact ⟨l, hl, Option.some.inj hdays, hschedule⟩

end Strategy
end Backtesting
