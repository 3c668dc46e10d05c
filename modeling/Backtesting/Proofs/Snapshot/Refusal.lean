import Backtesting.Proofs.Portfolio.Day
import Backtesting.Proofs.Snapshot.Restore

/-!
Restorations that are refused. What is looked at before anything is written are the base currency, the
history and whether the snapshot lacks a strategy. That it has one too many, or a balance in a currency
that there is not, is found out only when that entry is reached, and then the entries before it have
been written. The series come after all strategies and are refused for no such reason.
-/
namespace Backtesting

open Backtesting.Action (IsPath Keeps bind_eq_ok bind_eq_error forEach_cons_eq_ok forEach_nil_eq_ok
  update_eq_error update_eq_ok)
open Backtesting.Except (FailsOnly)

/-- A loop fails at the first element that does. -/
theorem Action.forEach_eq_error {σ α : Type} {as : List α} {f : α → Action σ Unit} {s t : σ}
    {e : Error} (h : Action.forEach as f s = (t, .error e)) :
    ∃ done a rest u, as = done ++ a :: rest ∧ Action.forEach done f s = (u, .ok ()) ∧
      f a u = (t, .error e) := by
  induction as generalizing s with
  | nil => cases h
  | cons a as ih =>
    rcases bind_eq_error.mp h with ha | ⟨u, _, ha, hrest⟩
    · exact ⟨[], a, as, s, rfl, forEach_nil_eq_ok.mpr rfl, ha⟩
    · obtain ⟨done, b, rest, v, rfl, hdone, hb⟩ := ih hrest
      exact ⟨a :: done, b, rest, v, rfl, forEach_cons_eq_ok.mpr ⟨u, ha, hdone⟩, hb⟩

/-- The errors with which a snapshot is refused. -/
def Error.IsRefusal (e : Error) : Prop :=
  e.label? = some "ConfigurationError" ∨ e.label? = some "UnknownStrategyError"

/-- The errors of dates, bars, rates and values that cannot be recorded. -/
def Error.IsOfRecord : Error → Prop
  | .decimal _ | .unreadableDate _ | .unknownCode | .outOfOrder .. | .rateNotPositive ..
  | .negativeBarField .. | .negativeVolume _ | .splitNotPositive _ => True
  | _ => False

theorem Error.IsOfRecord.not_isRefusal {e : Error} (h : e.IsOfRecord) : ¬ e.IsRefusal := by
  cases e <;> simp_all [IsOfRecord, IsRefusal, label?]

theorem Decimal.failsOnly_lift_record (r : Except Decimal.Fault α) :
    FailsOnly Error.IsOfRecord (Decimal.lift r) := Decimal.failsOnly_lift fun _ _ => trivial

theorem Rule.failsOnly_restoreState (r : Rule) (x : Document) :
    FailsOnly Error.IsOfRecord (r.restoreState x) := by
  have hdate : ∀ y, FailsOnly Error.IsOfRecord (Date.readOptional y) := by
    intro y
    unfold Date.readOptional
    split
    · exact FailsOnly.ok none
    · simp only [FailsOnly.map_iff]
      unfold Date.read
      split
      · exact FailsOnly.ok _
      · split
        · exact FailsOnly.ok _
        · exact FailsOnly.error trivial
  cases r with
  | buyAndHold initial => exact FailsOnly.bind (hdate _) fun _ _ => FailsOnly.ok _
  | rebalancing f last => exact FailsOnly.bind (hdate _) fun _ _ => FailsOnly.ok _
  | crossover fast slow => exact FailsOnly.ok _

namespace StrategySnapshot

/-- All currencies of the balances exist. -/
def NamesCurrencies (x : StrategySnapshot) : Prop :=
  ∀ e ∈ x.cash ++ x.target, ∃ c, Currency.read (.text e.1) = .ok c

/-- Balances as they are written in a snapshot. -/
def sheet (l : List (String × Decimal)) : BalanceSheet := .written (l.map fun (c, v) => (c, .known v))

/-- Balances are read unless one of them is in a currency that there is not. -/
theorem read_sheet_eq_error {l : List (String × Decimal)} {e : Error}
    (h : (sheet l).read = .error e) : e.label? = some "ConfigurationError" ∧
      ∃ x ∈ l, ∀ c, Currency.read (.text x.1) ≠ .ok c := by
  rcases Except.bind_eq_error.mp h with h | ⟨_, -, h⟩
  · obtain ⟨x, hx, hread⟩ := Except.exists_error_of_mapM h
    obtain ⟨y, hy, rfl⟩ := List.mem_map.mp hx
    rcases Except.bind_eq_error.mp hread with hcode | ⟨_, -, hamount⟩
    · refine ⟨?_, y, hy, fun c hc => ?_⟩
      · unfold Currency.read at hcode
        split at hcode
        · cases hcode
        · cases hcode
          rfl
      · rw [hc] at hcode
        cases hcode
    · cases hamount
  · cases h

theorem read_sheet_eq_ok {l : List (String × Decimal)} {b : Balances} (h : (sheet l).read = .ok b) :
    ∀ x ∈ l, ∃ c, Currency.read (.text x.1) = .ok c := by
  intro x hx
  obtain ⟨entries, hentries, -⟩ := Except.bind_eq_ok.mp h
  obtain ⟨y, -, hy⟩ := Except.exists_mem_of_mapM hentries (List.mem_map_of_mem hx)
  obtain ⟨c, hc, -⟩ := Except.bind_eq_ok.mp hy
  exact ⟨c, hc⟩

/-- What an entry of a snapshot does to the strategy that it names. -/
def restoring (x : StrategySnapshot) : Action Strategy Unit := do
  Strategy.onBook (Book.restore (x.positions.map fun (a, q) => (a, .integer q)) (sheet x.cash)
    (sheet x.target))
  Action.update (·.restoreState (.object x.state))

variable {x : StrategySnapshot} {s t : Strategy} {e : Error}

theorem restoring_eq_ok (h : x.restoring s = (t, .ok ())) : x.NamesCurrencies := by
  obtain ⟨u, _, hbook, -⟩ := bind_eq_ok.mp h
  obtain ⟨b, hrun, -⟩ := Strategy.onBook_eq hbook
  obtain ⟨_, _, -, hbalances⟩ := bind_eq_ok.mp hrun
  obtain ⟨_, _, hcash, htarget⟩ := bind_eq_ok.mp hbalances
  obtain ⟨cash, hcash, -⟩ := Except.bind_eq_ok.mp (update_eq_ok.mp hcash)
  obtain ⟨target, htarget, -⟩ := Except.bind_eq_ok.mp (update_eq_ok.mp htarget)
  intro y hy
  rcases List.mem_append.mp hy with hy | hy
  · exact read_sheet_eq_ok hcash y hy
  · exact read_sheet_eq_ok htarget y hy

/-- A book that is refused for a currency has its positions replaced, and its cash as well if it is the
target capital that is refused. -/
theorem restoring_eq_error (h : x.restoring s = (t, .error e)) (he : e.IsRefusal) :
    e.label? = some "ConfigurationError" ∧ ¬ x.NamesCurrencies ∧
      ∃ cash, t = { s with book := ⟨OrderedMap.ofList x.positions, cash, s.book.target⟩ } := by
  rcases bind_eq_error.mp h with hbook | ⟨u, _, hbook, hstate⟩
  · obtain ⟨b, hrun, rfl⟩ := Strategy.onBook_eq hbook
    rcases bind_eq_error.mp hrun with hpositions | ⟨b₁, _, hpositions, hbalances⟩
    · rw [update_eq_error, Snapshot.setPositions_integers] at hpositions
      cases hpositions.2
    rw [update_eq_ok, Snapshot.setPositions_integers] at hpositions
    cases hpositions
    rcases bind_eq_error.mp hbalances with hcash | ⟨b₂, _, hcash, htarget⟩
    · obtain ⟨rfl, hset⟩ := update_eq_error.mp hcash
      rcases Except.bind_eq_error.mp hset with hread | ⟨_, -, hnone⟩
      · obtain ⟨hlabel, y, hy, hmissing⟩ := read_sheet_eq_error hread
        refine ⟨hlabel, fun hnames => ?_, _, rfl⟩
        obtain ⟨c, hc⟩ := hnames y (List.mem_append_left _ hy)
        exact hmissing c hc
      · cases hnone
    · obtain ⟨cash, -, hcash⟩ := Except.bind_eq_ok.mp (update_eq_ok.mp hcash)
      cases hcash
      obtain ⟨rfl, hset⟩ := update_eq_error.mp htarget
      rcases Except.bind_eq_error.mp hset with hread | ⟨_, -, hnone⟩
      · obtain ⟨hlabel, y, hy, hmissing⟩ := read_sheet_eq_error hread
        refine ⟨hlabel, fun hnames => ?_, _, rfl⟩
        obtain ⟨c, hc⟩ := hnames y (List.mem_append_right _ hy)
        exact hmissing c hc
      · cases hnone
  · obtain ⟨-, hstate⟩ := update_eq_error.mp hstate
    rcases Except.bind_eq_error.mp hstate with hrule | ⟨_, -, hnone⟩
    · exact absurd he (Rule.failsOnly_restoreState _ _ e hrule).not_isRefusal
    · cases hnone

end StrategySnapshot

namespace Snapshot

variable {p q : Portfolio} {x : StrategySnapshot} {e : Error}

theorem restoreStrategy_eq (x : StrategySnapshot) :
    restoreStrategy x = Portfolio.onStrategy x.name x.restoring := rfl

/-- Some strategies are overwritten, and nothing else. -/
structure Overwrites (ns : List String) (p q : Portfolio) : Prop where
  rest : ∃ strategies, q = { p with strategies }
  keys : q.strategies.keys = p.strategies.keys
  others : ∀ n, n ∉ ns → q.strategies.get? n = p.strategies.get? n

theorem Overwrites.isPath (ns : List String) : IsPath (Overwrites ns) where
  refl p := ⟨⟨_, rfl⟩, rfl, fun _ _ => rfl⟩
  trans h h' := by
    obtain ⟨strategies, rfl⟩ := h.rest
    obtain ⟨strategies', rfl⟩ := h'.rest
    exact ⟨⟨_, rfl⟩, h'.keys.trans h.keys, fun n hn => (h'.others n hn).trans (h.others n hn)⟩

theorem overwrites_put {ns : List String} {s : Strategy} (hs : p.strategies.get? x.name = some s)
    (hx : x.name ∈ ns) (t : Strategy) :
    Overwrites ns p { p with strategies := p.strategies.put x.name t } := by
  refine ⟨⟨_, rfl⟩, OrderedMap.keys_put_of_get? _ hs, fun n hn => ?_⟩
  have hne : n ≠ x.name := fun h => hn (h ▸ hx)
  rw [OrderedMap.get?_put, if_neg hne]

theorem overwrites_restoreStrategy {ns : List String} (hx : x.name ∈ ns) :
    Keeps (Overwrites ns) (restoreStrategy x) := by
  intro p
  rw [restoreStrategy_eq, Portfolio.onStrategy]
  cases hs : p.strategies.get? x.name with
  | none => exact (Overwrites.isPath ns).refl p
  | some s => exact overwrites_put hs hx _

theorem overwrites_forEach {ns : List String} {xs : List StrategySnapshot}
    (hxs : ∀ x ∈ xs, x.name ∈ ns) (h : Action.forEach xs restoreStrategy p = (q, .ok ())) :
    Overwrites ns p q := by
  have hframe := Keeps.forEach_of_mem (Overwrites.isPath ns)
    (fun x hx => overwrites_restoreStrategy (hxs x hx)) p
  rwa [h] at hframe

theorem restoreStrategy_eq_ok (h : restoreStrategy x p = (q, .ok ())) :
    x.name ∈ p.strategies.keys ∧ x.NamesCurrencies := by
  obtain ⟨s, t, hs, hrun, -⟩ := Portfolio.onStrategy_eq_ok h
  exact ⟨OrderedMap.mem_keys_of_get? hs, StrategySnapshot.restoring_eq_ok hrun⟩

/-- Entries that are all written are those of strategies that there are. -/
theorem mem_keys_of_forEach {xs : List StrategySnapshot}
    (h : Action.forEach xs restoreStrategy p = (q, .ok ())) :
    ∀ x ∈ xs, x.name ∈ p.strategies.keys ∧ x.NamesCurrencies := by
  induction xs generalizing p with
  | nil => exact fun x hx => absurd hx List.not_mem_nil
  | cons y xs ih =>
    obtain ⟨u, hy, hxs⟩ := forEach_cons_eq_ok.mp h
    have hkeys := (overwrites_restoreStrategy (List.mem_singleton_self y.name) p).keys
    rw [hy] at hkeys
    intro x hx
    rcases List.mem_cons.mp hx with rfl | hx
    · exact restoreStrategy_eq_ok hy
    · exact hkeys ▸ ih hxs x hx

/-- The entry at which a snapshot is refused: there is no strategy for it, and it changes nothing, or it
has a currency that there is not, and positions and perhaps cash have been replaced. -/
inductive RefusedEntry (x : StrategySnapshot) (u q : Portfolio) (e : Error) : Prop
  | unknown (hname : x.name ∉ u.strategies.keys) (he : e = .unknownStrategy x.name) (hq : q = u)
  | currency (hcurrencies : ¬ x.NamesCurrencies) (he : e.label? = some "ConfigurationError")
      (hq : ∃ s cash, u.strategies.get? x.name = some s ∧ q = { u with
        strategies := u.strategies.put x.name
          { s with book := ⟨OrderedMap.ofList x.positions, cash, s.book.target⟩ } })

theorem RefusedEntry.overwrites {ns : List String} (h : RefusedEntry x p q e) (hx : x.name ∈ ns) :
    Overwrites ns p q := by
  cases h with
  | unknown _ _ hq => exact hq ▸ (Overwrites.isPath ns).refl p
  | currency _ _ hq =>
    obtain ⟨s, cash, hs, rfl⟩ := hq
    exact overwrites_put hs hx _

theorem restoreStrategy_eq_error (h : restoreStrategy x p = (q, .error e)) (he : e.IsRefusal) :
    RefusedEntry x p q e := by
  rcases Portfolio.onStrategy_eq_error h with ⟨hs, hname, rfl⟩ | ⟨s, t, hs, hrun, rfl⟩
  · exact .unknown (OrderedMap.get?_eq_none_iff.mp hs) hname rfl
  · obtain ⟨hlabel, hcurrencies, cash, rfl⟩ := StrategySnapshot.restoring_eq_error hrun he
    exact .currency hcurrencies hlabel ⟨s, cash, hs, rfl⟩

/-- No series is refused for what would refuse the snapshot. -/
theorem failsOnly_restoreDay (e : Date × List (Asset × Quote)) (p : Portfolio) :
    FailsOnly Error.IsOfRecord (restoreDay e p).2 := by
  have hcheck : ∀ q : Quote, FailsOnly Error.IsOfRecord q.check := by
    intro q
    simp [Quote.check, Quote.requireNonnegative, Decimal.failsOnly_lift_record, Error.IsOfRecord]
  have hbar : ∀ q, FailsOnly Error.IsOfRecord (Bar.ofQuote q) := fun q =>
    Bar.failsOnly_ofQuote (hcheck q)
  apply Action.failsOnly_update
  refine FailsOnly.bind (FailsOnly.mapM fun a _ => ?_) fun bars _ => ?_
  · exact FailsOnly.bind (hbar a.2) fun _ _ => FailsOnly.ok _
  · refine FailsOnly.bind ?_ fun _ _ => FailsOnly.ok _
    unfold MarketHistory.append
    split <;> simp [Error.IsOfRecord]

theorem failsOnly_restoreRates (e : Date × List (String × Decimal)) (p : Portfolio) :
    FailsOnly Error.IsOfRecord (restoreRates e p).2 := by
  have hcode : ∀ s, FailsOnly Error.IsOfRecord (Currency.ofCode s) := by
    intro s
    unfold Currency.ofCode
    split <;> simp [Error.IsOfRecord]
  have hrate : ∀ d (x : String × Decimal), FailsOnly Error.IsOfRecord
      (FxHistory.readRate d (x.1, .known x.2)) := by
    intro d x
    simp [FxHistory.readRate, Amount.read, Decimal.failsOnly_lift_record, hcode, Error.IsOfRecord]
  apply Action.failsOnly_update
  refine FailsOnly.bind ?_ fun _ _ => FailsOnly.ok _
  unfold FxHistory.append
  split
  · exact FailsOnly.error trivial
  · refine FailsOnly.bind (FailsOnly.mapM fun x hx => ?_) fun _ _ => FailsOnly.ok _
    obtain ⟨y, -, rfl⟩ := List.mem_map.mp hx
    exact hrate _ y

theorem failsOnly_restoreEquity (e : Date × Decimal) (p : Portfolio) :
    FailsOnly Error.IsOfRecord (restoreEquity e p).2 := by
  apply Action.failsOnly_update
  refine FailsOnly.bind ?_ fun _ _ => FailsOnly.ok _
  unfold EquityCurve.record
  split
  · exact FailsOnly.error trivial
  · exact FailsOnly.ok _

/-- Refused as a whole, or at an entry after those before it have been written. -/
theorem restore_eq_error {s : Snapshot} (h : s.restore p = (q, .error e)) (he : e.IsRefusal) :
    (s.restorable p = .error e ∧ q = p) ∨
      s.restorable p = .ok () ∧ ∃ done x rest u, s.strategies = done ++ x :: rest ∧
        Action.forEach done restoreStrategy p = (u, .ok ()) ∧ RefusedEntry x u q e := by
  rcases bind_eq_error.mp h with hread | ⟨_, _, hread, hwrite⟩
  · obtain ⟨rfl, hrefused⟩ := Action.read_eq_error.mp hread
    exact Or.inl ⟨hrefused, rfl⟩
  obtain ⟨rfl, haccepted⟩ := Action.read_eq_ok.mp hread
  refine Or.inr ⟨haccepted, ?_⟩
  rcases bind_eq_error.mp hwrite with hstrategies | ⟨u, _, -, hseries⟩
  · obtain ⟨done, x, rest, u, hsplit, hdone, hx⟩ := Action.forEach_eq_error hstrategies
    exact ⟨done, x, rest, u, hsplit, hdone, restoreStrategy_eq_error hx he⟩
  -- from here on nothing fails with such an error
  have hnever : ∀ {x : Action Portfolio Unit} {u v}, FailsOnly Error.IsOfRecord (x u).2 →
      x u ≠ (v, .error e) := by
    intro x u v hx herror
    rw [herror] at hx
    exact (hx e rfl).not_isRefusal he
  rcases bind_eq_error.mp hseries with hdays | ⟨u, _, -, hseries⟩
  · exact absurd hdays (hnever (Action.failsOnly_forEach (fun d _ => failsOnly_restoreDay d) _))
  rcases bind_eq_error.mp hseries with hrates | ⟨u, _, -, hseries⟩
  · exact absurd hrates (hnever (Action.failsOnly_forEach (fun d _ => failsOnly_restoreRates d) _))
  rcases bind_eq_error.mp hseries with hequity | ⟨u, _, -, hlog⟩
  · exact absurd hequity (hnever (Action.failsOnly_forEach (fun d _ => failsOnly_restoreEquity d) _))
  rcases bind_eq_error.mp hlog with hget | ⟨u, _, -, hlog⟩
  · cases hget
  · exact absurd hlog Action.modify_ne_error

/-- What a refusal leaves. Nothing but strategies that the snapshot names can have been overwritten, and
nothing at all if each of its entries is of a strategy of the portfolio and in currencies that there
are. A portfolio that accepts a snapshot has exactly its strategies. -/
theorem refused_restore (s : Snapshot) (p : Portfolio) :
    (∀ q e, s.restore p = (q, .error e) → e.IsRefusal →
      Overwrites (s.strategies.map (·.name)) p q ∧
      ((s.restorable p = .error e ∧ q = p) ∨
        s.restorable p = .ok () ∧ ∃ done x rest u, s.strategies = done ++ x :: rest ∧
          Action.forEach done restoreStrategy p = (u, .ok ()) ∧ RefusedEntry x u q e) ∧
      ((∀ x ∈ s.strategies, x.name ∈ p.strategies.keys ∧ x.NamesCurrencies) → q = p)) ∧
    ∀ q, s.restore p = (q, .ok ()) → s.base = p.base.code ∧ p.market.size = 0 ∧ p.equity.size = 0 ∧
      ∀ n, n ∈ s.strategies.map (·.name) ↔ n ∈ p.strategies.keys := by
  constructor
  · intro q e h he
    have hcases := restore_eq_error h he
    refine ⟨?_, hcases, fun hknown => ?_⟩
    · rcases hcases with ⟨-, rfl⟩ | ⟨-, done, x, rest, u, hsplit, hdone, hx⟩
      · exact (Overwrites.isPath _).refl q
      · have hnamed : ∀ y ∈ done ++ x :: rest, y.name ∈ s.strategies.map (·.name) := by
          intro y hy
          rw [hsplit]
          exact List.mem_map_of_mem hy
        have hbefore := overwrites_forEach
          (fun y hy => hnamed y (List.mem_append_left _ hy)) hdone
        exact (Overwrites.isPath _).trans hbefore (hx.overwrites (hnamed x (by simp)))
    · rcases hcases with ⟨-, rfl⟩ | ⟨-, done, x, rest, u, hsplit, hdone, hx⟩
      · rfl
      · obtain ⟨hname, hcurrencies⟩ := hknown x (by simp [hsplit])
        have hkeys := (overwrites_forEach (fun y hy => List.mem_map_of_mem hy) hdone).keys
        cases hx with
        | unknown hnone _ _ => exact absurd (hkeys ▸ hname) hnone
        | currency hnone _ _ => exact absurd hcurrencies hnone
  · intro q h
    obtain ⟨_, _, hread, hwrite⟩ := bind_eq_ok.mp h
    obtain ⟨rfl, haccepted⟩ := Action.read_eq_ok.mp hread
    obtain ⟨u, _, hstrategies, -⟩ := bind_eq_ok.mp hwrite
    obtain ⟨hbase, hmarket, hequity, hnames⟩ := restorable_eq_ok.mp haccepted
    refine ⟨hbase, hmarket, hequity, fun n => ⟨fun hn => ?_, hnames n⟩⟩
    obtain ⟨x, hx, rfl⟩ := List.mem_map.mp hn
    exact (mem_keys_of_forEach hstrategies x hx).1

/-- What is captured names no currency that there is not. -/
theorem namesCurrencies_imageOf (hx : x ∈ (imageOf p).strategies) : x.NamesCurrencies := by
  obtain ⟨⟨name, s⟩, -, rfl⟩ := List.mem_map.mp hx
  intro e he
  rcases List.mem_append.mp he with he | he
  all_goals
    obtain ⟨⟨c, v⟩, -, rfl⟩ := List.mem_map.mp he
    exact ⟨c, Currency.read_code c⟩

/-- A portfolio with a history refuses its own image and stays what it is. -/
theorem refused_restore_stale :
    let day : MarketDay := .flat ⟨2024, 1, 2, by decide, by decide, by decide⟩ ["A"]
    let p := Portfolio.after [.market day] (Portfolio.holding ["A"])
    ((imageOf p).restore p).2.mapError Error.label? = .error (some "ConfigurationError") ∧
      ((imageOf p).restore p).1 = p := by
  intro day p
  have hlabel : ((imageOf p).restore p).2.mapError Error.label? =
      .error (some "ConfigurationError") := by
    decide +kernel
  clear_value p
  refine ⟨hlabel, ?_⟩
  rcases hrun : (imageOf p).restore p with ⟨q, e | u⟩
  · rw [hrun] at hlabel
    have he : e.IsRefusal := Or.inl (Except.error.inj hlabel)
    obtain ⟨hrefused, -⟩ := refused_restore (imageOf p) p
    obtain ⟨-, -, hnothing⟩ := hrefused q e hrun he
    refine hnothing fun x hx => ⟨?_, namesCurrencies_imageOf hx⟩
    obtain ⟨entry, hentry, rfl⟩ := List.mem_map.mp hx
    exact List.mem_map_of_mem hentry
  · rw [hrun] at hlabel
    cases hlabel

/-- A snapshot with one strategy too many is refused, and the strategy before it has the cash of the
snapshot by then; so it is where the currency of that cash does not exist, for the positions. -/
theorem refused_restore_overwrites :
    let p := Portfolio.holding ["A"]
    let wanted : StrategySnapshot := ⟨"A", [("A", 7)], [("USD", 5)], [], []⟩
    let s : Snapshot := { imageOf p with strategies := [wanted, { wanted with name := "B" }] }
    let s' : Snapshot := { imageOf p with strategies := [{ wanted with cash := [("XYZ", 5)] }] }
    (s.restore p).2.mapError Error.label? = .error (some "UnknownStrategyError") ∧
      ((s.restore p).1.strategies.get? "A").map (·.book.cash) =
        some (OrderedMap.ofList [(.usd, 5)]) ∧
      (s'.restore p).2.mapError Error.label? = .error (some "ConfigurationError") ∧
      ((s'.restore p).1.strategies.get? "A").map (·.book.positions) =
        some (OrderedMap.ofList [("A", 7)]) ∧
      (p.strategies.get? "A").map (·.book) =
        some (Book.start (OrderedMap.ofList [(.usd, .ofInt 1000)])) := by
  decide +kernel

end Snapshot
end Backtesting
