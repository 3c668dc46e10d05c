import Backtesting.Proofs.Calendar.Ordinal
import Backtesting.Proofs.Portfolio.Stores

/-!
What a rebalancing strategy remembers. It is the day on which it signaled last, and it signals only
when the bars of a day are in, so at every moment, after failed events too, it remembers a day of the
market. On a day that is later than all of these daily rebalancing is due again.
-/
namespace Backtesting

namespace Rule

theorem isDue_daily {last : Option Date} {d : Date} (h : ∀ e, last = some e → e < d) :
    isDue .daily last d = .ok true := by
  cases last with
  | none => rfl
  | some e =>
    obtain ⟨x, hx, hle⟩ := Date.addDays_one_of_lt (h e rfl)
    simp only [isDue, Frequency.next, hx, Except.map, Except.ok_bind, decide_eq_true hle]
    rfl

/-- Daily rebalancing signals for everything on a day that is later than the last one. -/
theorem signals_daily {last : Option Date} {d : Date} (h : ∀ e, last = some e → e < d)
    (market : MarketHistory) (position : Asset → Int) (assets : List Asset) :
    (rebalancing .daily last).signals market position assets d =
      .ok (rebalancing .daily (some d), Signals.same .rebalance assets) := by
  simp only [signals, isDue_daily h, Except.ok_bind, if_true]
  rfl

theorem eq_of_unused {r : Rule} {f : Frequency} (h : r.unused = rebalancing f none) :
    ∃ last, r = rebalancing f last := by
  cases r with
  | rebalancing f' last =>
    obtain rfl : f' = f := by simpa [unused] using h
    exact ⟨last, rfl⟩
  | buyAndHold initial => simp [unused] at h
  | crossover fast slow => simp [unused] at h

/-- A rule that signals remembers what it has remembered so far, or the day. -/
theorem lastRebalancing_signals {r r' : Rule} {market : MarketHistory} {position : Asset → Int}
    {assets : List Asset} {d e : Date} {signals : Signals}
    (h : r.signals market position assets d = .ok (r', signals))
    (hr : r'.lastRebalancing = .ok (some e)) : r.lastRebalancing = .ok (some e) ∨ e = d := by
  cases r with
  | buyAndHold initial =>
    obtain ⟨rfl, -⟩ := Prod.mk.inj (Except.ok.inj h)
    exact nomatch hr
  | rebalancing frequency last =>
    obtain ⟨due, -, h⟩ := Except.bind_eq_ok.mp h
    cases due
    · obtain ⟨rfl, -⟩ := Prod.mk.inj (Except.pure_eq_ok.mp h)
      exact Or.inl hr
    · obtain ⟨rfl, -⟩ := Prod.mk.inj (Except.pure_eq_ok.mp h)
      exact Or.inr (Option.some.inj (Except.ok.inj hr)).symm
  | crossover fast slow =>
    obtain ⟨found, -, h⟩ := Except.bind_eq_ok.mp h
    obtain ⟨rfl, -⟩ := Prod.mk.inj (Except.pure_eq_ok.mp h)
    exact nomatch hr

end Rule

namespace Portfolio

open Backtesting.Action (IsPath Keeps)

variable {d : Date} {n : String} {p q : Portfolio}

/-- What is remembered are days of the market. -/
def Remembers (p : Portfolio) : Prop :=
  ∀ n s e, p.strategies.get? n = some s → s.rule.lastRebalancing = .ok (some e) → e ∈ p.market.dates

/-- No rule has signaled, and no day is gone. -/
structure Unsignaled (p q : Portfolio) : Prop where
  rule : ∀ {n t}, q.strategies.get? n = some t → ∃ s, p.strategies.get? n = some s ∧ t.rule = s.rule
  dates : ∀ e ∈ p.market.dates, e ∈ q.market.dates

namespace Unsignaled

theorem isPath : IsPath Unsignaled where
  refl _ := ⟨fun {_ t} ht => ⟨t, ht, rfl⟩, fun _ he => he⟩
  trans h h' := by
    refine ⟨fun ht => ?_, fun e he => h'.dates e (h.dates e he)⟩
    obtain ⟨s, hs, hrule⟩ := h'.rule ht
    obtain ⟨s', hs', hrule'⟩ := h.rule hs
    exact ⟨s', hs', hrule.trans hrule'⟩

/-- Where the strategies stay as they are, no rule has signaled. -/
theorem of_eq (hstrategies : q.strategies = p.strategies)
    (hdates : ∀ e ∈ p.market.dates, e ∈ q.market.dates) : Unsignaled p q :=
  ⟨fun {_ t} ht => ⟨t, hstrategies ▸ ht, rfl⟩, hdates⟩

theorem put {s t : Strategy} (hs : p.strategies.get? n = some s) (hrule : t.rule = s.rule) :
    Unsignaled p { p with strategies := p.strategies.put n t } := by
  refine ⟨fun {m t'} ht' => ?_, fun _ he => he⟩
  by_cases hm : m = n
  · subst hm
    obtain rfl : t = t' := by simpa using ht'
    exact ⟨s, hs, hrule⟩
  · exact ⟨t', by simpa [hm] using ht', rfl⟩

theorem allowsBooks (n : String) : AllowsBooks n Unsignaled where
  path := isPath
  book hs _ := put hs rfl
  fills _ _ _ := .of_eq rfl fun _ he => he
  signalCount _ _ := .of_eq rfl fun _ he => he
  orderCount _ := .of_eq rfl fun _ he => he
  brokerage _ _ _ := .of_eq rfl fun _ he => he
  journal _ _ := .of_eq rfl fun _ he => he

theorem split (p : Portfolio) (a : Asset) (c : Decimal) :
    Unsignaled p { p with market := (p.market.split a c).1 } :=
  .of_eq rfl fun e he => by rwa [MarketHistory.dates_split]

theorem takeIn (day : MarketDay) : Keeps Unsignaled (Portfolio.takeIn day) := by
  refine keeps_takeIn isPath (fun {p d bars market} happend => ?_)
    (fun _ => .of_eq rfl fun _ he => he) day
  obtain ⟨hlater, rfl⟩ := MarketHistory.append_eq_ok.mp happend
  exact .of_eq rfl fun e he => (Chronicle.Continues.put hlater bars).dates.subset he

theorem applyCorporateActions (day : MarketDay) :
    Keeps Unsignaled (Portfolio.applyCorporateActions day) :=
  AllowsBooks.applyCorporateActions allowsBooks split day

theorem allocateCapital (d : Date) : Keeps Unsignaled (Portfolio.allocateCapital d) :=
  keeps_allocateCapital isPath (fun _ {_ _} _ hs => put hs rfl) d

theorem remembers (h : Unsignaled p q) (hp : p.Remembers) : q.Remembers := by
  intro n t e ht he
  obtain ⟨s, hs, hrule⟩ := h.rule ht
  exact h.dates e (hp n s e hs (hrule ▸ he))

end Unsignaled

/-- Once the bars of a day are in, only days of the market are remembered. -/
def RemembersWith (d : Date) (p q : Portfolio) : Prop :=
  p.Remembers ∧ d ∈ p.market.dates → q.Remembers ∧ d ∈ q.market.dates

theorem Unsignaled.remembersWith (h : Unsignaled p q) : RemembersWith d p q :=
  fun ⟨hp, hd⟩ => ⟨h.remembers hp, h.dates d hd⟩

theorem remembersWith_runStrategy (d : Date) (n : String) :
    Keeps (RemembersWith d) (runStrategy d n) := by
  have hpath : IsPath (RemembersWith d) := IsPath.implies _
  refine Keeps.bind hpath (Keeps.get hpath) fun p' => ?_
  refine Keeps.bind hpath ?_ fun signals => ?_
  · rintro p ⟨hp, hd⟩
    unfold onStrategy
    cases hs : p.strategies.get? n with
    | none => exact ⟨hp, hd⟩
    | some s =>
      cases hfound : s.signals d p'.market with
      | error e =>
        simp only [hfound]
        exact (Unsignaled.put hs rfl).remembersWith ⟨hp, hd⟩
      | ok found =>
        obtain ⟨⟨rule, signals⟩, hrule, h⟩ := Except.bind_eq_ok.mp hfound
        obtain rfl := Except.pure_eq_ok.mp h
        simp only [hfound]
        refine ⟨fun m t e ht he => ?_, hd⟩
        by_cases hm : m = n
        · subst hm
          obtain rfl : { s with rule } = t := by simpa using ht
          rcases Rule.lastRebalancing_signals hrule he with hkept | rfl
          · exact hp m s e hs hkept
          · exact hd
        · exact hp m t e (by simpa [hm] using ht) he
  · split
    · exact ((Unsignaled.allowsBooks n).handleSignal d signals).imp
        fun _ _ => Unsignaled.remembersWith
    · exact Keeps.pure hpath ()

/-- A day is remembered only once its bars are in. -/
theorem Remembers.handleMarket (h : p.Remembers) (day : MarketDay) :
    (Portfolio.handleMarket day p).1.Remembers := by
  have hpath : IsPath (RemembersWith day.date) := IsPath.implies _
  have hstand : ∀ {α : Type} {x : Action Portfolio α}, Keeps Unsignaled x →
      Keeps (RemembersWith day.date) x := fun hx => hx.imp fun _ _ => Unsignaled.remembersWith
  have htake := Unsignaled.takeIn day p
  unfold Portfolio.handleMarket
  refine Action.of_bind (fun {t e} ht => ?_) fun {t _} ht => ?_
  · rw [ht] at htake
    exact htake.remembers h
  · rw [ht] at htake
    obtain ⟨market, fx, -, happend, -, rfl⟩ := takeIn_eq_ok.mp ht
    obtain ⟨-, rfl⟩ := MarketHistory.append_eq_ok.mp happend
    have hin : day.date ∈ (p.market.bars.put day.date day.bars).dates :=
      Chronicle.mem_dates_put_self ..
    have hrest : Keeps (RemembersWith day.date) (do
        applyCorporateActions day
        allocateCapital day.date
        let p ← Action.get
        Action.forEach p.strategies.keys (runStrategy day.date)
        let _ ← recordEquity day.date) := by
      refine Keeps.bind hpath (hstand (Unsignaled.applyCorporateActions day)) fun _ => ?_
      refine Keeps.bind hpath (hstand (Unsignaled.allocateCapital day.date)) fun _ => ?_
      refine Keeps.bind hpath (Keeps.get hpath) fun p => ?_
      refine Keeps.bind hpath (Keeps.forEach hpath (remembersWith_runStrategy day.date) _)
        fun _ => ?_
      refine Keeps.bind hpath (hstand (keeps_recordEquity Unsignaled.isPath
        (fun _ _ => .of_eq rfl fun _ he => he) (fun _ _ => .of_eq rfl fun _ he => he) day.date))
        fun _ => ?_
      exact Keeps.pure hpath ()
    exact (hrest _ ⟨htake.remembers h, hin⟩).1

theorem Remembers.handle (h : p.Remembers) (e : Event) : (Portfolio.handle e p).1.Remembers := by
  cases e with
  | market day => exact h.handleMarket day
  | _ =>
    refine Unsignaled.remembers (AllowsBooks.handle Unsignaled.allowsBooks Unsignaled.split _ ?_ p) h
    exact nofun

theorem remembers_after (h : p.Remembers) (events : List Event) : (after events p).Remembers := by
  induction events generalizing p with
  | nil => exact h
  | cons e events ih => exact ih (h.handle e)

end Portfolio
end Backtesting
