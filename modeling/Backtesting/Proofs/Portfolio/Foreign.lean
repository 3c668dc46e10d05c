import Backtesting.Proofs.Portfolio.Built
import Backtesting.Proofs.Portfolio.Day
import Backtesting.Proofs.Strategy.Foreign
import Backtesting.Proofs.Strategy.Value

/-!
Data that a portfolio has no use for. Two portfolios see alike when they are the same but for the
histories and the journal, and the histories agree on what the strategies list and on the currencies
they need. Every phase of a day leaves such portfolios so, and bars and rates of anything else pass by:
their dividends reach nobody and their splits change bars that are never looked at. So putting such
data into the days of a run changes nothing else, as long as the bars of those assets can be adjusted.
-/
namespace Backtesting

open Backtesting.Action (Shadows ShadowsAt bind_eq_ok)
open Backtesting.Except (Matches)
open Backtesting.Strategy (SameError StaysIn HoldsListed)

namespace Portfolio

variable {as : Asset → Prop} {cs : Currency → Prop} {C F : Prop} {d : Date} {n : String} {a : Asset}
  {p q : Portfolio}

/-- The capital that the strategies are told to work with is in the currencies. -/
def IsFunded (cs : Currency → Prop) (p : Portfolio) : Prop :=
  ∀ n s, p.strategies.get? n = some s → ∀ c ∈ s.book.target.keys, cs c

/-- Capital is handed out beforehand. -/
def IsFixed (p : Portfolio) : Prop := ∃ capital, p.allocator = .fixed capital

/-- The same portfolios but for journals and for histories that agree on what is needed. The books
hold listed assets only where `C` says so, and the capital is in the currencies where `F` does. -/
structure SeesAlike (as : Asset → Prop) (cs : Currency → Prop) (C F : Prop) (p q : Portfolio) :
    Prop where
  same : q = { p with market := q.market, fx := q.fx, journal := q.journal }
  market : p.market.AgreesOn as q.market
  fx : p.fx.AgreesOn cs q.fx
  base : cs p.base
  rateBase : cs p.fx.base
  stays : ∀ n s, p.strategies.get? n = some s → s.StaysIn as cs ∧ (C → s.HoldsListed)
  funded : p.IsFixed ∨ F → p.IsFunded cs
  grants : ∀ capital, p.allocator = .fixed capital → ∀ e ∈ capital, ∀ entry ∈ e.2, ∀ c,
    Currency.read (.text entry.1) = .ok c → cs c

namespace SeesAlike

theorem strategies_eq (h : SeesAlike as cs C F p q) : q.strategies = p.strategies := by rw [h.same]

theorem strategy_eq (h : SeesAlike as cs C F p q) (n : String) : p.strategy n = q.strategy n := by
  rw [strategy, strategy, h.strategies_eq]

theorem bar?_eq (h : SeesAlike as cs C F p q) (ha : as a) (d : Date) :
    (p.venue.getD p.market).bar? d a = (q.venue.getD q.market).bar? d a := by
  have hvenue : q.venue = p.venue := by rw [h.same]
  rw [hvenue]
  cases p.venue with
  | none => exact h.market.bar?_eq ha d
  | some venue => rfl

theorem forget (h : SeesAlike as cs C True p q) : SeesAlike as cs C False p q :=
  { h with funded := fun hfixed => h.funded (Or.inl (hfixed.resolve_right id)) }

/-- What is written to the strategies on both sides. -/
theorem put (h : SeesAlike as cs C F p q) {s t : Strategy} (hs : p.strategies.get? n = some s)
    (ht : s.Evolves t) :
    SeesAlike as cs C F { p with strategies := p.strategies.put n t }
      { q with strategies := p.strategies.put n t } where
  same := by rw [h.same]
  market := h.market
  fx := h.fx
  base := h.base
  rateBase := h.rateBase
  stays := OrderedMap.forall_get?_put h.stays
    ⟨(h.stays n s hs).1.of_evolves ht, fun hC => ((h.stays n s hs).2 hC).of_evolves ht⟩
  funded hF := OrderedMap.forall_get?_put (h.funded hF) (ht.book.target ▸ h.funded hF n s hs)
  grants := h.grants

/-- Strategies that do not list an asset never do. -/
theorem contains_eq_false (h : SeesAlike as cs C F p q) (ha : ¬ as a) {s : Strategy}
    (hs : p.strategies.get? n = some s) : s.assets.contains a = false := by
  rw [Bool.eq_false_iff]
  intro hlisted
  exact ha ((h.stays n s hs).1.assets a (OrderedMap.contains_eq_true_iff.mp hlisted))

end SeesAlike

section Trading

theorem shadows_log (level level' : Level) (text text' : String) :
    Shadows (SameError C) (SeesAlike as cs C F) Eq (log level text) (log level' text') :=
  Shadows.modify fun _ _ h =>
    ⟨by rw [h.same], h.market, h.fx, h.base, h.rateBase, h.stays, h.funded, h.grants⟩

theorem shadows_strategy (n : String) :
    Shadows (SameError C) (SeesAlike as cs C F) Eq (Action.read (·.strategy n))
      (Action.read (·.strategy n)) :=
  Shadows.read fun _ _ h => .of_eq (h.strategy_eq n)

/-- A step of a strategy that comes out the same for the strategies that stay within. -/
theorem shadows_onStrategy {S : α → α → Prop} {x y : Action Strategy α}
    (hx : ∀ s : Strategy, s.Evolves (x s).1)
    (hxy : ∀ s : Strategy, s.StaysIn as cs → (x s).1 = (y s).1 ∧ Matches (SameError C) S (x s).2 (y s).2) :
    Shadows (SameError C) (SeesAlike as cs C F) S (onStrategy n x) (onStrategy n y) := by
  intro p q h
  unfold ShadowsAt onStrategy
  rw [h.strategies_eq]
  cases hs : p.strategies.get? n with
  | none => exact ⟨h, .error fun _ => rfl⟩
  | some s =>
    obtain ⟨hstate, hanswer⟩ := hxy s (h.stays n s hs).1
    refine ⟨?_, hanswer⟩
    dsimp only
    rw [← hstate]
    exact h.put hs (hx s)

theorem shadows_handleFill (f : Fill) :
    Shadows (SameError C) (SeesAlike as cs C F) Eq (handleFill f) (handleFill f) := by
  refine Shadows.bind (shadows_onStrategy (Strategy.evolves_applyFill f)
    fun s _ => ⟨rfl, .of_eq rfl⟩) fun _ _ _ => ?_
  refine Shadows.bind (Shadows.modify fun _ _ h => ?_) fun _ _ _ => shadows_log _ _ _ _
  exact ⟨by rw [h.same], h.market, h.fx, h.base, h.rateBase, h.stays, h.funded, h.grants⟩

theorem shadows_submit {o : Order} (ha : as o.asset) :
    Shadows (SameError C) (SeesAlike as cs C F) Eq (submit o) (submit o) := by
  intro p q h
  have hbrokerage : q.brokerage = p.brokerage := by rw [h.same]
  have hsubmit : p.brokerage.submit (p.venue.getD p.market) o =
      p.brokerage.submit (q.venue.getD q.market) o := by
    rw [Brokerage.submit, Brokerage.submit, h.bar?_eq ha]
  unfold ShadowsAt submit
  rw [hbrokerage, hsubmit]
  refine ⟨⟨?_, h.market, h.fx, h.base, h.rateBase, h.stays, h.funded, h.grants⟩, .of_eq rfl⟩
  rw [h.same]

theorem shadows_handleOrder {r : OrderRequest} (ha : as r.asset) :
    Shadows (SameError C) (SeesAlike as cs C F) Eq (handleOrder r) (handleOrder r) := by
  refine Shadows.bind (shadows_strategy r.strategy) fun _ _ _ => ?_
  have hvalidate : Shadows (SameError C) (SeesAlike as cs C F) (fun o o' => o = o' ∧ as o.asset)
      (Action.ofExcept r.validate) (Action.ofExcept r.validate) := by
    intro p q h
    refine ⟨h, ?_⟩
    cases hr : r.validate with
    | error e => simpa [Action.ofExcept, hr] using Matches.error fun _ => rfl
    | ok o =>
      have hasset : as o.asset := (validate_eq_ok hr).2.2.1 ▸ ha
      simpa [Action.ofExcept, hr] using Matches.ok ⟨rfl, hasset⟩
  refine Shadows.bind hvalidate ?_
  rintro o _ ⟨rfl, hasset⟩
  refine Shadows.bind (Shadows.modify fun _ _ h => ?_) fun _ _ _ => ?_
  · exact ⟨by rw [h.same], h.market, h.fx, h.base, h.rateBase, h.stays, h.funded, h.grants⟩
  refine Shadows.bind (shadows_submit hasset) ?_
  rintro outcome _ rfl
  cases outcome with
  | noBar => exact shadows_log _ _ _ _
  | unmatched close => exact shadows_log _ _ _ _
  | filled f => exact Shadows.bind (shadows_log _ _ _ _) fun _ _ _ => shadows_handleFill f

theorem shadows_submitTarget {e : Asset × Int} (ha : as e.1) :
    Shadows (SameError C) (SeesAlike as cs C F) Eq (submitTarget n d e) (submitTarget n d e) := by
  refine Shadows.bind (shadows_strategy n) ?_
  rintro s _ rfl
  dsimp only
  split
  · exact Shadows.pure rfl
  · refine Shadows.bind (Shadows.read fun _ _ h =>
      .of_eq (s.pricing.prices_agree h.market ha d _)) ?_
    rintro prices _ rfl
    exact shadows_handleOrder ha

theorem shadows_submitTargets {sizes : OrderedMap Asset Int} (hsizes : ∀ a ∈ sizes.keys, as a) :
    Shadows (SameError C) (SeesAlike as cs C F) Eq (submitTargets n d sizes)
      (submitTargets n d sizes) :=
  Shadows.forEach fun e he => shadows_submitTarget (hsizes e.1 (List.mem_map.mpr ⟨e, he, rfl⟩))

/-- What is signaled is sized alike once the capital is in the currencies. -/
theorem shadows_handleSignal {signals : Signals} (hsignals : ∀ a ∈ signals.keys, as a) :
    Shadows (SameError C) (SeesAlike as cs C True) Eq (handleSignal d n signals)
      (handleSignal d n signals) := by
  intro p q h
  refine (shadows_strategy n p q h).bind fun {p' q' s s'} hp hq h' hs => ?_
  obtain ⟨rfl, hget⟩ := Action.read_eq_ok.mp hp
  obtain ⟨rfl, -⟩ := Action.read_eq_ok.mp hq
  subst hs
  have hs := strategy_eq_ok.mp hget
  obtain ⟨hstays, hlisted⟩ := h.stays n s hs
  have hfunded := h.funded (Or.inr trivial) n s hs
  refine ShadowsAt.bind (Shadows.modify (fun _ _ h => ?_) p' q' h') fun hp hq h' _ => ?_
  · exact ⟨by rw [h.same], h.market, h.fx, h.base, h.rateBase, h.stays, h.funded, h.grants⟩
  refine ShadowsAt.bind (Shadows.read (S := fun x y => x = y ∧ ∀ a ∈ x.keys, as a)
    (fun _ _ h => ?_) _ _ h') fun {_ _ sizes sizes'} _ _ h' hsizes => ?_
  · refine (Strategy.matches_sizesFor h.market h.fx hstays hlisted h.rateBase hfunded s.sizer
      hsignals).imp fun sizes _ hsizes _ hsame => ⟨hsame, fun a ha => hsignals a ?_⟩
    exact Sizer.mem_of_sizesFor hsizes ha
  · obtain ⟨rfl, hsizes⟩ := hsizes
    exact shadows_submitTargets hsizes _ _ h'

/-- The signals of a strategy that stays within are for assets of its own. -/
theorem shadows_signals {market market' : MarketHistory} (hmarket : market.AgreesOn as market') :
    Shadows (SameError C) (SeesAlike as cs C F) (fun x y => x = y ∧ ∀ a ∈ x.keys, as a)
      (onStrategy n fun s =>
        match s.signals d market with
        | .ok (s, signals) => (s, .ok signals)
        | .error e => (s, .error e))
      (onStrategy n fun s =>
        match s.signals d market' with
        | .ok (s, signals) => (s, .ok signals)
        | .error e => (s, .error e)) := by
  refine shadows_onStrategy (fun s => ?_) fun s hs => ?_
  · cases hfound : s.signals d market with
    | error e => exact ⟨rfl, Book.Evolves.isPath.refl s.book⟩
    | ok found => exact Strategy.evolves_signals hfound
  · rw [← Strategy.signals_agree hmarket hs d]
    refine ⟨rfl, ?_⟩
    cases hfound : s.signals d market with
    | error e => exact .error fun _ => rfl
    | ok found => exact .ok ⟨rfl, fun a ha => hs.assets a (Strategy.mem_of_signals hfound ha)⟩

theorem shadows_runStrategy (d : Date) (n : String) :
    Shadows (SameError C) (SeesAlike as cs C True) Eq (runStrategy d n) (runStrategy d n) := by
  refine Shadows.bind Shadows.get fun p q h => ?_
  refine Shadows.bind (shadows_signals h.market) ?_
  rintro signals _ ⟨rfl, hsignals⟩
  split
  · exact shadows_handleSignal hsignals
  · exact Shadows.pure rfl

end Trading

section Actions

theorem shadows_handleDividend (d : Date) (a : Asset) (perShare : Amount) :
    Shadows (SameError C) (SeesAlike as cs C F) Eq (handleDividend d a perShare)
      (handleDividend d a perShare) := by
  refine Shadows.bind Shadows.get fun p q h => ?_
  rw [h.strategies_eq]
  refine Shadows.forEach fun n _ => Shadows.bind (shadows_strategy n) ?_
  rintro s _ rfl
  split
  · refine Shadows.bind (shadows_onStrategy (Strategy.evolves_applyDividend a perShare)
      fun s _ => ⟨rfl, .of_eq rfl⟩) ?_
    rintro credit _ rfl
    split
    · exact shadows_log _ _ _ _
    · exact Shadows.pure rfl
  · exact Shadows.pure rfl

theorem evolves_updateSplit (a : Asset) (ratio : Amount) (s : Strategy) :
    s.Evolves (Action.update (·.applySplit a ratio) s).1 := by
  cases hs : s.applySplit a ratio with
  | error e => simpa [Action.update, hs] using ⟨rfl, Book.Evolves.isPath.refl s.book⟩
  | ok t => simpa [Action.update, hs] using Strategy.evolves_applySplit hs

theorem shadows_handleSplit (ha : as a) (d : Date) (ratio : Amount) :
    Shadows (SameError C) (SeesAlike as cs C F) Eq (handleSplit d a ratio)
      (handleSplit d a ratio) := by
  refine Shadows.bind Shadows.get fun p q h => ?_
  rw [h.strategies_eq]
  refine Shadows.bind (Shadows.forEach fun n _ => Shadows.bind (shadows_strategy n) ?_) fun _ _ _ => ?_
  · rintro s _ rfl
    split
    · exact shadows_onStrategy (evolves_updateSplit a ratio) fun s _ => ⟨rfl, .of_eq rfl⟩
    · exact Shadows.pure rfl
  refine Shadows.bind (Shadows.ofExcept _) ?_
  rintro c _ rfl
  refine Shadows.bind (S := Eq) (fun p q h => ?_) fun _ _ _ => shadows_log _ _ _ _
  obtain ⟨hmarket, hcount⟩ := h.market.split ha c
  exact ⟨⟨by rw [splitBars, splitBars, h.same], hmarket, h.fx, h.base, h.rateBase, h.stays,
    h.funded, h.grants⟩, .of_eq hcount⟩

/-- Nobody is paid the dividend of an asset that nobody lists. -/
theorem handleDividend_unlisted {perShare : Amount}
    (ha : ∀ n s, p.strategies.get? n = some s → s.assets.contains a = false) :
    handleDividend d a perShare p = (p, .ok ()) := by
  have hget : (Action.get : Action Portfolio Portfolio) p = (p, .ok p) := rfl
  rw [handleDividend, Action.bind_ok hget]
  refine Action.forEach_of_id fun n hn => ?_
  obtain ⟨s, hs⟩ := OrderedMap.mem_keys_iff.mp hn
  have hread : Action.read (·.strategy n) p = (p, .ok s) := by
    rw [Action.read, strategy_eq_ok.mpr hs]
  rw [creditDividend, Action.bind_ok hread, ha n s hs]
  rfl

/-- A split of an asset that nobody lists changes the bars alone. -/
theorem handleSplit_unlisted {c : Decimal}
    (ha : ∀ n s, p.strategies.get? n = some s → s.assets.contains a = false) :
    ∃ journal, handleSplit d a (.known c) p =
      ({ p with market := (p.market.split a c).1, journal },
        (p.market.split a c).2.map fun _ => ()) := by
  have hget : (Action.get : Action Portfolio Portfolio) p = (p, .ok p) := rfl
  have hpositions : Action.forEach p.strategies.keys (splitPosition a (.known c)) p =
      (p, .ok ()) := by
    refine Action.forEach_of_id fun n hn => ?_
    obtain ⟨s, hs⟩ := OrderedMap.mem_keys_iff.mp hn
    have hread : Action.read (·.strategy n) p = (p, .ok s) := by
      rw [Action.read, strategy_eq_ok.mpr hs]
    rw [splitPosition, Action.bind_ok hread, ha n s hs]
    rfl
  have hratio : (Action.ofExcept (Amount.known c).read : Action Portfolio Decimal) p =
      (p, .ok c) := rfl
  rw [handleSplit, Action.bind_ok hget, Action.bind_ok hpositions, Action.bind_ok hratio]
  rcases hsplit : p.market.split a c with ⟨market, e | n⟩
  · have hbars : splitBars a c p = ({ p with market }, .error e) := by rw [splitBars, hsplit]
    exact ⟨p.journal, Action.bind_error hbars⟩
  · have hbars : splitBars a c p = ({ p with market }, .ok n) := by rw [splitBars, hsplit]
    exact ⟨_, Action.bind_ok hbars⟩

/-- Where the dividends of further assets pass by, only the others count. -/
theorem shadows_dividends {l l' : List (Asset × Bar)} (hl : Inserts (fun e => ¬ as e.1) l l')
    (d : Date) :
    Shadows (SameError C) (SeesAlike as cs C F) Eq
      (Action.forEach l fun (a, bar) => handleDividend d a (.known bar.dividend))
      (Action.forEach l' fun (a, bar) => handleDividend d a (.known bar.dividend)) := by
  induction hl with
  | nil => exact Shadows.pure rfl
  | keep e _ ih => exact Shadows.bind (shadows_handleDividend d e.1 _) fun _ _ _ => ih
  | @insert l l' e he _ ih =>
    intro p q h
    have hskip : handleDividend d e.1 (.known e.2.dividend) q = (q, .ok ()) :=
      handleDividend_unlisted fun n s hs =>
        h.contains_eq_false he (show p.strategies.get? n = some s by rw [← h.strategies_eq, hs])
    unfold ShadowsAt
    rw [Action.forEach_cons, Action.bind_ok hskip]
    exact ih p q h

/-- The splits of other assets succeed when their turn comes. -/
def SplitsPass (as : Asset → Prop) (d : Date) : List (Asset × Bar) → Portfolio → Prop
  | [], _ => True
  | e :: l, p => (¬ as e.1 → ∃ n, (p.market.split e.1 e.2.split).2 = .ok n) ∧
      ∀ q, handleSplit d e.1 (.known e.2.split) p = (q, .ok ()) → SplitsPass as d l q

/-- A split of another asset that succeeds is not seen, whichever side it is on. -/
theorem SeesAlike.split_right (h : SeesAlike as cs C F p q) (ha : ¬ as a) {c : Decimal} {k : Nat}
    (hk : (q.market.split a c).2 = .ok k) :
    ∃ q', handleSplit d a (.known c) q = (q', .ok ()) ∧ SeesAlike as cs C F p q' := by
  have hunlisted : ∀ n s, q.strategies.get? n = some s → s.assets.contains a = false :=
    fun n s hs => h.contains_eq_false ha (show p.strategies.get? n = some s by rw [← h.strategies_eq, hs])
  obtain ⟨journal, hsplit⟩ := handleSplit_unlisted (d := d) (c := c) hunlisted
  rw [hk] at hsplit
  refine ⟨_, hsplit, ⟨?_, h.market.split_right ha c, h.fx, h.base, h.rateBase, h.stays, h.funded,
    h.grants⟩⟩
  rw [h.same]

theorem SeesAlike.split_left (h : SeesAlike as cs C F p q) (ha : ¬ as a) {c : Decimal} {k : Nat}
    (hk : (p.market.split a c).2 = .ok k) :
    ∃ p', handleSplit d a (.known c) p = (p', .ok ()) ∧ SeesAlike as cs C F p' q := by
  obtain ⟨journal, hsplit⟩ := handleSplit_unlisted (d := d) (c := c)
    fun n s hs => h.contains_eq_false ha (p := p) (q := q) hs
  rw [hk] at hsplit
  refine ⟨_, hsplit, ⟨?_, h.market.split_left ha c, h.fx, h.base, h.rateBase, h.stays, h.funded,
    h.grants⟩⟩
  rw [h.same]

theorem shadows_splits {l l' : List (Asset × Bar)} (hl : Inserts (fun e => ¬ as e.1) l l')
    (h : SeesAlike as cs C F p q) (hp : SplitsPass as d l p) (hq : SplitsPass as d l' q) :
    ShadowsAt (SameError C) (SeesAlike as cs C F) Eq
      (Action.forEach l fun (a, bar) => handleSplit d a (.known bar.split))
      (Action.forEach l' fun (a, bar) => handleSplit d a (.known bar.split)) p q := by
  induction hl generalizing p q with
  | nil => exact ⟨h, .ok rfl⟩
  | @keep l l' e _ ih =>
    by_cases he : as e.1
    · refine (shadows_handleSplit he d (.known e.2.split) p q h).bind fun {p' q' _ _} hp' hq' h' _ => ?_
      exact ih h' (hp.2 p' hp') (hq.2 q' hq')
    · obtain ⟨k, hk⟩ := hp.1 he
      obtain ⟨k', hk'⟩ := hq.1 he
      obtain ⟨p', hp', h'⟩ := h.split_left (d := d) he hk
      obtain ⟨q', hq', h'⟩ := h'.split_right (d := d) he hk'
      unfold ShadowsAt
      rw [Action.forEach_cons, Action.forEach_cons, Action.bind_ok hp', Action.bind_ok hq']
      exact ih h' (hp.2 p' hp') (hq.2 q' hq')
  | @insert l l' e he _ ih =>
    obtain ⟨k, hk⟩ := hq.1 he
    obtain ⟨q', hq', h'⟩ := h.split_right (d := d) he hk
    unfold ShadowsAt
    rw [Action.forEach_cons, Action.bind_ok hq']
    exact ih h' hp (hq.2 q' hq')

end Actions

section Day

variable {day day' : MarketDay} {cs' : Currency → Prop}

/-- The splits of other assets succeed on the day, if it comes to them. -/
def DaySplitsPass (as : Asset → Prop) (day : MarketDay) (p : Portfolio) : Prop :=
  ∀ u v, takeIn day p = (u, .ok ()) →
    Action.forEach (day.bars.toList.filter (·.2.hasDividend))
      (fun (a, bar) => handleDividend day.date a (.known bar.dividend)) u = (v, .ok ()) →
    SplitsPass as day.date (day.bars.toList.filter (·.2.hasSplit)) v

/-- Rates of the base of the rates may be among the further ones. -/
theorem shadows_takeIn (hday : day.Extends as cs' day') (h : SeesAlike as cs C F p q)
    (hcs : ∀ c, cs c → c ≠ p.fx.base → cs' c) :
    ShadowsAt (SameError C) (SeesAlike as cs C F) Eq (takeIn day) (takeIn day') p q := by
  refine ShadowsAt.bind (.update h ?_) fun {p₁ q₁ _ _} hp₁ _ h₁ _ => ?_
  · have hequity : q.equity = p.equity := by rw [h.same]
    rw [hday.date, hequity]
    split
    · exact .error fun _ => rfl
    · exact .ok h
  refine ShadowsAt.bind (.update h₁ ?_) fun {p₂ q₂ _ _} hp₂ _ h₂ _ => ?_
  · have happend := h₁.market.append day.date (OrderedMap.agreesOn_of_inserts hday.bars)
    rw [hday.date]
    revert happend
    generalize p₁.market.append day.date day.bars = x
    generalize q₁.market.append day.date day'.bars = y
    rintro (hmarket | e)
    · exact .ok ⟨by rw [h₁.same], hmarket, h₁.fx, h₁.base, h₁.rateBase, h₁.stays, h₁.funded,
        h₁.grants⟩
    · exact .error fun _ => rfl
  have hfx : p₂.fx = p.fx := by
    obtain ⟨market, -, hmarket⟩ := Except.bind_eq_ok.mp (Action.update_eq_ok.mp hp₂)
    obtain rfl := Except.pure_eq_ok.mp hmarket
    have hchecked := Action.update_eq_ok.mp hp₁
    split at hchecked
    · simp at hchecked
    · rw [← Except.ok.inj hchecked]
  have hneeded : ∀ c, cs c ∧ c ≠ p₂.fx.base → cs' c := by
    rw [hfx]
    exact fun c hc => hcs c hc.1 hc.2
  refine .update h₂ ?_
  have happend := h₂.fx.append (hday.rates.imp fun e _ he => he.imp hneeded)
  have hbase : ∀ {g}, p₂.fx.append day.date day.rates = .ok g → g.base = p₂.fx.base :=
    FxHistory.base_append
  rw [hday.date]
  revert happend hbase
  generalize p₂.fx.append day.date day.rates = x
  generalize q₂.fx.append day.date day'.rates = y
  rintro (hfx | e) hbase
  · exact .ok ⟨by rw [h₂.same], h₂.market, hfx, h₂.base, hbase rfl ▸ h₂.rateBase, h₂.stays,
      h₂.funded, h₂.grants⟩
  · exact .error fun _ => rfl

/-- Capital that is handed out is in the currencies. -/
theorem SeesAlike.mem_of_allocate (h : SeesAlike as cs C F p q) {capital : List (String × BalanceSheet)}
    (hcapital : p.allocator.allocate p.strategies d p.base p.market p.fx = .ok capital)
    {e : String × BalanceSheet} (he : e ∈ capital) {target : Balances}
    (htarget : e.2.read = .ok target) : ∀ c ∈ target.keys, cs c := by
  by_cases hfixed : p.IsFixed
  · obtain ⟨fixed, hallocator⟩ := hfixed
    rw [hallocator] at hcapital
    obtain rfl := Except.ok.inj hcapital
    obtain ⟨⟨n, written⟩, hmem, rfl⟩ := List.mem_map.mp he
    obtain ⟨entries, hentries, htarget⟩ := Except.bind_eq_ok.mp htarget
    obtain rfl := Except.pure_eq_ok.mp htarget
    intro c hc
    obtain ⟨⟨c', x⟩, hx, rfl⟩ := List.mem_map.mp (OrderedMap.mem_keys_ofList.mp hc)
    obtain ⟨entry, hentry, hread⟩ := Except.mem_of_mapM hentries hx
    obtain ⟨c, hcurrency, hread⟩ := Except.bind_eq_ok.mp hread
    obtain ⟨y, -, hread⟩ := Except.bind_eq_ok.mp hread
    obtain ⟨rfl, rfl⟩ := Prod.mk.inj (Except.pure_eq_ok.mp hread)
    exact h.grants fixed hallocator (n, written) hmem entry hentry c hcurrency
  · obtain ⟨v, hv⟩ := Allocator.exists_inBase (fun fixed hfix => hfixed ⟨fixed, hfix⟩) hcapital he
    rw [hv] at htarget
    obtain rfl := Except.ok.inj htarget
    intro c hc
    rcases OrderedMap.mem_keys_put.mp hc with rfl | hc
    · exact h.base
    · exact absurd hc List.not_mem_nil

theorem shadows_setTarget {sheet : BalanceSheet}
    (hsheet : ∀ target, sheet.read = .ok target → ∀ c ∈ target.keys, cs c) :
    Shadows (SameError C) (SeesAlike as cs C F) Eq
      (onStrategy n (Action.update (·.setTarget sheet)))
      (onStrategy n (Action.update (·.setTarget sheet))) := by
  intro p q h
  unfold ShadowsAt onStrategy
  rw [h.strategies_eq]
  cases hs : p.strategies.get? n with
  | none => exact ⟨h, .error fun _ => rfl⟩
  | some s =>
    refine ⟨?_, .of_eq rfl⟩
    cases hset : s.setTarget sheet with
    | error e =>
      have hkept := h.put hs ⟨rfl, Book.Evolves.isPath.refl s.book⟩
      simpa [Action.update, hset] using hkept
    | ok t =>
      obtain ⟨target, htarget, rfl⟩ := Strategy.setTarget_eq_ok hset
      have hstays := (h.stays n s hs).1
      simp only [Action.update, hset]
      exact {
        same := by rw [h.same]
        market := h.market
        fx := h.fx
        base := h.base
        rateBase := h.rateBase
        stays := OrderedMap.forall_get?_put h.stays
          ⟨⟨hstays.assets, hstays.listings, hstays.cash⟩, (h.stays n s hs).2⟩
        funded := fun hF => OrderedMap.forall_get?_put (h.funded hF) (hsheet target htarget)
        grants := h.grants }

/-- A strategy that is handed capital has what was read of it, and another one what it had. -/
theorem target_of_setTargets {capital : List (String × BalanceSheet)}
    (h : Action.forEach capital
      (fun (n, c) => onStrategy n (Action.update (·.setTarget c))) p = (q, .ok ()))
    {s : Strategy} (hs : q.strategies.get? n = some s) :
    (∃ c, (n, c) ∈ capital ∧ c.read = .ok s.book.target) ∨
      n ∉ capital.map Prod.fst ∧ ∃ t, p.strategies.get? n = some t ∧ s.book.target = t.book.target := by
  induction capital generalizing p with
  | nil =>
    obtain rfl := Action.forEach_nil_eq_ok.mp h
    exact Or.inr ⟨List.not_mem_nil, s, hs, rfl⟩
  | cons e capital ih =>
    obtain ⟨u, hu, hrest⟩ := Action.forEach_cons_eq_ok.mp h
    obtain ⟨t, target, ht, htarget, rfl⟩ := setTarget_eq_ok hu
    rcases ih hrest with ⟨c, hc, hread⟩ | ⟨hn, t', ht', hsame⟩
    · exact Or.inl ⟨c, List.mem_cons_of_mem e hc, hread⟩
    · by_cases hen : n = e.1
      · obtain rfl : { t with book := { t.book with target } } = t' := by simpa [hen] using ht'
        exact Or.inl ⟨e.2, by simp [hen], by rw [htarget, hsame]⟩
      · refine Or.inr ⟨by simp [hen, hn], t', by simpa [hen] using ht', hsame⟩

/-- Capital that is not fixed beforehand goes to every strategy. -/
theorem exists_mem_allocate {capital : List (String × BalanceSheet)} {strategies : Strategies}
    {base : Currency} {market : MarketHistory} {fx : FxHistory} {allocator : Allocator}
    (h : allocator.allocate strategies d base market fx = .ok capital)
    (hfixed : ∀ fixed, allocator ≠ .fixed fixed) (hn : n ∈ strategies.keys) :
    n ∈ capital.map Prod.fst := by
  cases allocator with
  | selfFunded =>
    obtain ⟨worth, hworth, h⟩ := Except.bind_eq_ok.mp h
    obtain rfl := Except.pure_eq_ok.mp h
    rw [← (Allocator.values_eq_ok hworth).1] at hn
    simpa [List.map_map, Function.comp_def] using hn
  | equalWeight =>
    rw [Allocator.allocate] at h
    split at h
    · next hnone =>
      have hempty : strategies.keys = [] := by
        simpa [OrderedMap.isEmpty, OrderedMap.keys] using hnone
      rw [hempty] at hn
      exact absurd hn List.not_mem_nil
    · obtain ⟨total, -, h⟩ := Except.bind_eq_ok.mp h
      obtain ⟨share, -, h⟩ := Except.bind_eq_ok.mp h
      obtain rfl := Except.pure_eq_ok.mp h
      simpa [List.map_map, Function.comp_def] using hn
  | fixed capital => exact absurd rfl (hfixed capital)

theorem SeesAlike.isFunded_of_allocateCapital {p' : Portfolio} (h : SeesAlike as cs C F p q)
    (hrun : allocateCapital d p = (p', .ok ())) : p'.IsFunded cs := by
  obtain ⟨u, capital, hread, hset⟩ := bind_eq_ok.mp hrun
  obtain ⟨rfl, hcapital⟩ := Action.read_eq_ok.mp hread
  obtain ⟨strategies, hp', hkeys, -⟩ := allocateCapital_eq_ok hrun
  intro n s hs
  rcases target_of_setTargets hset hs with ⟨c, hc, hread⟩ | ⟨hn, t, ht, hsame⟩
  · exact h.mem_of_allocate hcapital hc hread
  · by_cases hfixed : u.IsFixed
    · rw [hsame]
      exact h.funded (Or.inl hfixed) n t ht
    · refine absurd (exists_mem_allocate hcapital (fun fixed hfix => hfixed ⟨fixed, hfix⟩) ?_) hn
      exact OrderedMap.mem_keys_of_get? ht

theorem shadows_allocateCapital (d : Date) :
    Shadows (SameError C) (SeesAlike as cs C F) Eq (allocateCapital d) (allocateCapital d) := by
  refine Shadows.bind (S := fun x y => x = y ∧ ∀ e ∈ x, ∀ target, e.2.read = .ok target →
    ∀ c ∈ target.keys, cs c) (Shadows.read fun p q h => ?_) ?_
  · have hallocate := Allocator.matches_allocate (d := d) h.market h.fx h.stays h.base p.allocator
    have hsame : q.allocator = p.allocator ∧ q.base = p.base := by
      rw [h.same]
      exact ⟨rfl, rfl⟩
    rw [h.strategies_eq, hsame.1, hsame.2]
    exact hallocate.imp fun capital _ hcapital _ heq =>
      ⟨heq, fun e he target htarget => h.mem_of_allocate hcapital he htarget⟩
  · rintro capital _ ⟨rfl, hcapital⟩
    exact Shadows.forEach fun e he => shadows_setTarget (hcapital e he)

theorem shadows_recordEquity (d : Date) :
    Shadows (SameError C) (SeesAlike as cs C F) Eq (recordEquity d) (recordEquity d) := by
  refine Shadows.bind (S := Eq) (Shadows.read fun p q h => ?_) ?_
  · have hbase : q.base = p.base := by rw [h.same]
    rw [totalValue, totalValue, h.strategies_eq, hbase]
    exact Strategies.matches_totalValue h.market h.fx h.stays h.base
  · rintro value _ rfl
    refine Shadows.bind (Shadows.update fun p q h => ?_) fun _ _ _ => ?_
    · have hequity : q.equity = p.equity := by rw [h.same]
      rw [hequity]
      cases p.equity.record d value with
      | error e => exact .error fun _ => rfl
      | ok equity => exact .ok ⟨by rw [h.same], h.market, h.fx, h.base, h.rateBase, h.stays,
          h.funded, h.grants⟩
    refine Shadows.bind Shadows.get fun p q h => ?_
    refine Shadows.bind (shadows_log _ _ _ _) fun _ _ _ => ?_
    exact Shadows.pure rfl

theorem shadows_applyCorporateActions (hday : day.Extends as cs' day') {u u' : Portfolio}
    (h : SeesAlike as cs C F u u') (htake : takeIn day p = (u, .ok ()))
    (htake' : takeIn day' q = (u', .ok ())) (hp : DaySplitsPass as day p)
    (hq : DaySplitsPass as day' q) :
    ShadowsAt (SameError C) (SeesAlike as cs C F) Eq (applyCorporateActions day)
      (applyCorporateActions day') u u' := by
  unfold applyCorporateActions
  rw [hday.date]
  refine ShadowsAt.bind (shadows_dividends (hday.bars.filter _) _ u u' h) ?_
  intro v v' _ _ hv hv' h' _
  refine shadows_splits (hday.bars.filter _) h' (hp u v htake hv) ?_
  rw [← hday.date] at hv' ⊢
  exact hq u' v' htake' hv'

/-- A day with data that is not needed has the same outcome as the day without it. -/
theorem shadows_handleMarket (hday : day.Extends as cs' day') (h : SeesAlike as cs C False p q)
    (hcs : ∀ c, cs c → c ≠ p.fx.base → cs' c) (hp : DaySplitsPass as day p)
    (hq : DaySplitsPass as day' q) :
    ShadowsAt (SameError C) (SeesAlike as cs C False) Eq (handleMarket day) (handleMarket day') p q := by
  unfold handleMarket
  refine ShadowsAt.bind (shadows_takeIn hday h hcs) fun htake htake' h₁ _ => ?_
  refine ShadowsAt.bind (shadows_applyCorporateActions hday h₁ htake htake' hp hq)
    fun _ _ h₂ _ => ?_
  rw [hday.date]
  refine ShadowsAt.bind (shadows_allocateCapital day.date _ _ h₂) fun {p₃ q₃ _ _} hallocate _ h₃ _ => ?_
  have h₃ : SeesAlike as cs C True p₃ q₃ :=
    { h₃ with funded := fun _ => h₂.isFunded_of_allocateCapital hallocate }
  refine ShadowsAt.imp ?_ fun _ _ => SeesAlike.forget
  refine Shadows.bind Shadows.get (fun u v huv => ?_) p₃ q₃ h₃
  rw [huv.strategies_eq]
  refine Shadows.bind (Shadows.forEach fun n _ => shadows_runStrategy day.date n) fun _ _ _ => ?_
  exact Shadows.bind (shadows_recordEquity day.date) fun _ _ _ => Shadows.pure rfl

theorem splitsPass_of_adjustable {l : List (Asset × Bar)} (hl : (l.map Prod.fst).Nodup)
    (h : ∀ e ∈ l, ¬ as e.1 → p.market.Adjustable e.1 e.2.split) : SplitsPass as d l p := by
  induction l generalizing p with
  | nil => trivial
  | cons e l ih =>
    rw [List.map_cons, List.nodup_cons] at hl
    refine ⟨fun he => (h e List.mem_cons_self he).split, fun q hq => ih hl.2 fun e' he' has => ?_⟩
    have hother : ¬ e.1 = e'.1 := fun heq => hl.1 (heq ▸ List.mem_map_of_mem he')
    rw [(SameStores.of_handleSplit hq).market]
    have hagree : p.market.AgreesOn (· = e'.1) (p.market.split e.1 e.2.split).1 := by
      refine MarketHistory.AgreesOn.split_right (.refl p.market) ?_ e.2.split
      exact hother
    exact (h e' (List.mem_cons_of_mem e he') has).of_agreesOn hagree rfl

/-- Splits of different assets do not get in each other's way. -/
theorem daySplitsPass_of_adjust
    (h : ∀ market, p.market.append day.date day.bars = .ok market → day.SplitsAdjust as market) :
    DaySplitsPass as day p := by
  intro u v htake hdividends
  obtain ⟨market, fx, -, happend, -, rfl⟩ := takeIn_eq_ok.mp htake
  have hpaid : SameStores { p with market, fx } v :=
    Action.Moves.forEach SameStores.isPath
      (fun e _ _ _ _ hpay => SameStores.of_handleDividend hpay) hdividends
  refine splitsPass_of_adjustable (day.bars.nodup.sublist (List.filter_sublist.map _)) ?_
  intro e he has
  rw [hpaid.market]
  exact h market happend e (List.mem_filter.mp he).1 (List.mem_filter.mp he).2 has

end Day

section Run

/-- The currencies that a fixed allocation hands out or leaves in place. -/
def Grants (p : Portfolio) (c : Currency) : Prop :=
  ∃ capital, p.allocator = .fixed capital ∧
    ((∃ e ∈ capital, ∃ entry ∈ e.2, Currency.read (.text entry.1) = .ok c) ∨
      ∃ n s, p.strategies.get? n = some s ∧ c ∈ s.book.target.keys)

/-- The currencies in which a portfolio counts, trades, holds cash or is given capital. The rate of
the base is one and never looked up. -/
def Reads (p : Portfolio) (c : Currency) : Prop :=
  c ≠ p.fx.base ∧ (c = p.base ∨ p.Uses c ∨ p.Grants c)

/-- Nothing is held but what the holder lists. -/
def HoldsListed (p : Portfolio) : Prop := ∀ n s, p.strategies.get? n = some s → s.HoldsListed

theorem seesAlike_refl (p : Portfolio) :
    SeesAlike p.Lists (fun c => c ≠ p.fx.base → p.Reads c) p.HoldsListed False p p where
  same := rfl
  market := .refl p.market
  fx := .refl p.fx
  base hne := ⟨hne, Or.inl rfl⟩
  rateBase hne := absurd rfl hne
  stays n s hs := {
    left := {
      assets := fun _ ha => ⟨n, s, hs, ha⟩
      listings := fun _ hc hne => ⟨hne, Or.inr (Or.inl ⟨n, s, hs, Or.inl hc⟩)⟩
      cash := fun _ hc hne => ⟨hne, Or.inr (Or.inl ⟨n, s, hs, Or.inr hc⟩)⟩ }
    right := fun hlisted => hlisted n s hs }
  funded hfixed n s hs c hc hne := by
    obtain ⟨capital, hcapital⟩ := hfixed.resolve_right id
    exact ⟨hne, Or.inr (Or.inr ⟨capital, hcapital, Or.inr ⟨n, s, hs, hc⟩⟩)⟩
  grants capital hcapital e he entry hentry c hc hne :=
    ⟨hne, Or.inr (Or.inr ⟨capital, hcapital, Or.inl ⟨e, he, entry, hentry, hc⟩⟩)⟩

/-- What became of the days, each on the state that the days before it left. -/
def outcomes : List MarketDay → Portfolio → List (Except Error Unit)
  | [], _ => []
  | day :: days, p => (handleMarket day p).2 :: outcomes days (handleMarket day p).1

/-- On every day the splits of other assets can be made in the history with the day. -/
def SplitsAdjust (as : Asset → Prop) : List MarketDay → Portfolio → Prop
  | [], _ => True
  | day :: days, p =>
      (∀ market, p.market.append day.date day.bars = .ok market → day.SplitsAdjust as market) ∧
        SplitsAdjust as days (handleMarket day p).1

theorem fxBase_handleMarket (day : MarketDay) (p : Portfolio) :
    (handleMarket day p).1.fx.base = p.fx.base := by
  obtain ⟨-, -, -, -, -, hbase, -⟩ := config_of_setup_eq (allowsEvents_setup.handle (.market day) p)
  exact hbase

/-- A run over days with data that is not needed follows the run without it, failed days included. -/
theorem seesAlike_after {cs' : Currency → Prop} {days days' : List MarketDay}
    (hdays : List.Forall₂ (MarketDay.Extends as cs') days days') (h : SeesAlike as cs C False p q)
    (hcs : ∀ c, cs c → c ≠ p.fx.base → cs' c) (hp : SplitsAdjust as days p)
    (hq : SplitsAdjust as days' q) :
    SeesAlike as cs C False (after (days.map .market) p) (after (days'.map .market) q) ∧
      List.Forall₂ (Matches (SameError C) Eq) (outcomes days p) (outcomes days' q) := by
  induction hdays generalizing p q with
  | nil => exact ⟨h, .nil⟩
  | cons hday _ ih =>
    obtain ⟨h', houtcome⟩ := shadows_handleMarket hday h hcs (daySplitsPass_of_adjust hp.1)
      (daySplitsPass_of_adjust hq.1)
    obtain ⟨hafter, houtcomes⟩ := ih h' (by rwa [fxBase_handleMarket]) hp.2 hq.2
    exact ⟨hafter, .cons houtcome houtcomes⟩

/-- Bars of assets that no strategy lists and rates of currencies that the portfolio does not read
leave no trace but in the histories and the journal: strategies, fills, counts, brokerage and equity
come out the same, and every day succeeds or fails as it does without them, with the same error
unless something is held that its holder does not list. -/
theorem foreign_data_ignored {p : Portfolio} {days days' : List MarketDay}
    (hdays : List.Forall₂ (MarketDay.Extends p.Lists p.Reads) days days')
    (hsplits : SplitsAdjust p.Lists days p) (hsplits' : SplitsAdjust p.Lists days' p) :
    ∃ market fx journal,
      after (days'.map .market) p = { after (days.map .market) p with market, fx, journal } ∧
        (after (days.map .market) p).market.AgreesOn p.Lists market ∧
        (after (days.map .market) p).fx.AgreesOn p.Reads fx ∧
        List.Forall₂ (Matches (SameError p.HoldsListed) Eq) (outcomes days p)
          (outcomes days' p) := by
  obtain ⟨h, houtcomes⟩ := seesAlike_after hdays (seesAlike_refl p) (fun _ hc => hc) hsplits hsplits'
  exact ⟨_, _, _, h.same, h.market, h.fx.imp fun c hc _ _ => hc, houtcomes⟩

/-- An infinite split of an asset that nobody lists, of which no share is traded on the day, is no
overflow and fails the day. A rate that nobody needs otherwise decides on a day whose capital was
handed out in its currency. -/
theorem foreign_data_counts :
    let day : MarketDay := .flat ⟨2024, 1, 2, by decide, by decide, by decide⟩ ["A"]
    let infinite : Bar := ⟨⟨10, 10, 10, 10, 10, 0, 0, .infinity false⟩, rfl⟩
    let split : MarketDay := { day with bars := day.bars.put "Z" infinite }
    let rated : MarketDay := { day with rates := [("JPY", .known 1)] }
    let p := holding ["A"]
    let q : Portfolio := { p with allocator := .fixed [("A", [("JPY", .known 1000)])] }
    (handleMarket day p).2.toBool = true ∧
      (infinite.adjustedForSplit infinite.split).mapError Error.message =
        .error (Error.faultMessage .invalidOperation) ∧
      (handleMarket split p).2.mapError Error.message =
        .error (Error.faultMessage .invalidOperation) ∧
      (handleMarket day q).2.mapError Error.label? = .error (some "FxRateNotFoundError") ∧
      (handleMarket rated q).2.toBool = true := by
  decide +kernel

/-- Two days, on the second of which an asset that nobody lists pays a dividend and is split. -/
theorem foreign_data_ignored_holding :
    let first : MarketDay := .flat ⟨2024, 1, 2, by decide, by decide, by decide⟩ ["A"]
    let second : MarketDay := .flat ⟨2024, 1, 3, by decide, by decide, by decide⟩ ["A"]
    let other : Bar := ⟨⟨10, 10, 10, 10, 10, 100, 1, 2⟩, rfl⟩
    let first' : MarketDay := { first with bars := first.bars.put "Z" Bar.flat }
    let second' : MarketDay :=
      { second with bars := second.bars.put "Z" other, rates := [("EUR", .known 2)] }
    let q := after ([first, second].map .market) (holding ["A"])
    let q' := after ([first', second'].map .market) (holding ["A"])
    q'.strategies = q.strategies ∧ q'.fills = q.fills ∧ q'.equity = q.equity ∧
      q'.market.size = 2 ∧ (q'.market.bar? first.date "Z").map (·.close) = some (.finite false 5 0) := by
  intro first second other first' second' q q'
  have hassets : ¬ (holding ["A"]).Lists "Z" := by
    rintro ⟨n, s, hs, ha⟩
    have hall : ∀ e ∈ (holding ["A"]).strategies.toList, "Z" ∉ e.2.assets.keys := by decide +kernel
    exact hall (n, s) (OrderedMap.get?_eq_some_iff.mp hs) ha
  have hcurrencies : ¬ (holding ["A"]).Reads .eur := by
    rintro ⟨-, hbase | ⟨n, s, hs, hc⟩ | ⟨capital, hfixed, -⟩⟩
    · exact absurd hbase (by decide)
    · have hall : ∀ e ∈ (holding ["A"]).strategies.toList,
          ¬ (Currency.eur ∈ e.2.assets.values ∨ Currency.eur ∈ e.2.book.cash.keys) := by
        decide +kernel
      exact hall (n, s) (OrderedMap.get?_eq_some_iff.mp hs) hc
    · exact nomatch hfixed
  have hfirst : first.Extends (holding ["A"]).Lists (holding ["A"]).Reads first' :=
    ⟨rfl, .keep _ (.insert hassets .nil), .nil⟩
  have hsecond : second.Extends (holding ["A"]).Lists (holding ["A"]).Reads second' :=
    ⟨rfl, .keep _ (.insert hassets .nil), .insert ⟨.eur, 2, rfl, hcurrencies⟩ .nil⟩
  have hnone : ∀ day ∈ [first, second, first'], ∀ e ∈ day.bars.toList, e.2.hasSplit = false := by
    decide +kernel
  have hadjust : ∀ market, (handleMarket first' (holding ["A"])).1.market.append second'.date
      second'.bars = .ok market → ∀ e ∈ second'.bars.toList, e.2.hasSplit = true →
        market.Adjustable e.1 e.2.split := by
    decide +kernel
  have hquiet : ∀ day ∈ [first, second, first'], ∀ market : MarketHistory,
      day.SplitsAdjust (holding ["A"]).Lists market := by
    intro day hday market e he hsplit
    exact absurd hsplit (by simp [hnone day hday e he])
  have hsplit : q'.market.size = 2 ∧
      (q'.market.bar? first.date "Z").map (·.close) = some (.finite false 5 0) := by
    decide +kernel
  obtain ⟨market, fx, journal, hsame, -, -, -⟩ :=
    foreign_data_ignored (.cons hfirst (.cons hsecond .nil))
      ⟨fun market _ => hquiet first (by simp) market, fun market _ => hquiet second (by simp) market,
        trivial⟩
      ⟨fun market _ => hquiet first' (by simp) market,
        fun market happend e he hsplit _ => hadjust market happend e he hsplit, trivial⟩
  have hsame : q' = { q with market, fx, journal } := hsame
  clear_value q q'
  subst hsame
  exact ⟨rfl, rfl, rfl, hsplit⟩

end Run
end Portfolio
end Backtesting
