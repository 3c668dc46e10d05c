import Backtesting.Proofs.Portfolio.Day
import Backtesting.Proofs.Portfolio.Ledger
import Backtesting.Proofs.Portfolio.Trading

/-!
The fills of a portfolio as its audit trail. A ledger knows nothing but the market events and the
fills: it is kept for one strategy day by day through the dividends, the splits and its own fills. The
portfolio itself goes through allocation, signals, sizes and orders of all strategies, and arrives at
the same positions and the same cash.
-/
namespace Backtesting

open Backtesting.Action (Mirrors Moves IsPath bind_eq_ok)

namespace Book

/-- Dividends on the positions held so far, then splits. -/
def applyCorporateActions (l : Listings) (day : MarketDay) : Action Book Unit := do
  Action.forEach (day.bars.toList.filter (·.2.hasDividend)) fun (a, bar) => do
    let _ ← applyDividend l a (.known bar.dividend)
  Action.forEach (day.bars.toList.filter (·.2.hasSplit)) fun (a, bar) =>
    Action.update (·.applySplit a (.known bar.split))

/-- A day of a book with the fills `fs`. -/
def goThrough (l : Listings) (fs : List Fill) (day : MarketDay) : Action Book Unit := do
  applyCorporateActions l day
  Action.forEach fs (applyFill l)

theorem mirrors_applyCorporateActions (l : Listings) (day : MarketDay) :
    Mirrors SameHoldings Eq (applyCorporateActions l day) (applyCorporateActions l day) := by
  refine Mirrors.bind (Mirrors.forEach fun e _ => ?_) fun _ _ _ => ?_
  · exact Mirrors.bind (mirrors_applyDividend l e.1 _) fun _ _ _ => Mirrors.pure rfl
  · exact Mirrors.forEach fun e _ => mirrors_applySplit e.1 _

theorem mirrors_goThrough (l : Listings) (fs : List Fill) (day : MarketDay) :
    Mirrors SameHoldings Eq (goThrough l fs day) (goThrough l fs day) :=
  Mirrors.bind (mirrors_applyCorporateActions l day) fun _ _ _ =>
    Mirrors.forEach fun f _ => mirrors_applyFill l f

/-- A day of a book is the day of its ledger. -/
theorem goThrough_ledger {l : Listings} {day : MarketDay} {fs gs : List Fill} {b c : Book}
    (hfs : Ledger.onDate day.date gs = fs) (h : goThrough l fs day b = (c, .ok ())) :
    b.ledger.goThrough l gs day = some c.ledger := by
  obtain ⟨v, _, hactions, hfills⟩ := bind_eq_ok.mp h
  obtain ⟨u, _, hdividends, hsplits⟩ := bind_eq_ok.mp hactions
  simp only [Bar.hasDividend_eq, Bar.hasSplit_eq] at hdividends hsplits
  have hpaid := Action.foldlM_of_forEach ledger (fun x e => x.dividend l e.1 e.2.dividend)
    (fun e b c h => by
      obtain ⟨c, amount, hamount, hc⟩ := bind_eq_ok.mp h
      obtain ⟨rfl, -⟩ := Action.pure_eq_ok.mp hc
      exact dividend_ledger hamount) hdividends
  have hadjusted := Action.foldlM_of_forEach ledger (fun x e => x.split e.1 e.2.split)
    (fun e b c h => split_ledger (Action.update_eq_ok.mp h)) hsplits
  have hfilled := Action.foldlM_of_forEach ledger (Ledger.fill l)
    (fun f b c h => fill_ledger h) hfills
  rw [← hfs] at hfilled
  exact Option.bind_eq_some_iff.mpr ⟨u.ledger, hpaid,
    Option.bind_eq_some_iff.mpr ⟨v.ledger, hadjusted, hfilled⟩⟩

theorem HoldsOnly.forEach_applyFill {l : Listings} {fs : List Fill} {b c : Book}
    (hb : HoldsOnly l b) (h : Action.forEach fs (Book.applyFill l) b = (c, .ok ())) :
    HoldsOnly l c := by
  have hmoves : Moves (fun b c => HoldsOnly l b → HoldsOnly l c)
      (Action.forEach fs (Book.applyFill l)) :=
    Moves.forEach (IsPath.implies _) fun f _ b c _ hf hb => HoldsOnly.applyFill hb hf
  exact hmoves h hb

end Book

namespace Portfolio

variable {d : Date} {p q r : Portfolio} {fs gs : List Fill}
  {x y : String → Listings → Action Book Unit}

/-- On the way from `p` to `q` there were the fills `fs`, and `x` takes the book of every strategy to
the positions and the cash that it has in the end. -/
structure Follows (x : String → Listings → Action Book Unit) (p q : Portfolio) (fs : List Fill) :
    Prop extends Accounts p q fs where
  books : ∀ {n s}, p.strategies.get? n = some s → s.book.HoldsOnly s.assets →
    ∃ t b, q.strategies.get? n = some t ∧ t.setup = s.setup ∧ t.book.HoldsOnly t.assets ∧
      x n s.assets s.book = (b, .ok ()) ∧ b.SameHoldings t.book

namespace Follows

theorem refl (p : Portfolio) : Follows (fun _ _ => pure ()) p p [] where
  toAccounts := .of_eq rfl rfl rfl rfl
  books {_ s} hs hholds := ⟨s, s.book, hs, rfl, hholds, rfl, rfl, rfl⟩

theorem trans (hy : ∀ n l, Mirrors Book.SameHoldings Eq (y n l) (y n l)) (h : Follows x p q fs)
    (h' : Follows y q r gs) :
    Follows (fun n l => x n l >>= fun _ => y n l) p r (fs ++ gs) where
  toAccounts := h.toAccounts.trans h'.toAccounts
  books {n s} hs hholds := by
    obtain ⟨t, b, ht, hsetup, hholds', hx, hb⟩ := h.books hs hholds
    obtain ⟨u, c, hu, hsetup', hholds'', hc, hcu⟩ := h'.books ht hholds'
    rw [Strategy.assets_of_setup_eq hsetup] at hc
    obtain ⟨b', _, hb', hsame, -⟩ := (hy n s.assets).ok ⟨hb.1.symm, hb.2.symm⟩ hc
    refine ⟨u, b', hu, hsetup'.trans hsetup, hholds'', ?_, ?_⟩
    · rw [Action.bind_ok hx, hb']
    · exact ⟨hsame.1.symm.trans hcu.1, hsame.2.symm.trans hcu.2⟩

/-- Only the strategies that there are matter. -/
theorem congr (h : Follows x p q fs) (hxy : ∀ n ∈ p.strategies.keys, x n = y n) :
    Follows y p q fs where
  toAccounts := h.toAccounts
  books {n s} hs hholds := by
    rw [← hxy n (OrderedMap.mem_keys_of_get? hs)]
    exact h.books hs hholds

/-- What else changes in the end does not matter. -/
theorem of_eq (h : Follows x p q fs) (hstrategies : r.strategies = q.strategies)
    (hfills : r.fills = q.fills) (hbrokerage : r.brokerage = q.brokerage)
    (hcount : r.orderCount = q.orderCount) : Follows x p r fs where
  toAccounts := by
    have hrest : Accounts q r [] := .of_eq hfills hbrokerage hcount (by rw [hstrategies])
    have haccounts := h.toAccounts.trans hrest
    rwa [List.append_nil] at haccounts
  books hs hholds := by
    rw [hstrategies]
    exact h.books hs hholds

protected theorem forEach {g : α → Action Portfolio Unit}
    {z : α → String → Listings → Action Book Unit}
    (hz : ∀ a n l, Mirrors Book.SameHoldings Eq (z a n l) (z a n l))
    (hg : ∀ {a p q}, g a p = (q, .ok ()) → Follows (z a) p q []) {as : List α}
    (h : Action.forEach as g p = (q, .ok ())) :
    Follows (fun n l => Action.forEach as fun a => z a n l) p q [] := by
  induction as generalizing p with
  | nil =>
    obtain rfl := Action.forEach_nil_eq_ok.mp h
    exact refl q
  | cons a as ih =>
    obtain ⟨u, hu, hrest⟩ := Action.forEach_cons_eq_ok.mp h
    exact (hg hu).trans (fun n l => Mirrors.forEach fun a _ => hz a n l) (ih hrest)

/-- What is done to every strategy by name is done to each of them once. -/
theorem of_names {f : String → Action Portfolio Unit} {z : Listings → Action Book Unit}
    (hf : ∀ {n p q}, f n p = (q, .ok ()) → ∃ s b journal, p.strategies.get? n = some s ∧
      (s.book.HoldsOnly s.assets →
        z s.assets s.book = (b, .ok ()) ∧ b.HoldsOnly s.assets) ∧
      q = { p with strategies := p.strategies.put n { s with book := b }, journal })
    {ns : List String} (hns : ns.Nodup) (h : Action.forEach ns f p = (q, .ok ())) :
    Follows (fun n l => if n ∈ ns then z l else pure ()) p q [] := by
  induction ns generalizing p with
  | nil =>
    obtain rfl := Action.forEach_nil_eq_ok.mp h
    exact (refl q).congr fun n _ => by simp
  | cons n ns ih =>
    obtain ⟨hfresh, hns⟩ := List.nodup_cons.mp hns
    obtain ⟨u, hu, hrest⟩ := Action.forEach_cons_eq_ok.mp h
    obtain ⟨s, b, journal, hs, hz, hput⟩ := hf hu
    have hfollows := ih hns hrest
    have hkeys : u.strategies.keys = p.strategies.keys := by
      rw [hput]
      exact OrderedMap.keys_put_of_get? _ hs
    have hfirst : Accounts p u [] := by
      apply Accounts.of_eq _ _ _ hkeys
      all_goals rw [hput]
    refine ⟨hfirst.trans hfollows.toAccounts, fun {m t} ht hholds => ?_⟩
    subst hput
    by_cases hm : m = n
    · subst hm
      obtain rfl : s = t := Option.some.inj (hs.symm.trans ht)
      obtain ⟨hzb, hb⟩ := hz hholds
      have hget : (p.strategies.put m { s with book := b }).get? m = some { s with book := b } := by
        simp
      obtain ⟨t, c, ht, hsetup, hholds', hc, hct⟩ := hfollows.books hget hb
      rw [if_neg hfresh] at hc
      obtain ⟨rfl, -⟩ := Action.pure_eq_ok.mp hc
      exact ⟨t, b, ht, hsetup, hholds', by simpa using hzb, hct⟩
    · have hget : (p.strategies.put n { s with book := b }).get? m = some t := by
        simpa [hm] using ht
      have hother := hfollows.books hget hholds
      simpa [hm] using hother

end Follows

theorem Trades.follows (h : Trades d p q fs) :
    Follows (fun n l => Action.forEach (fillsOf n fs) (Book.applyFill l)) p q fs where
  toAccounts := h.toAccounts
  books hs hholds := by
    obtain ⟨t, ht, hsetup, hbook⟩ := h.books hs
    have hlisted := hholds.forEach_applyFill hbook
    rw [← Strategy.assets_of_setup_eq hsetup] at hlisted
    exact ⟨t, t.book, ht, hsetup, hlisted, hbook, rfl, rfl⟩

theorem follows_handleDividend {a : Asset} {perShare : Amount}
    (h : handleDividend d a perShare p = (q, .ok ())) :
    Follows (fun _ l => do let _ ← Book.applyDividend l a perShare) p q [] := by
  obtain ⟨u, p', hget, hrest⟩ := bind_eq_ok.mp h
  obtain ⟨rfl, rfl⟩ := Action.get_eq_ok.mp hget
  refine (Follows.of_names (z := fun l => do let _ ← Book.applyDividend l a perShare)
    (fun {n p q} hn => ?_) p'.strategies.nodup hrest).congr fun n hn => by
      funext l
      exact if_pos hn
  obtain ⟨s, hs, ⟨hunlisted, rfl⟩ | ⟨-, b, amount, journal, hb, rfl⟩⟩ := creditDividend_eq_ok hn
  · refine ⟨s, s.book, q.journal, hs, fun hholds => ⟨?_, hholds⟩, ?_⟩
    · have hflat := Book.applyDividend_of_flat (l := s.assets) perShare
        (hholds.position_eq_zero hunlisted).2
      rw [Action.bind_ok hflat]
      rfl
    · rw [OrderedMap.put_of_get? hs]
  · refine ⟨s, b, journal, hs, fun hholds => ⟨?_, hholds.applyDividend hb⟩, rfl⟩
    rw [Action.bind_ok hb]
    rfl

theorem follows_handleSplit {a : Asset} {ratio : Amount}
    (h : handleSplit d a ratio p = (q, .ok ())) :
    Follows (fun _ _ => Action.update (·.applySplit a ratio)) p q [] := by
  obtain ⟨u, c, n, market, journal, hpositions, -, -, rfl⟩ := handleSplit_eq_ok h
  refine Follows.of_eq (q := u) ?_ rfl rfl rfl rfl
  refine (Follows.of_names (z := fun _ => Action.update (·.applySplit a ratio))
    (fun {n p q} hn => ?_) p.strategies.nodup hpositions).congr fun n hn => by
      funext l
      exact if_pos hn
  obtain ⟨s, hs, ⟨hunlisted, rfl⟩ | ⟨-, b, hb, rfl⟩⟩ := splitPosition_eq_ok hn
  · refine ⟨s, s.book, q.journal, hs, fun hholds => ⟨?_, hholds⟩, ?_⟩
    · rw [Action.update_eq_ok, Book.applySplit, (hholds.position_eq_zero hunlisted).1]
    · rw [OrderedMap.put_of_get? hs]
  · exact ⟨s, b, p.journal, hs,
      fun hholds => ⟨Action.update_eq_ok.mpr hb, hholds.applySplit hb⟩, rfl⟩

theorem follows_allocateCapital (h : allocateCapital d p = (q, .ok ())) :
    Follows (fun _ _ => pure ()) p q [] := by
  obtain ⟨strategies, rfl, hkeys, hbooks⟩ := allocateCapital_eq_ok h
  refine ⟨.of_eq rfl rfl rfl hkeys, fun {n s} hs hholds => ?_⟩
  obtain ⟨t, ht, hsetup, hsame⟩ := hbooks n s hs
  have hlisted : t.book.HoldsOnly t.assets := by
    rw [Strategy.assets_of_setup_eq hsetup, Book.HoldsOnly, ← hsame.1]
    exact hholds
  exact ⟨t, s.book, ht, hsetup, hlisted, rfl, hsame⟩

theorem follows_applyCorporateActions {day : MarketDay}
    (h : applyCorporateActions day p = (q, .ok ())) :
    Follows (fun _ l => Book.applyCorporateActions l day) p q [] := by
  obtain ⟨u, _, hdividends, hsplits⟩ := bind_eq_ok.mp h
  have hpaid := Follows.forEach
    (z := fun e _ l => do let _ ← Book.applyDividend l e.1 (.known e.2.dividend))
    (fun e _ l => Mirrors.bind (Book.mirrors_applyDividend l e.1 _) fun _ _ _ => Mirrors.pure rfl)
    follows_handleDividend hdividends
  have hsplit := Follows.forEach
    (z := fun e _ _ => Action.update (·.applySplit e.1 (.known e.2.split)))
    (fun e _ _ => Book.mirrors_applySplit e.1 _) follows_handleSplit hsplits
  exact hpaid.trans (fun _ _ => Mirrors.forEach fun e _ => Book.mirrors_applySplit e.1 _) hsplit

/-- The phases of a day take every book through it with the fills that trading has brought. -/
theorem Trades.follows_day {day : MarketDay} {p₁ p₂ p₃ p₄ : Portfolio} {value : Decimal}
    (htake : takeIn day p = (p₁, .ok ())) (hactions : applyCorporateActions day p₁ = (p₂, .ok ()))
    (hallocate : allocateCapital day.date p₂ = (p₃, .ok ())) (htrades : Trades day.date p₃ p₄ fs)
    (hrecord : recordEquity day.date p₄ = (q, .ok value)) :
    Follows (fun n l => Book.goThrough l (fillsOf n fs) day) p q fs := by
  obtain ⟨market, fx, -, -, -, rfl⟩ := takeIn_eq_ok.mp htake
  obtain ⟨-, -, rfl⟩ := recordEquity_eq_ok.mp hrecord
  have htaken : Follows (fun _ _ => pure ()) p { p with market, fx } [] :=
    (Follows.refl p).of_eq rfl rfl rfl rfl
  have hmirrors : ∀ n l, Mirrors Book.SameHoldings Eq
      (Action.forEach (fillsOf n fs) (Book.applyFill l))
      (Action.forEach (fillsOf n fs) (Book.applyFill l)) :=
    fun _ l => Mirrors.forEach fun f _ => Book.mirrors_applyFill l f
  have htraded := (follows_allocateCapital hallocate).trans hmirrors htrades.follows
  have hacted := (follows_applyCorporateActions hactions).trans hmirrors htraded
  have hday := htaken.trans (fun n l => Book.mirrors_goThrough l (fillsOf n fs) day) hacted
  exact hday.of_eq rfl rfl rfl rfl

/-- A market event takes every book through the day with the fills that the day has brought. -/
theorem follows_handleMarket {day : MarketDay} (h : handleMarket day p = (q, .ok ())) :
    ∃ fs, (∀ f ∈ fs, f.date = day.date) ∧
      Follows (fun n l => Book.goThrough l (fillsOf n fs) day) p q fs := by
  obtain ⟨p₁, p₂, p₃, p₄, value, htake, hactions, hallocate, hrun, hrecord⟩ :=
    handleMarket_eq_ok.mp h
  obtain ⟨fs, htrades, -, -⟩ := forEach_runStrategy p₃.strategies.nodup hrun
  exact ⟨fs, htrades.dated, htrades.follows_day htake hactions hallocate hrecord⟩

/-- On the way from `p` to `q` there were the fills `fs`, and the ledger of every strategy is kept
right by the days and those of them that are its own. -/
structure Tallies (days : List MarketDay) (p q : Portfolio) (fs : List Fill) : Prop
    extends Accounts p q fs where
  ledgers : ∀ {n s}, p.strategies.get? n = some s → s.book.HoldsOnly s.assets →
    ∃ t, q.strategies.get? n = some t ∧ t.setup = s.setup ∧ t.book.HoldsOnly t.assets ∧
      Ledger.replay s.assets (fillsOf n fs) days s.book.ledger = some t.book.ledger

theorem fillsOf_subset {n : String} {fs : List Fill} {f : Fill} (h : f ∈ fillsOf n fs) : f ∈ fs :=
  (List.mem_filter.mp h).1

namespace Tallies

theorem refl (p : Portfolio) : Tallies [] p p [] where
  toAccounts := .of_eq rfl rfl rfl rfl
  ledgers {_ s} hs hholds := ⟨s, hs, rfl, hholds, rfl⟩

/-- The fills of a first day are seen on that day only, and those of the others never on it. -/
theorem cons {day : MarketDay} {days : List MarketDay}
    (hday : Follows (fun n l => Book.goThrough l (fillsOf n fs) day) p q fs)
    (h : Tallies days q r gs) (hfs : ∀ f ∈ fs, f.date = day.date)
    (hlater : ∀ g ∈ gs, g.date ≠ day.date) (hearlier : ∀ later ∈ days, later.date ≠ day.date) :
    Tallies (day :: days) p r (fs ++ gs) where
  toAccounts := hday.toAccounts.trans h.toAccounts
  ledgers {n s} hs hholds := by
    obtain ⟨t, b, ht, hsetup, hholds', hb, hsame⟩ := hday.books hs hholds
    obtain ⟨u, hu, hsetup', hholds'', hrest⟩ := h.ledgers ht hholds'
    rw [Strategy.assets_of_setup_eq hsetup] at hrest
    have hown : Ledger.onDate day.date (fillsOf n (fs ++ gs)) = fillsOf n fs := by
      rw [fillsOf_append, Ledger.onDate_append_left (fun f hf => hfs f (fillsOf_subset hf))
        fun g hg => hlater g (fillsOf_subset hg)]
    have hothers : ∀ later ∈ days, Ledger.onDate later.date (fillsOf n (fs ++ gs)) =
        Ledger.onDate later.date (fillsOf n gs) := by
      intro later hmem
      rw [fillsOf_append, Ledger.onDate_append_right fun f hf =>
        hfs f (fillsOf_subset hf) ▸ (hearlier later hmem).symm]
    refine ⟨u, hu, hsetup'.trans hsetup, hholds'', ?_⟩
    have hfirst := Book.goThrough_ledger hown hb
    rw [hsame.ledger_eq] at hfirst
    rw [Ledger.replay_cons, hfirst, Option.bind_some, Ledger.replay_congr hothers, hrest]

end Tallies

/-- Over a run the fills are in the order of the days, and every ledger is kept by them. -/
theorem tallies_run {days : List MarketDay} (hdays : (days.map MarketDay.date).Pairwise (· < ·))
    (h : Action.forEach days handleMarket p = (q, .ok ())) :
    ∃ fs, (∀ f ∈ fs, f.date ∈ days.map MarketDay.date) ∧
      days.flatMap (fun day => Ledger.onDate day.date fs) = fs ∧ Tallies days p q fs := by
  induction days generalizing p with
  | nil =>
    obtain rfl := Action.forEach_nil_eq_ok.mp h
    exact ⟨[], by simp, rfl, Tallies.refl q⟩
  | cons day days ih =>
    rw [List.map_cons, List.pairwise_cons] at hdays
    obtain ⟨hbefore, hdays⟩ := hdays
    obtain ⟨u, hu, hrest⟩ := Action.forEach_cons_eq_ok.mp h
    obtain ⟨fs, hfs, hfirst⟩ := follows_handleMarket hu
    obtain ⟨gs, hgs, hflat, hsecond⟩ := ih hdays hrest
    have hapart : ∀ d ∈ days.map MarketDay.date, d ≠ day.date := by
      intro d hd heq
      exact Date.lt_irrefl day.date (heq ▸ hbefore d hd)
    have hlater : ∀ g ∈ gs, g.date ≠ day.date := fun g hg => hapart g.date (hgs g hg)
    have hearlier : ∀ later ∈ days, later.date ≠ day.date :=
      fun later hmem => hapart later.date (List.mem_map_of_mem hmem)
    refine ⟨fs ++ gs, fun f hf => ?_, ?_, hsecond.cons hfirst hfs hlater hearlier⟩
    · rw [List.map_cons]
      rcases List.mem_append.mp hf with hf | hf
      · rw [hfs f hf]
        exact List.mem_cons_self
      · exact List.mem_cons_of_mem _ (hgs f hf)
    · have hrestFlat : days.flatMap (fun later => Ledger.onDate later.date (fs ++ gs)) =
          days.flatMap fun later => Ledger.onDate later.date gs := by
        apply List.flatMap_congr
        intro later hmem
        exact Ledger.onDate_append_right fun f hf => hfs f hf ▸ (hearlier later hmem).symm
      rw [List.flatMap_cons, hrestFlat, hflat, Ledger.onDate_append_left hfs hlater]

/-- The positions and the cash of every strategy can be told from the market events and the fills
alone. Fills and orders are all accounted for, and every fill is replayed on its own day for its own
strategy. -/
theorem audit_trail {name : String} {base : Document} {named : List (String × Strategy)}
    {allocator : Allocator} {commission : Commission} {fxBase : Option Currency}
    {explicit : List (Asset × Document)} {venue : Option MarketHistory} {fresh p : Portfolio}
    {days : List MarketDay}
    (hbuild : build name base named allocator commission fxBase explicit venue = .ok fresh)
    (hflat : ∀ e ∈ named, e.2.book.positions = OrderedMap.empty)
    (hdays : (days.map MarketDay.date).Pairwise (· < ·))
    (hrun : Action.forEach days handleMarket fresh = (p, .ok ())) :
    p.fills = p.brokerage.fills ∧ p.orderCount = p.brokerage.submitted ∧
      p.brokerage.submitted = p.fills.length + p.brokerage.rejected ∧
      days.flatMap (fun day => Ledger.onDate day.date p.fills) = p.fills ∧
      (∀ f ∈ p.fills, ∃ s, (f.strategy, s) ∈ named) ∧
      ∀ n s, (n, s) ∈ named → ∃ t, p.strategies.get? n = some t ∧
        Ledger.replay s.assets (fillsOf n p.fills) days ⟨OrderedMap.empty, s.book.cash⟩ =
          some ⟨t.book.positions, t.book.cash⟩ := by
  obtain ⟨-, -, -, hfills, -, hcount, hbrokerage⟩ := history_of_build hbuild
  obtain ⟨hnamed, -⟩ := strategies_of_build hbuild
  obtain ⟨fs, -, hflatMap, htallies⟩ := tallies_run hdays hrun
  have hp : p.fills = fs := by
    rw [htallies.fills, hfills, List.nil_append]
  have hsubmitted := htallies.submitted
  have hsettled := htallies.settled
  simp only [hcount, hbrokerage, Brokerage.start, Nat.add_zero, Nat.zero_add] at hsubmitted hsettled
  rw [hp]
  refine ⟨?_, hsubmitted, ?_, hflatMap, ?_, ?_⟩
  · rw [htallies.brokered, hbrokerage]
    rfl
  · omega
  · intro f hf
    obtain ⟨s, hs⟩ := OrderedMap.mem_keys_iff.mp (htallies.known f hf)
    rw [OrderedMap.get?_eq_some_iff, hnamed] at hs
    exact ⟨s, hs⟩
  · intro n s hs
    have hempty : s.book.positions = OrderedMap.empty := hflat (n, s) hs
    rw [← hnamed, ← OrderedMap.get?_eq_some_iff] at hs
    have hholds : s.book.HoldsOnly s.assets := by
      intro a ha
      rw [hempty] at ha
      exact absurd ha List.not_mem_nil
    obtain ⟨t, ht, -, -, hreplay⟩ := htallies.ledgers hs hholds
    rw [Book.ledger, hempty] at hreplay
    exact ⟨t, ht, hreplay⟩

/-- Two strategies that have bought on the first of two days, the second with a dividend of one dollar
and a split that makes 100.5 shares of 100. -/
theorem audit_trail_holding :
    let first : MarketDay := .flat ⟨2024, 1, 2, by decide, by decide, by decide⟩ ["A", "B"]
    let second : MarketDay := ⟨⟨2024, 1, 3, by decide, by decide, by decide⟩,
      OrderedMap.ofList [("A", Bar.flat), ("B", ⟨{ Bar.flat.toQuote with
        dividend := 1, split := .finite false 1005 (-3) }, rfl⟩)], []⟩
    let p := (Action.forEach [first, second] handleMarket (Portfolio.holding ["A", "B"])).1
    p.fills.length = 2 ∧ p.fills = p.brokerage.fills ∧ p.orderCount = p.brokerage.submitted ∧
      ((p.strategies.get? "B").map fun t => (t.book.positions.toList, t.book.cash.toList)) =
        some ([("B", 101)], [(.usd, .finite false 99000 (-3))]) ∧
      ∃ t, p.strategies.get? "B" = some t ∧
        Ledger.replay (Strategy.holder "B").assets (fillsOf "B" p.fills) [first, second]
          ⟨OrderedMap.empty, (Strategy.holder "B").book.cash⟩ =
            some ⟨t.book.positions, t.book.cash⟩ := by
  intro first second p
  have hok : (Action.forEach [first, second] handleMarket
      (Portfolio.holding ["A", "B"])).2.toBool = true := by decide +kernel
  have hrun : Action.forEach [first, second] handleMarket (Portfolio.holding ["A", "B"]) =
      (p, .ok ()) := Action.eq_ok_of_toBool hok
  have hflat : ∀ e ∈ [("A", Strategy.holder "A"), ("B", Strategy.holder "B")],
      e.2.book.positions = OrderedMap.empty := by decide
  have hdays : ([first, second].map MarketDay.date).Pairwise (· < ·) := by decide
  have hfills : p.fills.length = 2 := by decide +kernel
  have hheld : ((p.strategies.get? "B").map fun t => (t.book.positions.toList, t.book.cash.toList)) =
      some ([("B", 101)], [(.usd, .finite false 99000 (-3))]) := by decide +kernel
  obtain ⟨hbroker, hcount, -, -, -, hreplay⟩ :=
    audit_trail build_holding hflat hdays hrun
  exact ⟨hfills, hbroker, hcount, hheld, hreplay "B" (Strategy.holder "B") (by simp)⟩

end Portfolio
end Backtesting
