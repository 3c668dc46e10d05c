import Backtesting.Proofs.Portfolio.Setup

/-!
Trading on one day. A step of trading that succeeds brings some fills: the portfolio and its
brokerage record the same ones in the same order, the book of every strategy is what its own fills
make of it, and every order that was counted was either filled or rejected. Such steps follow one
another, and the fills of a strategy are for different assets.
-/
namespace Backtesting.Portfolio

open Backtesting.Action (Moves Keeps IsPath bind_eq_ok forEach_append_eq_ok)

def fillsOf (n : String) (fs : List Fill) : List Fill := fs.filter (·.strategy = n)

theorem fillsOf_append (n : String) (fs gs : List Fill) :
    fillsOf n (fs ++ gs) = fillsOf n fs ++ fillsOf n gs := List.filter_append ..

/-- What is written down on the way from `p` to `q`: the same fills by the portfolio and by its
brokerage, and every order as filled or rejected. -/
structure Accounts (p q : Portfolio) (fs : List Fill) : Prop where
  fills : q.fills = p.fills ++ fs
  brokered : q.brokerage.fills = p.brokerage.fills ++ fs
  known : ∀ f ∈ fs, f.strategy ∈ p.strategies.keys
  submitted : q.orderCount + p.brokerage.submitted = p.orderCount + q.brokerage.submitted
  settled : q.brokerage.submitted + p.brokerage.rejected =
    p.brokerage.submitted + q.brokerage.rejected + fs.length
  keys : q.strategies.keys = p.strategies.keys

namespace Accounts

variable {p q r : Portfolio} {fs gs : List Fill}

/-- Nothing is to be accounted for where the counts stay as they are. -/
theorem of_eq (hfills : q.fills = p.fills) (hbrokerage : q.brokerage = p.brokerage)
    (hcount : q.orderCount = p.orderCount) (hkeys : q.strategies.keys = p.strategies.keys) :
    Accounts p q [] where
  fills := by rw [hfills, List.append_nil]
  brokered := by rw [hbrokerage, List.append_nil]
  known _ h := absurd h List.not_mem_nil
  submitted := by rw [hbrokerage, hcount]
  settled := by rw [hbrokerage, List.length_nil, Nat.add_zero]
  keys := hkeys

theorem trans (h : Accounts p q fs) (h' : Accounts q r gs) : Accounts p r (fs ++ gs) where
  fills := by rw [h'.fills, h.fills, List.append_assoc]
  brokered := by rw [h'.brokered, h.brokered, List.append_assoc]
  known f hf := by
    rcases List.mem_append.mp hf with hf | hf
    · exact h.known f hf
    · rw [← h.keys]
      exact h'.known f hf
  submitted := by
    have hfirst := h.submitted
    have hsecond := h'.submitted
    omega
  settled := by
    have hfirst := h.settled
    have hsecond := h'.settled
    rw [List.length_append]
    omega
  keys := h'.keys.trans h.keys

end Accounts

/-- The fills `fs` lead from `p` to `q` on day `d`. -/
structure Trades (d : Date) (p q : Portfolio) (fs : List Fill) : Prop extends Accounts p q fs where
  dated : ∀ f ∈ fs, f.date = d
  positive : ∀ f ∈ fs, 0 < f.quantity
  books : ∀ {n s}, p.strategies.get? n = some s → ∃ t, q.strategies.get? n = some t ∧
    t.setup = s.setup ∧
      Action.forEach (fillsOf n fs) (Book.applyFill s.assets) s.book = (t.book, .ok ())

namespace Trades

variable {d : Date} {p q r : Portfolio} {fs gs : List Fill}

/-- Nothing is traded where the books stay as they are. -/
theorem of_books (haccounts : Accounts p q [])
    (hbooks : ∀ {n s}, p.strategies.get? n = some s → ∃ t, q.strategies.get? n = some t ∧
      t.setup = s.setup ∧ t.book = s.book) : Trades d p q [] where
  toAccounts := haccounts
  dated _ h := absurd h List.not_mem_nil
  positive _ h := absurd h List.not_mem_nil
  books h := by
    obtain ⟨t, ht, hsetup, hbook⟩ := hbooks h
    exact ⟨t, ht, hsetup, Action.forEach_nil_eq_ok.mpr hbook⟩

theorem refl (d : Date) (p : Portfolio) : Trades d p p [] :=
  of_books (.of_eq rfl rfl rfl rfl) fun {_ s} h => ⟨s, h, rfl, rfl⟩

theorem trans (h : Trades d p q fs) (h' : Trades d q r gs) : Trades d p r (fs ++ gs) where
  toAccounts := h.toAccounts.trans h'.toAccounts
  dated f hf := by
    rcases List.mem_append.mp hf with hf | hf
    · exact h.dated f hf
    · exact h'.dated f hf
  positive f hf := by
    rcases List.mem_append.mp hf with hf | hf
    · exact h.positive f hf
    · exact h'.positive f hf
  books hs := by
    obtain ⟨t, ht, hsetup, hfirst⟩ := h.books hs
    obtain ⟨u, hu, hsetup', hsecond⟩ := h'.books ht
    refine ⟨u, hu, hsetup'.trans hsetup, ?_⟩
    rw [fillsOf_append, forEach_append_eq_ok]
    rw [Strategy.assets_of_setup_eq hsetup] at hsecond
    exact ⟨t.book, hfirst, hsecond⟩

end Trades

/-- No strategy has two of the fills for one asset. -/
def OncePerAsset (fs : List Fill) : Prop :=
  fs.Pairwise fun f g => ¬(f.strategy = g.strategy ∧ f.asset = g.asset)

variable {d : Date} {n : String} {p q : Portfolio}

/-- What a fill does to its portfolio. -/
theorem handleFill_eq_ok {f : Fill} (h : handleFill f p = (q, .ok ())) :
    ∃ s b journal, p.strategies.get? f.strategy = some s ∧
      Book.applyFill s.assets f s.book = (b, .ok ()) ∧
      q = { p with
        strategies := p.strategies.put f.strategy { s with book := b }
        fills := p.fills ++ [f]
        journal } := by
  obtain ⟨u, _, hfill, hrest⟩ := bind_eq_ok.mp h
  obtain ⟨v, _, hrecord, hlog⟩ := bind_eq_ok.mp hrest
  obtain rfl := Action.modify_eq_ok.mp hrecord
  obtain rfl := Action.modify_eq_ok.mp hlog
  obtain ⟨s, t, hs, hbook, rfl⟩ := onStrategy_eq_ok hfill
  obtain ⟨b, hb, rfl⟩ := Strategy.onBook_eq hbook
  exact ⟨s, b, _, hs, hb, rfl⟩

/-- A rejected order is counted by the brokerage and leaves no fill. -/
theorem submit_eq_ok {o : Order} {outcome : Brokerage.Outcome}
    (h : submit o p = (q, .ok outcome)) :
    (∃ f, outcome = .filled f ∧
      Brokerage.execute p.brokerage.commission o ((p.venue.getD p.market).bar? o.date o.asset) =
        .ok (.filled f) ∧
      q = { p with brokerage := { p.brokerage with
        fills := p.brokerage.fills ++ [f], submitted := p.brokerage.submitted + 1 } }) ∨
    ((∀ f, outcome ≠ .filled f) ∧
      q = { p with brokerage := { p.brokerage with
        submitted := p.brokerage.submitted + 1, rejected := p.brokerage.rejected + 1 } }) := by
  cases outcome with
  | filled f =>
    obtain ⟨hexecute, hq⟩ := submit_filled h
    exact Or.inl ⟨f, rfl, hexecute, hq⟩
  | noBar =>
    refine Or.inr ⟨fun f => by simp, ?_⟩
    simp only [submit, Brokerage.submit] at h
    split at h
    · simp at h
    · simp at h
    · exact (Prod.mk.inj h).1.symm
  | unmatched close =>
    refine Or.inr ⟨fun f => by simp, ?_⟩
    simp only [submit, Brokerage.submit] at h
    split at h
    · simp at h
    · simp at h
    · exact (Prod.mk.inj h).1.symm

/-- The fill of an order is booked once by everybody. -/
theorem trades_of_fill {f : Fill} {journal : List LogEntry} (hquantity : 0 < f.quantity)
    (h : handleFill f { p with
      orderCount := p.orderCount + 1
      brokerage := { p.brokerage with
        fills := p.brokerage.fills ++ [f], submitted := p.brokerage.submitted + 1 }
      journal } = (q, .ok ())) : Trades f.date p q [f] := by
  obtain ⟨s, b, journal', hs, hbook, rfl⟩ := handleFill_eq_ok h
  exact {
    fills := rfl
    brokered := rfl
    dated := by
      intro g hg
      rw [List.mem_singleton.mp hg]
    positive := by
      intro g hg
      rwa [List.mem_singleton.mp hg]
    known := by
      intro g hg
      rw [List.mem_singleton.mp hg]
      exact OrderedMap.mem_keys_of_get? hs
    submitted := by
      show p.orderCount + 1 + p.brokerage.submitted = p.orderCount + (p.brokerage.submitted + 1)
      omega
    settled := by
      show p.brokerage.submitted + 1 + p.brokerage.rejected =
        p.brokerage.submitted + p.brokerage.rejected + 1
      omega
    keys := OrderedMap.keys_put_of_get? _ hs
    books := by
      intro m t ht
      by_cases hm : m = f.strategy
      · obtain rfl : s = t := by
          rw [hm] at ht
          exact Option.some.inj (hs.symm.trans ht)
        refine ⟨{ s with book := b }, by simp [hm], rfl, ?_⟩
        have hown : fillsOf m [f] = [f] := by simp [fillsOf, hm]
        rw [hown, Action.forEach_cons_eq_ok]
        exact ⟨b, hbook, Action.forEach_nil_eq_ok.mpr rfl⟩
      · refine ⟨t, by simpa [hm] using ht, rfl, ?_⟩
        have hother : fillsOf m [f] = [] := by simp [fillsOf, Ne.symm hm]
        rw [hother]
        exact Action.forEach_nil_eq_ok.mpr rfl }

/-- A rejected order is counted, and nothing is traded. -/
theorem trades_of_reject (d : Date) (p : Portfolio) (journal : List LogEntry) :
    Trades d p { p with
      orderCount := p.orderCount + 1
      brokerage := { p.brokerage with
        submitted := p.brokerage.submitted + 1, rejected := p.brokerage.rejected + 1 }
      journal } [] := by
  refine Trades.of_books ?_ fun {m s} hs => ⟨s, hs, rfl, rfl⟩
  exact {
    fills := by rw [List.append_nil]
    brokered := by rw [List.append_nil]
    known := fun g hg => absurd hg List.not_mem_nil
    submitted := by
      show p.orderCount + 1 + p.brokerage.submitted = p.orderCount + (p.brokerage.submitted + 1)
      omega
    settled := by
      show p.brokerage.submitted + 1 + p.brokerage.rejected =
        p.brokerage.submitted + (p.brokerage.rejected + 1) + 0
      omega
    keys := rfl }

/-- An order brings one fill of its own strategy and asset, or none. -/
theorem handleOrder_eq_ok {r : OrderRequest} (h : handleOrder r p = (q, .ok ())) :
    Trades r.date p q [] ∨
      ∃ f, f.strategy = r.strategy ∧ f.asset = r.asset ∧ Trades r.date p q [f] := by
  obtain ⟨u, _, hread, hvalidated⟩ := bind_eq_ok.mp h
  obtain ⟨hu, -⟩ := Action.read_eq_ok.mp hread
  obtain ⟨v, o, hvalidate, hcounted⟩ := bind_eq_ok.mp hvalidated
  obtain ⟨hv, hvalid⟩ := Action.ofExcept_eq_ok.mp hvalidate
  obtain ⟨hdate, hstrategy, hasset, -⟩ := validate_eq_ok hvalid
  obtain ⟨w, _, hcount, hsubmitted⟩ := bind_eq_ok.mp hcounted
  rw [Action.modify_eq_ok, hv, hu] at hcount
  obtain ⟨x, outcome, hsubmit, hrest⟩ := bind_eq_ok.mp hsubmitted
  subst hcount
  rcases submit_eq_ok hsubmit with ⟨f, rfl, hexecute, rfl⟩ | ⟨hrejected, rfl⟩
  · right
    obtain ⟨hdate', hstrategy', hasset', -, hquantity⟩ := execute_filled hexecute
    obtain ⟨y, _, hlog, hfill⟩ := bind_eq_ok.mp hrest
    obtain rfl := Action.modify_eq_ok.mp hlog
    refine ⟨f, hstrategy'.trans hstrategy, hasset'.trans hasset, ?_⟩
    rw [← hdate, ← hdate']
    exact trades_of_fill (hquantity ▸ o.quantity_pos) hfill
  · left
    cases outcome with
    | noBar =>
      obtain rfl := Action.modify_eq_ok.mp hrest
      exact trades_of_reject ..
    | unmatched close =>
      obtain rfl := Action.modify_eq_ok.mp hrest
      exact trades_of_reject ..
    | filled f => exact absurd rfl (hrejected f)

theorem submitTarget_eq_ok {e : Asset × Int} (h : submitTarget n d e p = (q, .ok ())) :
    Trades d p q [] ∨ ∃ f, f.strategy = n ∧ f.asset = e.1 ∧ Trades d p q [f] := by
  obtain ⟨u, s, hread, hrest⟩ := bind_eq_ok.mp h
  obtain ⟨hu, -⟩ := Action.read_eq_ok.mp hread
  subst hu
  dsimp only at hrest
  split at hrest
  · obtain ⟨rfl, -⟩ := Action.pure_eq_ok.mp hrest
    exact Or.inl (Trades.refl d u)
  · obtain ⟨v, prices, hprices, horder⟩ := bind_eq_ok.mp hrest
    obtain ⟨rfl, -⟩ := Action.read_eq_ok.mp hprices
    exact handleOrder_eq_ok horder

theorem oncePerAsset_append {fs gs : List Fill} (hfs : OncePerAsset fs) (hgs : OncePerAsset gs)
    (h : ∀ f ∈ fs, ∀ g ∈ gs, ¬(f.strategy = g.strategy ∧ f.asset = g.asset)) :
    OncePerAsset (fs ++ gs) := List.pairwise_append.mpr ⟨hfs, hgs, h⟩

/-- Holdings are reached asset by asset, each with one order at most. -/
theorem forEach_submitTarget {l : List (Asset × Int)} (hl : (l.map Prod.fst).Nodup)
    (h : Action.forEach l (submitTarget n d) p = (q, .ok ())) :
    ∃ fs, Trades d p q fs ∧ OncePerAsset fs ∧
      ∀ f ∈ fs, f.strategy = n ∧ f.asset ∈ l.map Prod.fst := by
  induction l generalizing p with
  | nil =>
    obtain rfl := Action.forEach_nil_eq_ok.mp h
    exact ⟨[], Trades.refl d q, List.Pairwise.nil, fun f hf => absurd hf List.not_mem_nil⟩
  | cons e l ih =>
    rw [List.map_cons, List.nodup_cons] at hl
    obtain ⟨hfresh, hl⟩ := hl
    obtain ⟨u, hu, hrest⟩ := Action.forEach_cons_eq_ok.mp h
    obtain ⟨gs, htrades, honce, hgs⟩ := ih hl hrest
    have hrestOf : ∀ g ∈ gs, g.strategy = n ∧ g.asset ∈ (e :: l).map Prod.fst :=
      fun g hg => ⟨(hgs g hg).1, List.mem_cons_of_mem _ (hgs g hg).2⟩
    rcases submitTarget_eq_ok hu with hnone | ⟨f, hstrategy, hasset, hone⟩
    · exact ⟨gs, hnone.trans htrades, honce, hrestOf⟩
    · refine ⟨[f] ++ gs, hone.trans htrades, ?_, ?_⟩
      · apply oncePerAsset_append (List.pairwise_singleton _ f) honce
        rintro f' hf' g hg ⟨-, hsame⟩
        rw [List.mem_singleton.mp hf', hasset] at hsame
        exact hfresh (hsame ▸ (hgs g hg).2)
      · intro g hg
        rcases List.mem_append.mp hg with hg | hg
        · rw [List.mem_singleton.mp hg]
          exact ⟨hstrategy, by simp [hasset]⟩
        · exact hrestOf g hg

theorem handleSignal_eq_ok {signals : Signals} (h : handleSignal d n signals p = (q, .ok ())) :
    ∃ fs, Trades d p q fs ∧ OncePerAsset fs ∧ ∀ f ∈ fs, f.strategy = n := by
  obtain ⟨u, s, hread, hcounted⟩ := bind_eq_ok.mp h
  obtain ⟨hu, -⟩ := Action.read_eq_ok.mp hread
  subst hu
  obtain ⟨v, _, hcount, hsized⟩ := bind_eq_ok.mp hcounted
  rw [Action.modify_eq_ok] at hcount
  obtain ⟨w, sizes, hsizes, htargets⟩ := bind_eq_ok.mp hsized
  obtain ⟨hw, -⟩ := Action.read_eq_ok.mp hsizes
  subst hw hcount
  obtain ⟨fs, htrades, honce, hfs⟩ := forEach_submitTarget sizes.nodup htargets
  refine ⟨fs, ?_, honce, fun f hf => (hfs f hf).1⟩
  have hcounting : Trades d u { u with signalCount := u.signalCount + signals.size } [] :=
    Trades.of_books (.of_eq rfl rfl rfl rfl) fun {_ s} hs => ⟨s, hs, rfl, rfl⟩
  exact hcounting.trans htrades

/-- A strategy finds its signals, which leaves the books as they are, and trades if there are any. -/
theorem runStrategy_eq_ok (h : runStrategy d n p = (q, .ok ())) :
    ∃ u signals, Trades d p u [] ∧ u.signalCount = p.signalCount ∧
      (signals.isEmpty = true ∧ q = u ∨
        signals.isEmpty = false ∧ handleSignal d n signals u = (q, .ok ())) := by
  obtain ⟨u, p', hget, hsignaled⟩ := bind_eq_ok.mp h
  obtain ⟨rfl, rfl⟩ := Action.get_eq_ok.mp hget
  obtain ⟨v, signals, hsignals, hrest⟩ := bind_eq_ok.mp hsignaled
  have hkept : Trades d p' v [] ∧ v.signalCount = p'.signalCount := by
    obtain ⟨s, t, hs, hfound, rfl⟩ := signals_eq_ok hsignals
    refine ⟨?_, rfl⟩
    refine Trades.of_books (.of_eq rfl rfl rfl (OrderedMap.keys_put_of_get? _ hs)) ?_
    intro m s' hs'
    by_cases hm : m = n
    · obtain rfl : s = s' := by
        rw [hm] at hs'
        exact Option.some.inj (hs.symm.trans hs')
      have hsetup := Strategy.setup_signals hfound
      obtain ⟨⟨rule, found'⟩, -, ht⟩ := Except.bind_eq_ok.mp hfound
      obtain ⟨rfl, -⟩ := Prod.mk.inj (Except.pure_eq_ok.mp ht)
      exact ⟨_, by simp [hm], hsetup, rfl⟩
    · exact ⟨s', by simpa [hm] using hs', rfl, rfl⟩
  refine ⟨v, signals, hkept.1, hkept.2, ?_⟩
  split at hrest
  · next hsome => exact Or.inr ⟨by simpa using hsome, hrest⟩
  · next hnone =>
    obtain ⟨rfl, -⟩ := Action.pure_eq_ok.mp hrest
    exact Or.inl ⟨by simpa using hnone, rfl⟩

theorem trades_of_runStrategy (h : runStrategy d n p = (q, .ok ())) :
    ∃ fs, Trades d p q fs ∧ OncePerAsset fs ∧ ∀ f ∈ fs, f.strategy = n := by
  obtain ⟨u, signals, hkept, -, ⟨-, rfl⟩ | ⟨-, hsignal⟩⟩ := runStrategy_eq_ok h
  · exact ⟨[], hkept, List.Pairwise.nil, fun f hf => absurd hf List.not_mem_nil⟩
  · obtain ⟨fs, htrades, honce, hfs⟩ := handleSignal_eq_ok hsignal
    exact ⟨fs, hkept.trans htrades, honce, hfs⟩

/-- The strategies trade one after the other, each for itself. -/
theorem forEach_runStrategy {ns : List String} (hns : ns.Nodup)
    (h : Action.forEach ns (runStrategy d) p = (q, .ok ())) :
    ∃ fs, Trades d p q fs ∧ OncePerAsset fs ∧ ∀ f ∈ fs, f.strategy ∈ ns := by
  induction ns generalizing p with
  | nil =>
    obtain rfl := Action.forEach_nil_eq_ok.mp h
    exact ⟨[], Trades.refl d q, List.Pairwise.nil, fun f hf => absurd hf List.not_mem_nil⟩
  | cons n ns ih =>
    obtain ⟨hfresh, hns⟩ := List.nodup_cons.mp hns
    obtain ⟨u, hu, hrest⟩ := Action.forEach_cons_eq_ok.mp h
    obtain ⟨fs, hfirst, honce, hfs⟩ := trades_of_runStrategy hu
    obtain ⟨gs, hsecond, honce', hgs⟩ := ih hns hrest
    refine ⟨fs ++ gs, hfirst.trans hsecond, ?_, ?_⟩
    · apply oncePerAsset_append honce honce'
      rintro f hf g hg ⟨hsame, -⟩
      rw [hfs f hf] at hsame
      exact hfresh (hsame ▸ hgs g hg)
    · intro f hf
      rcases List.mem_append.mp hf with hf | hf
      · rw [hfs f hf]
        exact List.mem_cons_self
      · exact List.mem_cons_of_mem n (hgs f hf)

/-- Signals are only ever counted up. -/
theorem allowsFunding_signalCount (n : String) :
    AllowsFunding n fun p q : Portfolio => p.signalCount ≤ q.signalCount where
  path := ⟨fun _ => Nat.le_refl _, Nat.le_trans⟩
  strategy _ _ := Nat.le_refl _
  target _ _ := Nat.le_refl _
  fills _ _ _ := Nat.le_refl _
  signalCount _ _ := Nat.le_add_right ..
  orderCount _ := Nat.le_refl _
  brokerage _ _ _ := Nat.le_refl _
  journal _ _ := Nat.le_refl _

theorem allowsActions_signalCount :
    AllowsActions fun p q : Portfolio => p.signalCount ≤ q.signalCount where
  trading n := (allowsFunding_signalCount n).toAllowsTrading
  split _ _ _ := Nat.le_refl _

theorem lt_signalCount_of_handleSignal {signals : Signals} (hsome : signals.isEmpty = false)
    (h : handleSignal d n signals p = (q, .ok ())) : p.signalCount < q.signalCount := by
  obtain ⟨u, s, hread, hcounted⟩ := bind_eq_ok.mp h
  obtain ⟨rfl, -⟩ := Action.read_eq_ok.mp hread
  obtain ⟨v, _, hcount, hsized⟩ := bind_eq_ok.mp hcounted
  rw [Action.modify_eq_ok] at hcount
  obtain ⟨w, sizes, hsizes, htargets⟩ := bind_eq_ok.mp hsized
  obtain ⟨rfl, -⟩ := Action.read_eq_ok.mp hsizes
  have hlater : w.signalCount ≤ q.signalCount := by
    have hframe := (allowsActions_signalCount.books n).submitTargets d sizes w
    rwa [htargets] at hframe
  have hsize : 0 < signals.size := by
    apply List.length_pos_iff.mpr
    simpa [OrderedMap.isEmpty] using hsome
  have hcounts : w.signalCount = u.signalCount + signals.size := by rw [hcount]
  omega

/-- Where no signal is counted, nothing is traded. -/
theorem trades_of_quiet {ns : List String}
    (h : Action.forEach ns (runStrategy d) p = (q, .ok ()))
    (hquiet : q.signalCount = p.signalCount) : Trades d p q [] := by
  induction ns generalizing p with
  | nil =>
    obtain rfl := Action.forEach_nil_eq_ok.mp h
    exact Trades.refl d q
  | cons n ns ih =>
    obtain ⟨u, hu, hrest⟩ := Action.forEach_cons_eq_ok.mp h
    have hlater : u.signalCount ≤ q.signalCount := by
      have hframe := AllowsTrading.runStrategies allowsActions_signalCount.trading d ns u
      rwa [hrest] at hframe
    obtain ⟨v, signals, hkept, hcount, ⟨-, rfl⟩ | ⟨hsome, hsignal⟩⟩ := runStrategy_eq_ok hu
    · exact hkept.trans (ih hrest (hquiet.trans hcount.symm))
    · have hcounted := lt_signalCount_of_handleSignal hsome hsignal
      omega

end Backtesting.Portfolio
