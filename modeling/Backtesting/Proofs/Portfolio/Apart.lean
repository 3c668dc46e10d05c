import Backtesting.Proofs.Portfolio.Alone
import Mathlib.Algebra.Group.Prod
import Mathlib.Tactic.Abel

/-!
Steps of different strategies, one after the other. None of them sees what the others have done:
each strategy comes to what its step makes of it in the portfolio as it was before all of them, with
the same fills, and what is counted is the sum of what is counted in the single steps. So it does
not matter in which order the strategies are taken.
-/
namespace Backtesting.Portfolio

variable {n m : String} {p q : Portfolio}

/-- What steps of strategies leave as it is. -/
structure SameStage (p q : Portfolio) : Prop where
  base : q.base = p.base
  allocator : q.allocator = p.allocator
  market : q.market = p.market
  fx : q.fx = p.fx
  equity : q.equity = p.equity
  venue : q.venue = p.venue
  commission : q.brokerage.commission = p.brokerage.commission
  keys : q.strategies.keys = p.strategies.keys

namespace SameStage

theorem isPath : Action.IsPath SameStage where
  refl _ := ⟨rfl, rfl, rfl, rfl, rfl, rfl, rfl, rfl⟩
  trans h h' := ⟨h'.base.trans h.base, h'.allocator.trans h.allocator, h'.market.trans h.market,
    h'.fx.trans h.fx, h'.equity.trans h.equity, h'.venue.trans h.venue,
    h'.commission.trans h.commission, h'.keys.trans h.keys⟩

theorem allowsFunding (m : String) : AllowsFunding m SameStage where
  path := isPath
  strategy hs _ := ⟨rfl, rfl, rfl, rfl, rfl, rfl, rfl, OrderedMap.keys_put_of_get? _ hs⟩
  target _ hs := ⟨rfl, rfl, rfl, rfl, rfl, rfl, rfl, OrderedMap.keys_put_of_get? _ hs⟩
  fills _ _ _ := ⟨rfl, rfl, rfl, rfl, rfl, rfl, rfl, rfl⟩
  signalCount _ _ := ⟨rfl, rfl, rfl, rfl, rfl, rfl, rfl, rfl⟩
  orderCount _ := ⟨rfl, rfl, rfl, rfl, rfl, rfl, rfl, rfl⟩
  brokerage _ _ hb := ⟨rfl, rfl, rfl, rfl, rfl, rfl, hb, rfl⟩
  journal _ _ := ⟨rfl, rfl, rfl, rfl, rfl, rfl, rfl, rfl⟩

end SameStage

/-- One strategy has the same state and the same fills. -/
def SamePart (n : String) (p q : Portfolio) : Prop :=
  q.strategies.get? n = p.strategies.get? n ∧ fillsOf n q.fills = fillsOf n p.fills

theorem allowsFunding_samePart (h : n ≠ m) : AllowsFunding m (SamePart n) where
  path := ⟨fun _ => ⟨rfl, rfl⟩, fun h h' => ⟨h'.1.trans h.1, h'.2.trans h.2⟩⟩
  strategy _ _ := ⟨by simp [h], rfl⟩
  target _ _ := ⟨by simp [h], rfl⟩
  fills p f hf := by
    have hother : fillsOf n [f] = [] := by simp [fillsOf, hf, h.symm]
    exact ⟨rfl, by rw [fillsOf_append, hother, List.append_nil]⟩
  signalCount _ _ := ⟨rfl, rfl⟩
  orderCount _ := ⟨rfl, rfl⟩
  brokerage _ _ _ := ⟨rfl, rfl⟩
  journal _ _ := ⟨rfl, rfl⟩

/-- The signals and the orders so far. -/
def counts (p : Portfolio) : Int × Int := (p.signalCount, p.orderCount)

theorem counts_sub (p q : Portfolio) (k : Nat) :
    counts { p with signalCount := p.signalCount + k } -
        counts { q with signalCount := q.signalCount + k } = counts p - counts q ∧
      counts { p with orderCount := p.orderCount + 1 } -
        counts { q with orderCount := q.orderCount + 1 } = counts p - counts q := by
  simp [counts]

/-- What a strategy sees is the same, and the counts are some numbers apart. -/
structure SeenAlike (n : String) (g : Int × Int) (p q : Portfolio) : Prop where
  part : SamePart n p q
  market : p.market = q.market
  fx : p.fx = q.fx
  venue : p.venue = q.venue
  commission : p.brokerage.commission = q.brokerage.commission
  counts : p.counts - q.counts = g

theorem mirrorsTrading_seenAlike (n : String) (g : Int × Int) :
    MirrorsTrading n (SeenAlike n g) where
  same_strategy h := h.part.1.symm
  same_market h := h.market
  same_fx h := h.fx
  same_venue h := h.venue
  same_commission h := h.commission
  strategy h _ t := { h with part := ⟨by simp, h.part.2⟩ }
  fills h f _ := { h with part := ⟨h.part.1, by rw [fillsOf_append, fillsOf_append, h.part.2]⟩ }
  signalCount {p q} h k := { h with counts := (counts_sub p q k).1.trans h.counts }
  orderCount {p q} h := { h with counts := (counts_sub p q 0).2.trans h.counts }
  brokerage h b c hb hc := { h with commission := hb.trans (h.commission.trans hc.symm) }
  journal h _ _ := { h with }

/-- Steps of different strategies are made apart from each other. -/
theorem apart {α : Type} {name : α → String} {f : α → Action Portfolio Unit}
    (hf : ∀ a, IsOwn (name a) (f a)) {as : List α} (has : (as.map name).Nodup)
    (h : Action.forEach as f p = (q, .ok ())) :
    SameStage p q ∧ counts q = counts p + (as.map fun a => counts (f a p).1 - counts p).sum ∧
      (∀ n ∉ as.map name, SamePart n p q) ∧
      ∀ a ∈ as, ∃ r, f a p = (r, .ok ()) ∧ SamePart (name a) r q := by
  induction as generalizing p with
  | nil =>
    obtain rfl := Action.forEach_nil_eq_ok.mp h
    exact ⟨SameStage.isPath.refl q, by simp, fun _ _ => ⟨rfl, rfl⟩,
      fun a ha => absurd ha List.not_mem_nil⟩
  | cons a as ih =>
    rw [List.map_cons, List.nodup_cons] at has
    obtain ⟨hfresh, has⟩ := has
    obtain ⟨u, hu, hrest⟩ := Action.forEach_cons_eq_ok.mp h
    obtain ⟨hstage, hcounts, hothers, hsteps⟩ := ih has hrest
    have hfirst : SameStage p u := by
      simpa [hu] using (hf a).keeps (SameStage.allowsFunding (name a)) p
    have hunseen : ∀ n, n ≠ name a → SamePart n p u := by
      intro n hn
      simpa [hu] using (hf a).keeps (allowsFunding_samePart hn) p
    -- a later step is the same from `u` as it is from `p`
    have hlater : ∀ b ∈ as, ∀ r, f b u = (r, .ok ()) → ∃ r', f b p = (r', .ok ()) ∧
        SamePart (name b) r' r ∧ counts r - counts u = counts r' - counts p := by
      intro b hb r hr
      have hne : name b ≠ name a := fun heq => hfresh (heq ▸ List.mem_map_of_mem hb)
      have hsame := hunseen (name b) hne
      have hseen : SeenAlike (name b) (counts u - counts p) u p :=
        ⟨⟨hsame.1.symm, hsame.2.symm⟩, hfirst.market, hfirst.fx, hfirst.venue, hfirst.commission,
          rfl⟩
      obtain ⟨r', _, hr', hseen', -⟩ := ((hf b).mirrors (mirrorsTrading_seenAlike _ _)).ok hseen hr
      refine ⟨r', hr', ⟨hseen'.part.1.symm, hseen'.part.2.symm⟩, ?_⟩
      rw [sub_eq_sub_iff_sub_eq_sub, hseen'.counts]
    refine ⟨SameStage.isPath.trans hfirst hstage, ?_, ?_, ?_⟩
    · have hsum : (as.map fun b => counts (f b u).1 - counts u) =
          as.map fun b => counts (f b p).1 - counts p := by
        apply List.map_congr_left
        intro b hb
        obtain ⟨r, hr, -⟩ := hsteps b hb
        obtain ⟨r', hr', -, hgap⟩ := hlater b hb r hr
        rw [hr, hr', hgap]
      rw [hcounts, hsum, List.map_cons, List.sum_cons, hu]
      abel
    · intro n hn
      rw [List.map_cons, List.mem_cons, not_or] at hn
      have hstart := hunseen n hn.1
      have hend := hothers n hn.2
      exact ⟨hend.1.trans hstart.1, hend.2.trans hstart.2⟩
    · intro b hb
      rcases List.mem_cons.mp hb with rfl | hb
      · exact ⟨u, hu, hothers (name b) hfresh⟩
      · obtain ⟨r, hr, hend⟩ := hsteps b hb
        obtain ⟨r', hr', hsame, -⟩ := hlater b hb r hr
        exact ⟨r', hr', hend.1.trans hsame.1, hend.2.trans hsame.2⟩

end Backtesting.Portfolio
