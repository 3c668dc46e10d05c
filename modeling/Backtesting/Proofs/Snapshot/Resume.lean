import Backtesting.Proofs.Portfolio.Mirror
import Backtesting.Proofs.Snapshot.Restore

/-!
Going on from a snapshot. What a restored portfolio lacks is what is only written: the fills before
the snapshot, the counts, the fills of the brokerage and the journal. So it handles every event as
the portfolio does that was never interrupted.
-/
namespace Backtesting

namespace Portfolio

/-- What can be seen of an event: its outcome, the fills it brings, and what it leaves behind. -/
structure Observation where
  outcome : Except Error Unit
  fills : List Fill
  strategies : Strategies
  equity : EquityCurve
  market : MarketHistory
  fx : FxHistory

/-- What can be seen of one event after the other, the failing ones included. -/
def trace : List Event → Portfolio → List Observation
  | [], _ => []
  | e :: es, p =>
      let (q, outcome) := handle e p
      ⟨outcome, q.fills.drop p.fills.length, q.strategies, q.equity, q.market, q.fx⟩ :: trace es q

/-- The portfolios differ in nothing that is read, and in the fills by some `earlier` ones. -/
structure Resumes (earlier : List Fill) (p q : Portfolio) : Prop where
  name : p.name = q.name
  base : p.base = q.base
  strategies : p.strategies = q.strategies
  allocator : p.allocator = q.allocator
  market : p.market = q.market
  fx : p.fx = q.fx
  equity : p.equity = q.equity
  venue : p.venue = q.venue
  commission : p.brokerage.commission = q.brokerage.commission
  fills : p.fills = earlier ++ q.fills

theorem mirrorsEvents_resumes (earlier : List Fill) : MirrorsEvents (Resumes earlier) where
  trading n := {
    same_strategy := fun h => by rw [h.strategies]
    same_market := fun h => h.market
    same_fx := fun h => h.fx
    same_venue := fun h => h.venue
    same_commission := fun h => h.commission
    strategy := fun h _ t => { h with strategies := by rw [h.strategies] }
    fills := fun h f _ => { h with fills := by rw [h.fills, List.append_assoc] }
    signalCount := fun h _ => { h with }
    orderCount := fun h => { h with }
    brokerage := fun h b c hb hc => { h with commission := hb.trans (h.commission.trans hc.symm) }
    journal := fun h _ _ => { h with } }
  same_name h := h.name
  same_base h := h.base
  same_allocator h := h.allocator
  same_strategies h := h.strategies
  same_equity h := h.equity
  market h _ := { h with market := rfl }
  fx h _ := { h with fx := rfl }
  equity h _ := { h with equity := rfl }

/-- No event tells the two apart. -/
theorem trace_eq_of_resumes (earlier : List Fill) {p q : Portfolio} (h : Resumes earlier p q)
    (es : List Event) : trace es p = trace es q := by
  induction es generalizing p q with
  | nil => rfl
  | cons e es ih =>
    obtain ⟨hnext, hagree⟩ := (mirrorsEvents_resumes earlier).handle e p q h
    have houtcome := hagree.eq
    have hfills : (handle e p).1.fills.drop p.fills.length =
        (handle e q).1.fills.drop q.fills.length := by
      rw [hnext.fills, h.fills, List.length_append, ← List.drop_drop, List.drop_left]
    simp only [trace, houtcome, hfills, hnext.strategies, hnext.equity, hnext.market, hnext.fx,
      ih hnext]

end Portfolio

namespace Snapshot

open Portfolio (after trace)

/-- A snapshot taken after any events, written and read back and restored into the portfolio as it
was built, gives all that the future depends on: strategies, equity curve and histories are the
same, and every further event is seen to do the same. -/
theorem resume_invisible {name : String} {base : Document} {named : List (String × Strategy)}
    {allocator : Allocator} {commission : Commission} {fxBase : Option Currency}
    {explicit : List (Asset × Document)} {venue : Option MarketHistory} {fresh : Portfolio}
    (hbuild : Portfolio.build name base named allocator commission fxBase explicit venue =
      .ok fresh)
    (events : List Event) (hwritable : (after events fresh).IsWritable) :
    ∃ s q, capture (after events fresh) = .ok s ∧ ofJson s.toJson = .ok s ∧
      s.restore fresh = (q, .ok ()) ∧
      q.strategies = (after events fresh).strategies ∧
      q.equity = (after events fresh).equity ∧
      q.market = (after events fresh).market ∧
      q.fx = (after events fresh).fx ∧
      ∀ more, trace more q = trace more (after events fresh) := by
  obtain ⟨hmarket, hfx, hequity, hfills, -⟩ := Portfolio.history_of_build hbuild
  have hsetup : (after events fresh).setup = fresh.setup := Portfolio.setup_after fresh events
  have hrates : (after events fresh).fx.HasPositiveRates := by
    apply Portfolio.allowsEvents_positiveRates.after fresh events
    rw [hfx]
    intro e he
    exact absurd he List.not_mem_nil
  have hnorates : fresh.fx.rates = Chronicle.empty := by
    rw [hfx]
    rfl
  obtain ⟨hcapture, htext⟩ := capture_eq_ok hwritable
  obtain ⟨journal, hrestore⟩ := restore_imageOf hsetup.symm hrates hmarket hnorates hequity
  obtain ⟨hname, hbase, -, hallocator, hvenue, -, hcommission⟩ :=
    Portfolio.config_of_setup_eq hsetup
  have hearlier : (after events fresh).fills = (after events fresh).fills ++ fresh.fills := by
    rw [hfills, List.append_nil]
  refine ⟨_, _, hcapture, htext, hrestore, rfl, rfl, rfl, rfl, fun more => ?_⟩
  refine (Portfolio.trace_eq_of_resumes (after events fresh).fills ?_ more).symm
  exact ⟨hname, hbase, rfl, hallocator, rfl, rfl, rfl, hvenue, hcommission, hearlier⟩

/-- A portfolio that has bought on its first day, written and restored. -/
theorem resume_invisible_holding :
    let day : MarketDay := .flat ⟨2024, 1, 2, by decide, by decide, by decide⟩ ["A"]
    let p := after [.market day] (Portfolio.holding ["A"])
    p.fills.length = 1 ∧ ∃ s q, capture p = .ok s ∧ ofJson s.toJson = .ok s ∧
      s.restore (Portfolio.holding ["A"]) = (q, .ok ()) ∧ q.strategies = p.strategies ∧
      q.equity = p.equity ∧ q.market = p.market ∧ q.fx = p.fx ∧
      ∀ more, trace more q = trace more p := by
  intro day p
  have hbuild : Portfolio.build "holding" (.text "USD") [("A", Strategy.holder "A")] .selfFunded
      Commission.standard none [] none = .ok (Portfolio.holding ["A"]) := rfl
  have hfills : p.fills.length = 1 := by decide +kernel
  have hwritable : p.IsWritable := by decide +kernel
  exact ⟨hfills, resume_invisible hbuild [.market day] hwritable⟩

end Snapshot
end Backtesting
