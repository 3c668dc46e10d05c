import Backtesting.Proofs.Portfolio.Setup
import Backtesting.Snapshot

/-!
All the states that a portfolio can get into after it is built, over whatever histories it is given:
by events, whether they succeed or not, and by snapshots that are restored into it. None of them changes
its setup.
-/
namespace Backtesting

open Backtesting.Action (IsPath Keeps)

namespace Strategy

variable {s t : Strategy}

theorem isPath_setup : IsPath fun s t : Strategy => t.setup = s.setup :=
  ⟨fun _ => rfl, fun h h' => h'.trans h⟩

theorem unused_restoreState {r r' : Rule} {state : Document} (h : r.restoreState state = .ok r') :
    r'.unused = r.unused := by
  cases r with
  | buyAndHold initial =>
    obtain ⟨d, -, h⟩ := Except.bind_eq_ok.mp h
    obtain rfl := Except.pure_eq_ok.mp h
    rfl
  | rebalancing frequency last =>
    obtain ⟨d, -, h⟩ := Except.bind_eq_ok.mp h
    obtain rfl := Except.pure_eq_ok.mp h
    rfl
  | crossover fast slow =>
    obtain rfl := Except.ok.inj h
    rfl

theorem setup_restoreState {state : Document} (h : s.restoreState state = .ok t) :
    t.setup = s.setup := by
  obtain ⟨rule, hrule, h⟩ := Except.bind_eq_ok.mp h
  obtain rfl := Except.pure_eq_ok.mp h
  simp [setup, unused_restoreState hrule]

end Strategy

namespace Portfolio

variable {fresh p : Portfolio}

/-- A step of a strategy that keeps its setup keeps the setup of the portfolio. -/
theorem keeps_setup_onStrategy {α : Type} {x : Action Strategy α}
    (hx : Keeps (fun s t => t.setup = s.setup) x) (n : String) :
    Keeps (fun p q => q.setup = p.setup) (onStrategy n x) := by
  intro p
  unfold onStrategy
  cases hs : p.strategies.get? n with
  | none => rfl
  | some s => exact setup_put hs (hx s)

theorem keeps_setup_restore (s : Snapshot) :
    Keeps (fun p q => q.setup = p.setup) s.restore := by
  have hpath : IsPath fun p q : Portfolio => q.setup = p.setup := allowsEvents_setup.path
  refine Keeps.bind hpath (Keeps.read hpath _) fun _ => ?_
  refine Keeps.bind hpath (Keeps.forEach hpath (fun e => ?_) _) fun _ => ?_
  · refine keeps_setup_onStrategy (Keeps.bind Strategy.isPath_setup (fun t => rfl) fun _ => ?_) _
    exact Keeps.update Strategy.isPath_setup fun t u hu => Strategy.setup_restoreState hu
  refine Keeps.bind hpath (Keeps.forEach hpath (fun e => ?_) _) fun _ => ?_
  · refine Keeps.update hpath fun p q hq => ?_
    obtain ⟨bars, -, hq⟩ := Except.bind_eq_ok.mp hq
    obtain ⟨market, -, hq⟩ := Except.bind_eq_ok.mp hq
    obtain rfl := Except.pure_eq_ok.mp hq
    rfl
  refine Keeps.bind hpath (Keeps.forEach hpath (fun e => ?_) _) fun _ => ?_
  · refine Keeps.update hpath fun p q hq => ?_
    obtain ⟨fx, hfx, hq⟩ := Except.bind_eq_ok.mp hq
    obtain rfl := Except.pure_eq_ok.mp hq
    simp [setup, FxHistory.base_append hfx]
  refine Keeps.bind hpath (Keeps.forEach hpath (fun e => ?_) _) fun _ => ?_
  · refine Keeps.update hpath fun p q hq => ?_
    obtain ⟨equity, -, hq⟩ := Except.bind_eq_ok.mp hq
    obtain rfl := Except.pure_eq_ok.mp hq
    rfl
  refine Keeps.bind hpath (Keeps.get hpath) fun _ => ?_
  exact Keeps.modify fun p => rfl

/-- The states of a portfolio that was built as `fresh`. -/
inductive Reached (fresh : Portfolio) : Portfolio → Prop
  | start (market : MarketHistory) (fx : FxHistory) (h : fx.base = fresh.fx.base) :
      Reached fresh { fresh with market, fx }
  | handle {p : Portfolio} (h : Reached fresh p) (e : Event) : Reached fresh (Portfolio.handle e p).1
  | restore {p : Portfolio} (h : Reached fresh p) (s : Snapshot) : Reached fresh (s.restore p).1

namespace Reached

theorem setup_eq (h : Reached fresh p) : p.setup = fresh.setup := by
  induction h with
  | start market fx h => simp [setup, h]
  | @handle p h e ih => exact (allowsEvents_setup.handle e p).trans ih
  | @restore p h s ih => exact (keeps_setup_restore s p).trans ih

theorem after (h : Reached fresh p) (es : List Event) : Reached fresh (Portfolio.after es p) := by
  induction es generalizing p with
  | nil => exact h
  | cons e es ih => exact ih (h.handle e)

end Reached

end Portfolio
end Backtesting
