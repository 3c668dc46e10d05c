import Backtesting.Proofs.Calendar.Text
import Backtesting.Proofs.Except
import Backtesting.Proofs.Strategy.Book
import Backtesting.Strategy.Basic

/-!
What a strategy is set up with, as opposed to what it comes to hold and to remember. No step of a
strategy changes its setup, and what its rule remembers is restored from what it exports.
-/
namespace Backtesting

namespace Rule

/-- The rule before it has seen a day. -/
def unused : Rule → Rule
  | buyAndHold _ => buyAndHold none
  | rebalancing f _ => rebalancing f none
  | crossover fast slow => crossover fast slow

theorem unused_signals {r r' : Rule} {market : MarketHistory} {position : Asset → Int}
    {assets : List Asset} {d : Date} {signals : Signals}
    (h : r.signals market position assets d = .ok (r', signals)) : r'.unused = r.unused := by
  cases r with
  | buyAndHold initial =>
    simp only [Rule.signals, Except.ok.injEq, Prod.mk.injEq] at h
    rw [← h.1]
    rfl
  | rebalancing frequency last =>
    obtain ⟨due, -, h⟩ := Except.bind_eq_ok.mp h
    cases due
    · obtain ⟨rfl, -⟩ := Prod.mk.inj (Except.pure_eq_ok.mp h)
      rfl
    · obtain ⟨rfl, -⟩ := Prod.mk.inj (Except.pure_eq_ok.mp h)
      rfl
  | crossover fast slow =>
    obtain ⟨found, -, h⟩ := Except.bind_eq_ok.mp h
    obtain ⟨rfl, -⟩ := Prod.mk.inj (Except.pure_eq_ok.mp h)
    rfl

theorem readOptional_dateText (d : Option Date) : Date.readOptional (dateText d) = .ok d := by
  cases d with
  | none => rfl
  | some d => simp [dateText, Date.readOptional, Date.read_text_toText, Except.map]

theorem isPlain_exportState (r : Rule) : ∀ f ∈ r.exportState.fields, f.2 = .null ∨
    ∃ d : Date, f.2 = .text d.toText := by
  have hdate : ∀ d : Option Date, dateText d = .null ∨ ∃ e : Date, dateText d = .text e.toText := by
    intro d
    cases d with
    | none => exact Or.inl rfl
    | some d => exact Or.inr ⟨d, rfl⟩
  intro f hf
  cases r with
  | buyAndHold initial =>
    obtain rfl : f = ("initial_date", dateText initial) := by
      simpa [exportState, Document.fields] using hf
    exact hdate initial
  | rebalancing frequency last =>
    obtain rfl : f = ("last_rebalancing_date", dateText last) := by
      simpa [exportState, Document.fields] using hf
    exact hdate last
  | crossover fast slow => simp [exportState, Document.fields] at hf

theorem nodup_exportState (r : Rule) : (r.exportState.fields.map Prod.fst).Nodup := by
  cases r <;> simp [exportState, Document.fields]

/-- A rule of the same kind takes over what another one remembers. -/
theorem restoreState_exportState {r r' : Rule} (h : r.unused = r'.unused) :
    r.restoreState (.object r'.exportState.fields) = .ok r' := by
  cases r with
  | buyAndHold initial =>
    cases r' with
    | buyAndHold initial' =>
      have hfield : (Document.object [("initial_date", dateText initial')]).field "initial_date" =
          dateText initial' := rfl
      simp only [restoreState, exportState, Document.fields, hfield, readOptional_dateText]
      rfl
    | rebalancing f' last' => simp [unused] at h
    | crossover fast' slow' => simp [unused] at h
  | rebalancing f last =>
    cases r' with
    | buyAndHold initial' => simp [unused] at h
    | rebalancing f' last' =>
      obtain rfl : f = f' := by simpa [unused] using h
      have hfield : (Document.object [("last_rebalancing_date", dateText last')]).field
          "last_rebalancing_date" = dateText last' := rfl
      simp only [restoreState, exportState, Document.fields, hfield, readOptional_dateText]
      rfl
    | crossover fast' slow' => simp [unused] at h
  | crossover fast slow =>
    cases r' with
    | buyAndHold initial' => simp [unused] at h
    | rebalancing f' last' => simp [unused] at h
    | crossover fast' slow' =>
      obtain ⟨rfl, rfl⟩ : fast = fast' ∧ slow = slow' := by simpa [unused] using h
      rfl

end Rule

namespace Strategy

/-- The strategy as it is set up: what it trades and how, without a book or a memory. -/
def setup (s : Strategy) : Strategy :=
  { s with rule := s.rule.unused, book := Book.start OrderedMap.empty }

theorem setup_signals {s t : Strategy} {d : Date} {market : MarketHistory} {signals : Signals}
    (h : s.signals d market = .ok (t, signals)) : t.setup = s.setup := by
  obtain ⟨⟨rule, found⟩, hrule, h⟩ := Except.bind_eq_ok.mp h
  obtain ⟨rfl, -⟩ := Prod.mk.inj (Except.pure_eq_ok.mp h)
  simp [setup, Rule.unused_signals hrule]

/-- A step of the book leaves the rest of the strategy. -/
theorem onBook_eq {α : Type} {x : Action Book α} {s t : Strategy} {r : Except Error α}
    (h : onBook x s = (t, r)) : ∃ b, x s.book = (b, r) ∧ t = { s with book := b } := by
  obtain ⟨rfl, hr⟩ := Prod.mk.inj h
  exact ⟨(x s.book).1, Prod.ext rfl hr, rfl⟩

/-- What a strategy may become while it trades. -/
structure Evolves (s t : Strategy) : Prop where
  setup : t.setup = s.setup
  book : s.book.Evolves s.assets t.book

theorem evolves_applyFill (f : Fill) (s : Strategy) : s.Evolves (applyFill f s).1 :=
  ⟨rfl, Book.Evolves.applyFill s.assets f s.book⟩

theorem evolves_applyDividend (a : Asset) (perShare : Amount) (s : Strategy) :
    s.Evolves (applyDividend a perShare s).1 :=
  ⟨rfl, Book.Evolves.applyDividend s.assets a perShare s.book⟩

theorem applySplit_eq_ok {s t : Strategy} {a : Asset} {ratio : Amount}
    (h : s.applySplit a ratio = .ok t) :
    ∃ b, s.book.applySplit a ratio = .ok b ∧ t = { s with book := b } := by
  obtain ⟨b, hb, h⟩ := Except.bind_eq_ok.mp h
  exact ⟨b, hb, (Except.pure_eq_ok.mp h).symm⟩

theorem evolves_applySplit {s t : Strategy} {a : Asset} {ratio : Amount}
    (h : s.applySplit a ratio = .ok t) : s.Evolves t := by
  obtain ⟨b, hb, rfl⟩ := applySplit_eq_ok h
  exact ⟨rfl, Book.Evolves.applySplit hb⟩

theorem evolves_signals {s t : Strategy} {d : Date} {market : MarketHistory} {signals : Signals}
    (h : s.signals d market = .ok (t, signals)) : s.Evolves t := by
  refine ⟨setup_signals h, ?_⟩
  obtain ⟨⟨rule, found⟩, -, h⟩ := Except.bind_eq_ok.mp h
  obtain ⟨rfl, -⟩ := Prod.mk.inj (Except.pure_eq_ok.mp h)
  exact Book.Evolves.isPath.refl s.book

theorem setTarget_eq_ok {s t : Strategy} {capital : BalanceSheet}
    (h : s.setTarget capital = .ok t) :
    ∃ target, capital.read = .ok target ∧ t = { s with book := { s.book with target } } := by
  obtain ⟨book, hbook, h⟩ := Except.bind_eq_ok.mp h
  obtain ⟨target, htarget, hbook⟩ := Except.bind_eq_ok.mp hbook
  obtain rfl := Except.pure_eq_ok.mp hbook
  exact ⟨target, htarget, (Except.pure_eq_ok.mp h).symm⟩

/-- The strategy is its setup with its book and its rule. -/
theorem eq_of_setup_eq {s t : Strategy} (h : s.setup = t.setup) :
    { s with rule := t.rule, book := t.book } = t := by
  cases s
  cases t
  simp only [setup, Strategy.mk.injEq] at h
  obtain ⟨rfl, rfl, rfl, -, -⟩ := h
  rfl

theorem assets_of_setup_eq {s t : Strategy} (h : s.setup = t.setup) : s.assets = t.assets :=
  (Strategy.mk.inj h).1

theorem unused_of_setup_eq {s t : Strategy} (h : s.setup = t.setup) :
    s.rule.unused = t.rule.unused :=
  (Strategy.mk.inj h).2.2.2.1

/-- A strategy that puts 1000 dollars into one asset on the first day. -/
def holder (a : Asset) : Strategy where
  assets := OrderedMap.ofList [(a, .usd)]
  sizer := .fixedWeight (OrderedMap.ofList [(a, 1)])
  pricing := .closePrice
  rule := .buyAndHold none
  book := Book.start (OrderedMap.ofList [(.usd, 1000)])

end Strategy
end Backtesting
