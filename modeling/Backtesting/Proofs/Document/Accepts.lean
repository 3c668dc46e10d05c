import Backtesting.Config.Backtest
import Backtesting.Proofs.OrderedMap

/-!
What checks let through. What is certain of the values that a check accepts is carried on to the values
that are made of them: from entries to lists and objects, from fields to records, and up to a whole
configuration. All money that a configuration declares is finite, since no other decimal is accepted.
-/
namespace Backtesting

namespace Checked

variable {α β : Type} {P : α → Prop} {Q : β → Prop}

/-- The value has the property, if there is one. -/
def Ensures (P : α → Prop) : Checked α → Prop
  | valid a => P a
  | faulty _ => True

theorem Ensures.of_forall (h : ∀ a, P a) (x : Checked α) : x.Ensures P := by
  cases x with
  | valid a => exact h a
  | faulty fs => trivial

theorem Ensures.mono {P' : α → Prop} {x : Checked α} (hx : x.Ensures P) (h : ∀ a, P a → P' a) :
    x.Ensures P' := by
  cases x with
  | valid a => exact h a hx
  | faulty fs => trivial

theorem ensures_map {f : α → β} {x : Checked α} (h : x.Ensures fun a => Q (f a)) :
    (f <$> x).Ensures Q := by
  cases x with
  | valid a => exact h
  | faulty fs => trivial

theorem ensures_seq {f : Checked (α → β)} {x : Checked α} (hx : x.Ensures P)
    (hf : f.Ensures fun g => ∀ a, P a → Q (g a)) : (f <*> x).Ensures Q := by
  cases f with
  | faulty fs => trivial
  | valid g =>
    cases x with
    | valid a => exact hf a hx
    | faulty fs => trivial

/-- A field of which nothing is promised. -/
theorem ensures_seq_any {f : Checked (α → β)} {x : Checked α}
    (hf : f.Ensures fun g => ∀ a, Q (g a)) : (f <*> x).Ensures Q :=
  ensures_seq (.of_forall (fun _ => trivial) x) (hf.mono fun _ hg a _ => hg a)

theorem Ensures.both {x : Checked α} {y : Checked β} (hy : y.Ensures Q) :
    (x.both y).Ensures fun e => Q e.2 := by
  cases x with
  | faulty fs => trivial
  | valid a =>
    cases y with
    | valid b => exact hy
    | faulty fs => trivial

theorem Ensures.andThen {x : Checked α} {f : α → Checked β} (hx : x.Ensures P)
    (hf : ∀ a, P a → (f a).Ensures Q) : (x.andThen f).Ensures Q := by
  cases x with
  | valid a => exact hf a hx
  | faulty fs => trivial

theorem Ensures.all {xs : List (Checked α)} (h : ∀ x ∈ xs, x.Ensures P) :
    (Checked.all xs).Ensures fun as => ∀ a ∈ as, P a := by
  induction xs with
  | nil => exact fun a ha => absurd ha List.not_mem_nil
  | cons x xs ih =>
    obtain ⟨hx, hxs⟩ := List.forall_mem_cons.mp h
    have hrest := ih hxs
    unfold Checked.all
    cases x with
    | faulty fs => trivial
    | valid a =>
      cases hall : Checked.all xs with
      | faulty fs => trivial
      | valid as =>
        rw [hall] at hrest
        exact List.forall_mem_cons.mpr ⟨hx, hrest⟩

theorem Ensures.of_toExcept {x : Checked α} (hx : x.Ensures P) {a : α} (h : x.toExcept = .ok a) :
    P a := by
  cases x with
  | valid b =>
    obtain rfl := Except.ok.inj h
    exact hx
  | faulty fs => exact nomatch h

end Checked

namespace Schema

open Backtesting.Checked

variable {α κ : Type} {P : α → Prop} {s : Schema α}

/-- All that the check accepts has the property. -/
def Ensures (P : α → Prop) (s : Schema α) : Prop := ∀ at_ x, (s at_ x).Ensures P

theorem Ensures.required (h : s.Ensures P) (at_ : List String) (x : Document) (key : String) :
    (Schema.required s at_ x key).Ensures P := by
  unfold Schema.required
  split
  · exact h _ _
  · trivial

theorem Ensures.withDefault (h : s.Ensures P) {a : α} (ha : P a) (at_ : List String) (x : Document)
    (key : String) : (Schema.withDefault s a at_ x key).Ensures P := by
  unfold Schema.withDefault
  split
  · exact h _ _
  · exact ha

theorem Ensures.optional (h : s.Ensures P) :
    (Schema.optional s).Ensures fun o => ∀ a, o = some a → P a := by
  intro at_ x
  have hx := h at_ x
  unfold Schema.optional
  split
  · exact fun a ha => absurd ha.symm (Option.some_ne_none a)
  · exact ensures_map (f := some) (hx.mono fun a ha b hb => Option.some.inj hb ▸ ha)

theorem Ensures.indexed (h : s.Ensures P) (at_ : List String) (i : Nat) (xs : List Document) :
    ∀ x ∈ Schema.indexed s at_ i xs, x.Ensures P := by
  induction xs generalizing i with
  | nil => exact fun x hx => absurd hx List.not_mem_nil
  | cons y xs ih => exact List.forall_mem_cons.mpr ⟨h _ _, ih (i + 1)⟩

theorem Ensures.list (h : s.Ensures P) : (Schema.list s).Ensures fun as => ∀ a ∈ as, P a := by
  intro at_ x
  unfold Schema.list
  split
  · exact Checked.Ensures.all (h.indexed at_ 0 _)
  · trivial

theorem Ensures.nonempty {s : Schema (List α)} {P : List α → Prop} (h : s.Ensures P) :
    (Schema.nonempty s).Ensures P := by
  intro at_ x
  refine (h at_ x).andThen fun as has => ?_
  split
  · trivial
  · exact has

theorem Ensures.mapping (key : String → Option κ) (h : s.Ensures P) :
    (Schema.mapping key s).Ensures fun es => ∀ e ∈ es, P e.2 := by
  intro at_ x
  unfold Schema.mapping
  split
  · refine Checked.Ensures.all fun e he => ?_
    obtain ⟨entry, -, rfl⟩ := List.mem_map.mp he
    exact (h _ _).both
  · trivial

theorem ensures_decimal : decimal.Ensures Decimal.IsFinite := by
  intro at_ x
  have hfinite : ∀ o : Option Decimal,
      (ofOption at_ (o.bind finite?)).Ensures Decimal.IsFinite := by
    intro o
    cases o with
    | none => trivial
    | some d =>
      show (ofOption at_ (if d.IsFinite then some d else none)).Ensures _
      split
      · next hd => exact hd
      · trivial
  unfold decimal ofPartial
  dsimp only
  split
  · trivial
  · exact hfinite _
  · exact hfinite _
  · exact hfinite _
  · trivial

end Schema

/-- The cash that a strategy starts with is finite. -/
def StrategyConfig.FundsFinite (c : StrategyConfig) : Prop :=
  ∀ ccy x, c.cash.get? ccy = some x → x.IsFinite

/-- All money of a configuration is finite. -/
structure BacktestConfig.FundsFinite (c : BacktestConfig) : Prop where
  commission : c.commission.IsFinite
  strategies : ∀ s ∈ c.strategies, s.FundsFinite
  benchmark : ∀ s, c.benchmark = some s → s.FundsFinite

namespace StrategyConfig

open Backtesting.Checked

theorem ensures_cashSchema :
    cashSchema.Ensures fun es : List (Currency × Decimal) => ∀ e ∈ es, e.2.IsFinite :=
  fun at_ x => Schema.Ensures.mapping Currency.ofCode? Schema.ensures_decimal at_ (upperKeys x)

theorem ensures_ofFields (at_ : List String) (x : Document) : (ofFields at_ x).Ensures FundsFinite := by
  have hcash : (Schema.withDefault cashSchema [] at_ x "cash").Ensures
      fun es : List (Currency × Decimal) => ∀ e ∈ es, e.2.IsFinite :=
    ensures_cashSchema.withDefault (fun e he => absurd he List.not_mem_nil) at_ x "cash"
  refine ensures_seq_any (ensures_seq_any (ensures_seq_any (ensures_seq hcash ?_)))
  refine ensures_seq_any (ensures_seq_any (ensures_map (.of_forall ?_ _)))
  intro name type assets cash hcash sizer pricing parameters ccy v hv
  exact hcash (ccy, v) (OrderedMap.mem_ofList (OrderedMap.get?_eq_some_iff.mp hv))

theorem ensures_schema : schema.Ensures FundsFinite := by
  intro at_ x
  unfold schema
  split
  · exact ensures_ofFields _ _
  · trivial

end StrategyConfig

namespace BacktestConfig

open Backtesting.Checked

theorem ensures_ofFields (at_ : List String) (x : Document) : (ofFields at_ x).Ensures FundsFinite := by
  have hcommission := Schema.ensures_decimal.withDefault (a := .finite false 1 (-3)) trivial at_ x
    "commission_rate"
  have hstrategies := StrategyConfig.ensures_schema.list.nonempty.required at_ x "strategies"
  have hbenchmark := StrategyConfig.ensures_schema.optional.withDefault (a := none)
    (fun s hs => absurd hs.symm (Option.some_ne_none s)) at_ x "benchmark"
  refine ensures_seq hbenchmark (ensures_seq hstrategies (ensures_seq_any (ensures_seq hcommission ?_)))
  refine ensures_seq_any (ensures_seq_any (ensures_seq_any (ensures_seq_any (ensures_seq_any ?_))))
  refine ensures_seq_any (ensures_seq_any (ensures_map (.of_forall ?_ _)))
  intro name base start finish bars rates calendar output commission hcommission allocator strategies
    hstrategies benchmark hbenchmark
  exact ⟨hcommission, hstrategies, hbenchmark⟩

/-- A configuration that is read declares finite money only. -/
theorem fundsFinite_of_read {x : Document} {c : BacktestConfig} (h : read x = .ok c) :
    c.FundsFinite := by
  have hschema : (schema [] x).Ensures FundsFinite := by
    unfold schema
    split
    · refine (ensures_ofFields _ _).andThen fun c hc => ?_
      unfold checkRules
      split
      · trivial
      · exact hc
    · trivial
  exact hschema.of_toExcept h

end BacktestConfig
end Backtesting
