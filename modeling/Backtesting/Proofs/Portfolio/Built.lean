import Backtesting.Config.Components
import Backtesting.Proofs.Portfolio.Supply

/-!
Portfolios that are built from declarations. They start without positions and without target capital,
and none of them hands out fixed capital; what their strategies list and hold at the start is among
the assets and the currencies of the portfolio.
-/
namespace Backtesting

theorem Factory.guarded_eq_ok {f : Factory} {type : String} {r : Except Error α} {a : α} :
    f.guarded type r = .ok a ↔ r = .ok a := Except.mapError_eq_ok

theorem Strategy.book_of_ofConfig {c : StrategyConfig} {e : String × Strategy}
    (h : ofConfig c = .ok e) : e.2.book = Book.start c.cash := by
  unfold ofConfig at h
  split at h
  · simp at h
  · obtain ⟨sizer, -, h⟩ := Except.bind_eq_ok.mp (Factory.guarded_eq_ok.mp h)
    obtain ⟨pricing, -, h⟩ := Except.bind_eq_ok.mp h
    obtain ⟨-, h⟩ := Except.bind_unit_eq_ok.mp h
    dsimp only at h
    split at h
    · obtain ⟨-, h, -⟩ := Except.bind_eq_ok.mp h
      exact absurd h Except.throw_ne_ok
    · obtain ⟨rule, -, h⟩ := Except.bind_eq_ok.mp h
      obtain rfl := Except.pure_eq_ok.mp h
      rfl

theorem Allocator.ne_fixed_of_ofConfig {c : ComponentConfig} {a : Allocator}
    (h : ofConfig c = .ok a) (fixed : List (String × List (String × Amount))) :
    a ≠ .fixed fixed := by
  rintro rfl
  unfold ofConfig Factory.create builder at h
  split at h
  · simp at h
  · next make hmake =>
    rw [Factory.guarded_eq_ok] at h
    split at hmake
    · obtain rfl := Option.some.inj hmake
      obtain ⟨-, h⟩ := Except.bind_unit_eq_ok.mp h
      simp at h
    · obtain rfl := Option.some.inj hmake
      obtain ⟨-, h⟩ := Except.bind_unit_eq_ok.mp h
      simp at h
    · simp at hmake

namespace Portfolio

variable {a : Asset} {c : Currency} {d : Date} {l l' : Listings} {p : Portfolio}

theorem listAsset_eq_ok {name : String} {e : Asset × Currency} (h : listAsset name l e = .ok l') :
    l'.get? e.1 = some e.2 ∧ ∀ a c, l.get? a = some c → l'.get? a = some c := by
  have hput : l' = l.put e.1 e.2 ∧ ∀ c, l.get? e.1 = some c → c = e.2 := by
    unfold listAsset at h
    cases hlisted : l.get? e.1 with
    | none =>
      rw [hlisted] at h
      exact ⟨(Except.ok.inj h).symm, nofun⟩
    | some c =>
      rw [hlisted] at h
      dsimp only at h
      split at h
      · next hsame => exact ⟨(Except.ok.inj h).symm, fun c' hc' => Option.some.inj hc' ▸ hsame⟩
      · simp at h
  obtain ⟨rfl, hsame⟩ := hput
  refine ⟨by simp, fun a c hc => ?_⟩
  by_cases ha : a = e.1
  · subst ha
    simp [hsame c hc]
  · simpa [ha] using hc

theorem get?_of_listAssets {name : String} {entries : List (Asset × Currency)}
    (h : entries.foldlM (listAsset name) l = .ok l') :
    (∀ e ∈ entries, l'.get? e.1 = some e.2) ∧ ∀ a c, l.get? a = some c → l'.get? a = some c := by
  induction entries generalizing l with
  | nil =>
    obtain rfl := Except.foldlM_nil_eq_ok.mp h
    exact ⟨fun e he => absurd he List.not_mem_nil, fun a c hc => hc⟩
  | cons e entries ih =>
    obtain ⟨u, hu, hrest⟩ := Except.foldlM_cons_eq_ok.mp h
    obtain ⟨hfirst, hkept⟩ := listAsset_eq_ok hu
    obtain ⟨hlater, hkept'⟩ := ih hrest
    refine ⟨fun e' he' => ?_, fun a c hc => hkept' a c (hkept a c hc)⟩
    rcases List.mem_cons.mp he' with rfl | he'
    · exact hkept' _ _ hfirst
    · exact hlater e' he'

section Build

variable {name : String} {base : Document} {named : List (String × Strategy)}
  {allocator : Allocator} {commission : Commission} {fxBase : Option Currency}
  {explicit : List (Asset × Document)} {venue : Option MarketHistory}

/-- What a strategy lists is listed by its portfolio, in the same currency. -/
theorem listed_of_build
    (h : build name base named allocator commission fxBase explicit venue = .ok p)
    {n : String} {s : Strategy} (hs : p.strategies.get? n = some s) (hc : s.assets.get? a = some c) :
    p.listings.get? a = some c := by
  obtain ⟨-, -, hlistings, -⟩ := build_eq_ok.mp h
  obtain ⟨explicit, -, hlistings⟩ := Except.bind_eq_ok.mp hlistings
  refine (get?_of_listAssets hlistings).1 (a, c) (List.mem_flatMap.mpr ⟨s, ?_, ?_⟩)
  · exact OrderedMap.mem_values_of_get? hs
  · exact OrderedMap.get?_eq_some_iff.mp hc

end Build

/-- Built of declared strategies and a declared way to hand out capital. -/
def IsBuilt (p : Portfolio) : Prop :=
  ∃ name strategies config allocator, ofStrategies name strategies config allocator = .ok p

/-- What a configuration makes is built, the benchmark as well. -/
theorem isBuilt_of_ofConfig {config : BacktestConfig} {benchmark : Option Portfolio}
    (h : ofConfig config = .ok (p, benchmark)) : ∀ q ∈ p :: benchmark.toList, q.IsBuilt := by
  obtain ⟨portfolio, hportfolio, h⟩ := Except.bind_eq_ok.mp h
  have hfirst : portfolio.IsBuilt := ⟨_, _, _, _, hportfolio⟩
  split at h
  · obtain ⟨rfl, rfl⟩ := Prod.mk.inj (Except.pure_eq_ok.mp h)
    simpa using hfirst
  · obtain ⟨second, hsecond, h⟩ := Except.bind_eq_ok.mp h
    obtain ⟨rfl, rfl⟩ := Prod.mk.inj (Except.pure_eq_ok.mp h)
    have hbenchmark : second.IsBuilt := ⟨_, _, _, _, hsecond⟩
    simpa using ⟨hfirst, hbenchmark⟩

/-- Some strategy lists the asset. -/
def Lists (p : Portfolio) (a : Asset) : Prop :=
  ∃ n s, p.strategies.get? n = some s ∧ a ∈ s.assets.keys

/-- Some strategy lists an asset in the currency or has cash in it. -/
def Uses (p : Portfolio) (c : Currency) : Prop :=
  ∃ n s, p.strategies.get? n = some s ∧ (c ∈ s.assets.values ∨ c ∈ s.book.cash.keys)

namespace IsBuilt

theorem exists_build (h : p.IsBuilt) : ∃ (name : String) (base : Document)
    (named : List (String × Strategy)) (allocator : Allocator) (commission : Commission),
    build name base named allocator commission none [] none = .ok p ∧
      (∀ e ∈ named, ∃ cash, e.2.book = Book.start cash) ∧
      ∀ fixed, allocator ≠ .fixed fixed := by
  obtain ⟨name, strategies, config, declared, h⟩ := h
  obtain ⟨named, hnamed, h⟩ := Except.bind_eq_ok.mp h
  obtain ⟨allocator, hallocator, hbuild⟩ := Except.bind_eq_ok.mp h
  refine ⟨_, _, named, allocator, _, hbuild, fun e he => ?_,
    Allocator.ne_fixed_of_ofConfig hallocator⟩
  obtain ⟨config, -, hconfig⟩ := Except.mem_of_mapM hnamed he
  exact ⟨config.cash, Strategy.book_of_ofConfig hconfig⟩

/-- A portfolio that is built needs what its strategies list and start with. -/
theorem needsOnly (h : p.IsBuilt) : p.NeedsOnly p.Lists fun c => c = p.base ∨ p.Uses c := by
  obtain ⟨name, base, named, allocator, commission, hbuild, hstart, hfixed⟩ := h.exists_build
  obtain ⟨hstrategies, hallocates⟩ := strategies_of_build hbuild
  obtain ⟨-, hfx, -⟩ := history_of_build hbuild
  refine {
    strategies := fun n s hs => ?_
    base := Or.inl rfl
    rates := by rw [hfx]; rfl
    allocator := hallocates ▸ hfixed }
  have hmem := OrderedMap.get?_eq_some_iff.mp hs
  rw [hstrategies] at hmem
  obtain ⟨cash, hcash⟩ : ∃ cash, s.book = Book.start cash := hstart _ hmem
  refine ⟨⟨fun a ha => ⟨n, s, hs, ha⟩, fun c hc => Or.inr ⟨n, s, hs, Or.inl hc⟩, ?_,
    fun c hc => Or.inr ⟨n, s, hs, Or.inr hc⟩⟩, ?_⟩
  · rw [hcash]
    exact fun a ha => absurd ha List.not_mem_nil
  · rw [hcash]
    exact fun c hc => absurd hc List.not_mem_nil

theorem awaits (h : p.IsBuilt) (d : Date) : p.Awaits d := by
  obtain ⟨name, base, named, allocator, commission, hbuild, -, -⟩ := h.exists_build
  obtain ⟨hmarket, hfx, hequity, -⟩ := history_of_build hbuild
  exact ⟨by rw [hmarket]; rfl, by rw [hfx]; rfl, by rw [hequity]; rfl⟩

theorem mem_assets (h : p.IsBuilt) (ha : p.Lists a) : a ∈ p.assets := by
  obtain ⟨name, base, named, allocator, commission, hbuild, -, -⟩ := h.exists_build
  obtain ⟨n, s, hs, ha⟩ := ha
  obtain ⟨c, hc⟩ := OrderedMap.mem_keys_iff.mp ha
  exact OrderedMap.mem_keys_of_get? (listed_of_build hbuild hs hc)

theorem mem_currencies (h : p.IsBuilt) (hc : p.Uses c) (hbase : c ≠ p.base) :
    c ∈ p.currencies := by
  obtain ⟨name, base, named, allocator, commission, hbuild, -, -⟩ := h.exists_build
  refine List.mem_filter.mpr ⟨OrderedMap.mem_keys_ofList.mpr ?_, by simpa using hbase⟩
  rw [List.map_append]
  obtain ⟨n, s, hs, hc | hc⟩ := hc
  · obtain ⟨⟨a, c'⟩, hmem, rfl⟩ := List.mem_map.mp hc
    have hlisted := listed_of_build hbuild hs (OrderedMap.get?_eq_some_iff.mpr hmem)
    refine List.mem_append_left _ (List.mem_map.mpr ⟨(c', ()), ?_, rfl⟩)
    exact List.mem_map.mpr ⟨c', OrderedMap.mem_values_of_get? hlisted, rfl⟩
  · refine List.mem_append_right _ (List.mem_map.mpr ⟨(c, ()), ?_, rfl⟩)
    refine List.mem_flatMap.mpr ⟨s, OrderedMap.mem_values_of_get? hs, ?_⟩
    exact List.mem_map.mpr ⟨c, hc, rfl⟩

end IsBuilt

end Portfolio
end Backtesting
