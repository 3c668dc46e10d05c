import Backtesting.Proofs.Market.Split
import Backtesting.Proofs.Portfolio.Day
import Backtesting.Proofs.Portfolio.Setup
import Mathlib.Tactic.Ring

/-!
A split by a finite coefficient above zero. It succeeds unless a result overflows, it reaches the
positions of one asset in the strategies that list it and the bars of that asset on all days, and
what a position is worth at the closes of any day is the same before and after but for three
roundings: of the scaled position to 28 digits and then to a whole share, and of the close.
-/
namespace Backtesting

open Backtesting.Action (Safe)
open Backtesting.Except (FailsOnly)

variable {a : Asset} {c x close close' : Decimal} {k k' : Int}

/-- How far rounding the position to a whole share and the price to a number near the quotient
takes their product from what it was. -/
theorem abs_split_worth_sub_le {c x k' : ℚ} {k close close' ε : ℚ} (hc : c ≠ 0) (hε : 0 ≤ ε)
    (hε' : ε ≤ 1) (hx : |x - k * c| ≤ ε * |k * c|) (hshare : |k' - x| ≤ 1 / 2)
    (hclose : |close' - close / c| ≤ ε * |close / c|) (hnonneg : 0 ≤ close') :
    |k' * close' - k * close| ≤ close' / 2 + 3 * ε * |k * close| := by
  have hproduct : |k * c| * |close / c| = |k * close| := by
    rw [← abs_mul]
    congr 1
    field_simp
  have hrounded : |(k' - x) * close'| ≤ close' / 2 := by
    rw [abs_mul, abs_of_nonneg hnonneg]
    calc |k' - x| * close' ≤ 1 / 2 * close' := by gcongr
      _ = close' / 2 := by ring
  have hposition : |(x - k * c) * (close / c)| ≤ ε * |k * close| := by
    rw [abs_mul, ← hproduct, ← mul_assoc]
    gcongr
  have hprice : |(x - k * c) * (close' - close / c)| ≤ ε * |k * close| := by
    rw [abs_mul, ← hproduct]
    calc |x - k * c| * |close' - close / c| ≤ ε * |k * c| * (ε * |close / c|) := by gcongr
      _ ≤ ε * |k * c| * (1 * |close / c|) := by gcongr
      _ = ε * (|k * c| * |close / c|) := by ring
  have hquotient : |k * c * (close' - close / c)| ≤ ε * |k * close| := by
    rw [abs_mul, ← hproduct]
    calc |k * c| * |close' - close / c| ≤ |k * c| * (ε * |close / c|) := by gcongr
      _ = ε * (|k * c| * |close / c|) := by ring
  have hsum : k' * close' - k * close = (k' - x) * close' + (x - k * c) * (close / c) +
      (x - k * c) * (close' - close / c) + k * c * (close' - close / c) := by
    field_simp
    ring
  rw [hsum]
  calc _ ≤ |(k' - x) * close'| + |(x - k * c) * (close / c)| +
        |(x - k * c) * (close' - close / c)| + |k * c * (close' - close / c)| := by
        refine (abs_add_le _ _).trans (add_le_add_left ((abs_add_le _ _).trans ?_) _)
        exact add_le_add_left (abs_add_le _ _) _
    _ ≤ close' / 2 + ε * |k * close| + ε * |k * close| + ε * |k * close| := by gcongr
    _ = close' / 2 + 3 * ε * |k * close| := by ring

/-- What becomes of the worth of `k` shares at `close` when they are split into `k'` shares at
`close'`, where `x` is the product of `k` and the coefficient. -/
structure KeepsWorth (c x : Decimal) (k k' : Int) (close close' : Decimal) : Prop where
  near : ¬ x.Underflows (k * c.value) → ¬ close'.Underflows (close.value / c.value) →
    |k' * close'.value - k * close.value| ≤
      close'.value / 2 + 2 * 10 ^ (-27 : ℤ) * |k * close.value|
  exact : (∃ i : Int, k * c.value = i) → x.value = k * c.value →
    close'.value = close.value / c.value → k' * close'.value = k * close.value
  only : close.value ≠ 0 → close'.value = close.value / c.value →
    k' * close'.value = k * close.value → (∃ i : Int, k * c.value = i) ∧ x.value = k * c.value

theorem keepsWorth (hc : 0 < c.value) (hx : (Decimal.ofInt k).mul c = .ok x)
    (hk : x.nearestInt = .ok k') (hfinite : close.IsFinite) (hnonneg : close.IsNonneg)
    (hclose : close.div c = .ok close') : KeepsWorth c x k k' close close' := by
  have hkfinite : (Decimal.ofInt k).IsFinite := trivial
  have hcfinite : c.IsFinite := Decimal.isFinite_of_pos hc
  have hnear : Decimal.Near x (k * c.value) := by
    simpa [Decimal.value_ofInt] using Decimal.near_mul hkfinite hcfinite hx
  have hnear' := Decimal.near_div hfinite hc.ne' hclose
  obtain ⟨m, hm, hshare⟩ := Decimal.nearestInt_eq hnear.1
  obtain rfl : m = k' := Except.ok.inj (hm.symm.trans hk)
  refine ⟨fun hlarge hlarge' => ?_, ?_, ?_⟩
  · have hε : 3 * Decimal.halfUnit ≤ 2 * 10 ^ (-27 : ℤ) := by
      norm_num [Decimal.halfUnit]
    calc _ ≤ close'.value / 2 + 3 * Decimal.halfUnit * |k * close.value| :=
          abs_split_worth_sub_le hc.ne' Decimal.halfUnit_nonneg (by norm_num [Decimal.halfUnit])
            (hnear.2.resolve_right hlarge) hshare (hnear'.2.resolve_right hlarge')
            (hnonneg.div hc hclose).value_nonneg
      _ ≤ _ := by gcongr
  · rintro ⟨i, hi⟩ hexact hquotient
    have hwhole : m = i := Except.ok.inj
      (hk.symm.trans (Decimal.nearestInt_of_value hnear.1 (hexact.trans hi)))
    rw [hquotient, hwhole, ← hi]
    field_simp
  · intro hpositive hquotient hsame
    -- equal worths leave no other whole number of shares than the exact one
    have hshares : k * c.value = m := by
      rw [hquotient] at hsame
      field_simp at hsame
      linarith
    refine ⟨⟨m, hshares⟩, ?_⟩
    obtain ⟨j, hj⟩ := Decimal.mul_of_int (i := m) hkfinite hcfinite
      (by rwa [Decimal.value_ofInt]) hx
    obtain rfl : m = j := Except.ok.inj (hk.symm.trans (Decimal.nearestInt_of_value hnear.1 hj))
    exact hj.trans hshares.symm

namespace Book

variable {b b' : Book} {ratio : Amount}

/-- A split scales the position in its asset and leaves the rest of the book. -/
theorem applySplit_scales (hratio : ratio.read = .ok c) (hc : c.IsFinite)
    (h : b.applySplit a ratio = .ok b') :
    b'.cash = b.cash ∧ b'.target = b.target ∧
      (∀ a' ≠ a, b'.positions.get? a' = b.positions.get? a') ∧
      ∃ x, (Decimal.ofInt (b.position a)).mul c = .ok x ∧ x.nearestInt = .ok (b'.position a) := by
  unfold applySplit at h
  cases hk : b.positions.get? a with
  | none =>
    rw [hk] at h
    obtain rfl := Except.ok.inj h
    have hflat : b.position a = 0 := by
      rw [position, OrderedMap.getD, hk, Option.getD_none]
    refine ⟨rfl, rfl, fun _ _ => rfl, ?_⟩
    rw [hflat]
    exact Decimal.exists_zero_mul hc
  | some k =>
    rw [hk, hratio] at h
    obtain ⟨c', hc', hrest⟩ := Except.bind_eq_ok.mp h
    obtain rfl := Except.ok.inj hc'
    obtain ⟨k', hscaled, hb⟩ := Except.bind_eq_ok.mp hrest
    obtain rfl := Except.pure_eq_ok.mp hb
    obtain ⟨x, hx, hnearest⟩ := Except.bind_eq_ok.mp (Decimal.lift_eq_ok.mp hscaled)
    refine ⟨rfl, rfl, fun a' ha' => by simp [ha'], x, ?_, ?_⟩
    · rwa [position, OrderedMap.getD, hk, Option.getD_some]
    · simpa [position, OrderedMap.getD] using hnearest

theorem failsOnly_applySplit (b : Book) (a : Asset) (hratio : ratio.read = .ok c)
    (hc : c.IsFinite) : FailsOnly Error.IsOverflow (b.applySplit a ratio) := by
  unfold applySplit
  cases b.positions.get? a with
  | none => exact FailsOnly.ok b
  | some k =>
    simp only [hratio, Except.ok_bind]
    exact FailsOnly.bind (Decimal.failsOnly_scale k hc) fun k' _ => FailsOnly.ok _

end Book

namespace Portfolio

variable {d : Date} {p q : Portfolio} {ratio : Amount}

/-- What a split leaves a strategy in. -/
theorem strategy_of_splitPosition {m n : String} {s : Strategy}
    (h : splitPosition a ratio m p = (q, .ok ())) (hs : p.strategies.get? n = some s) :
    ∃ b, q.strategies.get? n = some { s with book := b } ∧
      if n = m ∧ s.assets.contains a then s.book.applySplit a ratio = .ok b else b = s.book := by
  obtain ⟨t, ht, ⟨hlisted, rfl⟩ | ⟨hlisted, b, hb, rfl⟩⟩ := splitPosition_eq_ok h
  · refine ⟨s.book, hs, ?_⟩
    rw [if_neg]
    rintro ⟨rfl, hcontains⟩
    obtain rfl : s = t := Option.some.inj (hs.symm.trans ht)
    simp [hlisted] at hcontains
  · by_cases hnm : n = m
    · subst hnm
      obtain rfl : s = t := Option.some.inj (hs.symm.trans ht)
      exact ⟨b, by simp, by rwa [if_pos ⟨rfl, hlisted⟩]⟩
    · exact ⟨s.book, by simpa [hnm] using hs, by rw [if_neg fun h => hnm h.1]⟩

/-- Every strategy that lists the asset is split once. -/
theorem strategy_of_splitPositions {ns : List String} (hns : ns.Nodup)
    (h : Action.forEach ns (splitPosition a ratio) p = (q, .ok ())) {n : String} {s : Strategy}
    (hs : p.strategies.get? n = some s) :
    ∃ b, q.strategies.get? n = some { s with book := b } ∧
      if n ∈ ns ∧ s.assets.contains a then s.book.applySplit a ratio = .ok b else b = s.book := by
  induction ns generalizing p s with
  | nil =>
    obtain rfl := Action.forEach_nil_eq_ok.mp h
    exact ⟨s.book, hs, by simp⟩
  | cons m ns ih =>
    obtain ⟨u, hu, hrest⟩ := Action.forEach_cons_eq_ok.mp h
    obtain ⟨hm, hns⟩ := List.nodup_cons.mp hns
    obtain ⟨b, hb, hfirst⟩ := strategy_of_splitPosition hu hs
    obtain ⟨b', hb', hlater⟩ := ih hns hrest hb
    refine ⟨b', hb', ?_⟩
    by_cases hnm : n = m
    · subst hnm
      simp only [hm, false_and, if_false] at hlater
      subst hlater
      simpa using hfirst
    · simp only [hnm, false_and, if_false] at hfirst
      subst hfirst
      simpa [hnm] using hlater

theorem failsOnly_splitPosition {n : String} (hn : n ∈ p.strategies.keys)
    (hratio : ratio.read = .ok c) (hc : c.IsFinite) :
    FailsOnly Error.IsOverflow (splitPosition a ratio n p).2 := by
  refine Action.failsOnly_bind (failsOnly_strategy (absurd hn)) fun q s hread => ?_
  obtain ⟨rfl, -⟩ := Action.read_eq_ok.mp hread
  split
  · refine failsOnly_onStrategy (absurd hn) fun t _ => Action.failsOnly_update ?_
    exact FailsOnly.bind (t.book.failsOnly_applySplit a hratio hc) fun _ _ => FailsOnly.ok _
  · exact FailsOnly.ok ()

/-- A split by a finite coefficient above zero fails by overflow only. -/
theorem failsOnly_handleSplit (d : Date) (a : Asset) (p : Portfolio) (hratio : ratio.read = .ok c)
    (hc : 0 < c.value) : FailsOnly Error.IsOverflow (handleSplit d a ratio p).2 := by
  have hposition : ∀ n ∈ p.strategies.keys,
      Safe Error.IsOverflow (fun q => q.setup = p.setup) (splitPosition a ratio n) := by
    intro n hn
    have hkeeps := (allowsEvents_setup.actions.books n).splitPosition a ratio
    refine Safe.of_keeps (hkeeps.imp fun s t h hs => h.trans hs) fun s hs => ?_
    exact failsOnly_splitPosition (keys_of_setup_eq hs ▸ hn) hratio (Decimal.isFinite_of_pos hc)
  have hbars : Safe Error.IsOverflow (fun q => q.setup = p.setup) (splitBars a c) :=
    fun q hq => ⟨hq, q.market.failsOnly_split a fun bar => bar.failsOnly_adjustedForSplit hc⟩
  have hsplit : Safe Error.IsOverflow (fun q => q.setup = p.setup) (handleSplit d a ratio) := by
    refine Safe.bind_of_ok Safe.get fun {s t u} hs hget => ?_
    obtain ⟨rfl, rfl⟩ := Action.get_eq_ok.mp hget
    refine Safe.bind (Safe.forEach fun n hn => hposition n (keys_of_setup_eq hs ▸ hn)) fun _ => ?_
    refine Safe.bind_of_ok (Safe.ofExcept (hratio ▸ FailsOnly.ok c)) fun {_ _ c'} _ hread => ?_
    obtain rfl := Except.ok.inj ((Action.ofExcept_eq_ok.mp hread).2.symm.trans hratio)
    exact Safe.bind hbars fun n => Safe.modify fun q hq => hq
  exact (hsplit p rfl).2

/-- What a split leaves of a strategy in whose hands `x` is what the position is scaled to. -/
structure SplitsStrategy (a : Asset) (c : Decimal) (h g : MarketHistory) (s t : Strategy) :
    Prop where
  setup : t = { s with book := t.book }
  cash : t.book.cash = s.book.cash
  others : ∀ a' ≠ a, t.position a' = s.position a'
  unlisted : s.assets.contains a = false → t = s
  worth : s.assets.contains a = true → ∃ x, (Decimal.ofInt (s.position a)).mul c = .ok x ∧
    ∀ d bar bar', h.bar? d a = some bar → g.bar? d a = some bar' → bar.close.IsFinite →
      KeepsWorth c x (s.position a) (t.position a) bar.close bar'.close

/-- A split by a finite coefficient above zero succeeds unless a result overflows. It adjusts the bars
of its asset, it scales the positions in that asset, and it touches nothing else that is held. -/
theorem split_keeps_worth (d : Date) (a : Asset) (p : Portfolio) {ratio : Amount} {c : Decimal}
    (hratio : ratio.read = .ok c) (hc : 0 < c.value) :
    (handle (.split d a ratio) p).2 = .error (.decimal .overflow) ∨
      ∃ q n, handle (.split d a ratio) p = (q, .ok ()) ∧
        p.market.split a c = (q.market, .ok n) ∧
        MarketHistory.AdjustsBars a c p.market q.market n ∧
        ∀ m s, p.strategies.get? m = some s → ∃ t, q.strategies.get? m = some t ∧
          SplitsStrategy a c p.market q.market s t := by
  have hcfinite := Decimal.isFinite_of_pos hc
  rcases hsplit : handleSplit d a ratio p with ⟨q, e | u⟩
  · left
    have he : e = .decimal .overflow :=
      failsOnly_handleSplit d a p hratio hc e (congrArg Prod.snd hsplit)
    show (handleSplit d a ratio p).2 = _
    rw [hsplit, he]
  obtain ⟨v, c', n, market, journal, hpositions, hread, hbars, rfl⟩ := handleSplit_eq_ok hsplit
  obtain rfl : c = c' := Except.ok.inj (hratio.symm.trans hread)
  rw [(SameStores.of_splitPositions hpositions).market] at hbars
  have hadjusted := MarketHistory.adjustsBars_of_split hbars
  refine Or.inr ⟨_, n, hsplit, hbars, hadjusted, fun m s hs => ?_⟩
  obtain ⟨b, hb, hbook⟩ := strategy_of_splitPositions p.strategies.nodup hpositions hs
  refine ⟨_, hb, ?_⟩
  cases hlisted : s.assets.contains a with
  | false =>
    obtain rfl : b = s.book := by simpa [hlisted] using hbook
    exact ⟨rfl, rfl, fun _ _ => rfl, fun _ => rfl, fun h => by simp [hlisted] at h⟩
  | true =>
    rw [if_pos ⟨OrderedMap.mem_keys_of_get? hs, hlisted⟩] at hbook
    obtain ⟨hcash, -, hothers, x, hx, hnearest⟩ := Book.applySplit_scales hratio hcfinite hbook
    refine ⟨rfl, hcash, fun a' ha' => ?_, fun h => by simp [hlisted] at h, fun _ => ⟨x, hx, ?_⟩⟩
    · simp [Strategy.position, Book.position, OrderedMap.getD, hothers a' ha']
    intro d bar bar' hbar hbar' hfinite
    obtain ⟨bar₁, hbar₁, hclose, -, -⟩ := hadjusted.adjusted d bar hbar
    obtain rfl : bar' = bar₁ := Option.some.inj (hbar'.symm.trans hbar₁)
    exact keepsWorth hc hx hnearest hfinite bar.isNonneg_close hclose

/-- A split of three for two: 100 shares at 10 dollars become 150, at a price of 28 digits. -/
theorem split_keeps_worth_holding :
    let day : MarketDay := .flat ⟨2024, 1, 2, by decide, by decide, by decide⟩ ["A"]
    let c : Decimal := .finite false 15 (-1)
    let p := after [.market day] (holding ["A"])
    0 < c.value ∧ ∃ q n, handle (.split day.date "A" (.known c)) p = (q, .ok ()) ∧
      MarketHistory.AdjustsBars "A" c p.market q.market n ∧
      (q.strategies.get? "A").map (·.position "A") = some 150 ∧
      ∀ m s, p.strategies.get? m = some s → ∃ t, q.strategies.get? m = some t ∧
        SplitsStrategy "A" c p.market q.market s t := by
  intro day c p
  have hc : 0 < c.value := by norm_num [c, Decimal.value, Decimal.signed]
  have hsplit : (handle (.split day.date "A" (.known c)) p).2.toBool = true := by decide +kernel
  have hposition : ((handle (.split day.date "A" (.known c)) p).1.strategies.get? "A").map
      (·.position "A") = some 150 := by decide +kernel
  refine ⟨hc, ?_⟩
  have hread : (Amount.known c).read = .ok c := rfl
  rcases split_keeps_worth day.date "A" p hread hc with hoverflow | hkept
  · rw [hoverflow] at hsplit
    exact Bool.noConfusion hsplit
  · obtain ⟨q, n, hq, -, hbars, hbooks⟩ := hkept
    rw [hq] at hposition
    exact ⟨q, n, hq, hbars, hposition, hbooks⟩

/-- Nine shares at 110 dollars and a coefficient just below a third. The scaled position is no whole
number and the quotient of the price is rounded, but what is lost by the one is gained by the other:
three shares at 330 dollars. -/
theorem split_errors_cancel :
    let day : MarketDay := ⟨⟨2024, 1, 2, by decide, by decide, by decide⟩,
      OrderedMap.ofList [("A", ⟨⟨110, 110, 110, 110, 110, 100, 0, 1⟩, rfl⟩)], []⟩
    let c : Decimal := .finite false 3333333333333333333333333333 (-28)
    let p := after [.market day] (holding ["A"])
    let q := (handle (.split day.date "A" (.known c)) p).1
    (handle (.split day.date "A" (.known c)) p).2.toBool = true ∧
      ∃ (k k' : Int) (close close' : Decimal),
        (p.strategies.get? "A").map (·.position "A") = some k ∧
        (q.strategies.get? "A").map (·.position "A") = some k' ∧
        (p.market.bar? day.date "A").map (·.close) = some close ∧
        (q.market.bar? day.date "A").map (·.close) = some close' ∧
        (¬ ∃ i : Int, k * c.value = i) ∧ close'.value ≠ close.value / c.value ∧
        k' * close'.value = k * close.value := by
  intro day c p q
  refine ⟨by decide +kernel, 9, 3, .finite false 110 0,
    .finite false 3300000000000000000000000000 (-25), by decide +kernel, by decide +kernel,
    by decide +kernel, by decide +kernel, ?_, ?_, ?_⟩
  · rintro ⟨i, hi⟩
    have hwhole : (29999999999999999999999999997 : ℚ) = i * 10 ^ 28 := by
      rw [← hi]
      norm_num [c, Decimal.value, Decimal.signed]
    have hwhole' : (29999999999999999999999999997 : Int) = i * 10 ^ 28 := by exact_mod_cast hwhole
    omega
  · norm_num [c, Decimal.value, Decimal.signed]
  · norm_num [Decimal.value, Decimal.signed]

end Portfolio
end Backtesting
