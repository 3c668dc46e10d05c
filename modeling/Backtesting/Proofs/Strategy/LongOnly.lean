import Backtesting.Proofs.Market.Split
import Backtesting.Proofs.Strategy.Supply
import Backtesting.Proofs.Strategy.Worth

/-!
Why a strategy never sells short. No rule signals a short position, and a size is the direction of
its signal times a number that is not negative, so no strategy wants to hold less than nothing. A
crossover wants something only of what it does not hold, and nothing of what it holds. A split keeps
a position on its side of zero.
-/
namespace Backtesting

namespace Rule

def IsCrossover : Rule → Prop
  | crossover .. => True
  | _ => False

variable {r r' : Rule} {market : MarketHistory} {position : Asset → Int} {assets : List Asset}
  {d : Date} {signals : Signals} {a : Asset} {sig : Signal}

theorem isCrossover_of_unused_eq (h : r.unused = r'.unused) (hr : r.IsCrossover) :
    r'.IsCrossover := by
  cases r with
  | buyAndHold initial => exact absurd hr id
  | rebalancing frequency last => exact absurd hr id
  | crossover fast slow =>
    cases r' with
    | buyAndHold initial => exact nomatch h
    | rebalancing frequency last => exact nomatch h
    | crossover fast' slow' => trivial

theorem eq_of_mem_same {s : Signal} (h : (a, sig) ∈ (Signals.same s assets).toList) : sig = s := by
  have hmem := OrderedMap.mem_ofList h
  obtain ⟨b, -, hb⟩ := List.mem_map.mp hmem
  exact (Prod.mk.inj hb).2.symm

/-- The crossover lets go of what it holds and takes what it does not. -/
theorem of_mem_crossoverSignals {fast slow : Nat}
    (h : crossoverSignals fast slow market position d assets = .ok signals)
    (ha : (a, sig) ∈ signals.toList) : sig = .exit ∨ sig = .long ∧ position a ≤ 0 := by
  obtain ⟨found, hfound, h⟩ := Except.bind_eq_ok.mp h
  obtain rfl := Except.pure_eq_ok.mp h
  obtain ⟨e, hmem, he⟩ := List.mem_filterMap.mp (OrderedMap.mem_ofList ha)
  obtain rfl : e = some (a, sig) := he
  obtain ⟨b, -, hsignal⟩ := Except.mem_of_mapM hfound hmem
  obtain ⟨means, -, hsignal⟩ := Except.bind_eq_ok.mp hsignal
  cases means with
  | none => simp at hsignal
  | some means =>
    obtain ⟨s, hs, hpair⟩ := Option.map_eq_some_iff.mp (Except.pure_eq_ok.mp hsignal)
    obtain ⟨rfl, rfl⟩ := Prod.mk.inj hpair
    unfold crossing at hs
    split at hs
    · next hlong =>
      simp only [Bool.and_eq_true, Bool.not_eq_true', decide_eq_false_iff_not] at hlong
      exact Or.inr ⟨(Option.some.inj hs).symm, Int.not_lt.mp hlong.2⟩
    · split at hs
      · exact Or.inl (Option.some.inj hs).symm
      · simp at hs

/-- What a rule signals is never the short side, and of a crossover either nothing is wanted or
nothing was held. -/
theorem of_mem_signals (h : r.signals market position assets d = .ok (r', signals))
    (ha : (a, sig) ∈ signals.toList) :
    0 ≤ sig.direction ∧ (r.IsCrossover → sig.direction = 0 ∨ position a ≤ 0) := by
  cases r with
  | buyAndHold initial =>
    simp only [Rule.signals, Except.ok.injEq, Prod.mk.injEq] at h
    obtain ⟨-, rfl⟩ := h
    split at ha
    · rw [eq_of_mem_same ha]
      exact ⟨by decide, fun hr => absurd hr id⟩
    · exact absurd ha List.not_mem_nil
  | rebalancing frequency last =>
    obtain ⟨due, -, h⟩ := Except.bind_eq_ok.mp h
    cases due with
    | false =>
      obtain ⟨-, rfl⟩ := Prod.mk.inj (Except.pure_eq_ok.mp h)
      exact absurd ha List.not_mem_nil
    | true =>
      obtain ⟨-, rfl⟩ := Prod.mk.inj (Except.pure_eq_ok.mp h)
      rw [eq_of_mem_same ha]
      exact ⟨by decide, fun hr => absurd hr id⟩
  | crossover fast slow =>
    obtain ⟨found, hfound, h⟩ := Except.bind_eq_ok.mp h
    obtain ⟨-, rfl⟩ := Prod.mk.inj (Except.pure_eq_ok.mp h)
    rcases of_mem_crossoverSignals hfound ha with rfl | ⟨rfl, hflat⟩
    · exact ⟨by decide, fun _ => Or.inl rfl⟩
    · exact ⟨by decide, fun _ => Or.inr hflat⟩

end Rule

namespace Sizer

variable {sizer : Sizer} {b : Book} {l : Listings} {d : Date} {signals : Signals}
  {market : MarketHistory} {fx : FxHistory} {a : Asset} {k : Int}

/-- Where something is wanted of an asset, its part of the capital is converted to its currency and
divided by its close; the whole part of that is wanted, if it is not negative. -/
theorem exists_quantity_of_size {capital : Decimal} {weights : Weights} {sig : Signal}
    (h : size l d capital weights market fx a sig = .ok k) (hdirection : sig.direction ≠ 0) :
    ∃ bar weight currency inBase inListing quotient m, market.bar? d a = some bar ∧
      bar.close.isAtMost 0 = .ok false ∧ weights.get? a = some weight ∧
      l.get? a = some currency ∧ capital.mul weight = .ok inBase ∧
      fx.convert d inBase fx.base currency = .ok inListing ∧
      inListing.div bar.close = .ok quotient ∧ quotient.floorInt = .ok m ∧
      k = sig.direction * max m 0 := by
  unfold size at h
  rw [if_neg hdirection] at h
  obtain ⟨bar, hbar, h⟩ := Except.bind_eq_ok.mp h
  obtain ⟨cheap, hcheap, h⟩ := Except.bind_eq_ok.mp h
  cases cheap with
  | true => cases h
  | false =>
    simp only [Bool.false_eq_true, if_false] at h
    split at h
    · next weight hweight =>
      rw [Except.ok_bind] at h
      obtain ⟨inBase, hproduct, h⟩ := Except.bind_eq_ok.mp h
      obtain ⟨currency, hcurrency, h⟩ := Except.bind_eq_ok.mp h
      obtain ⟨inListing, hconvert, h⟩ := Except.bind_eq_ok.mp h
      obtain ⟨quantity, hquantity, h⟩ := Except.bind_eq_ok.mp h
      obtain ⟨quotient, hdiv, hfloor⟩ := Except.bind_eq_ok.mp (Decimal.lift_eq_ok.mp hquantity)
      exact ⟨bar, weight, currency, inBase, inListing, quotient, quantity,
        Book.requireBar_eq_ok.mp hbar, Decimal.lift_eq_ok.mp hcheap, hweight,
        Listings.currencyOf_eq_ok.mp hcurrency, Decimal.lift_eq_ok.mp hproduct, hconvert, hdiv,
        hfloor, (Except.pure_eq_ok.mp h).symm⟩
    · cases h

theorem size_eq_ok {capital : Decimal} {weights : Weights} {sig : Signal}
    (h : size l d capital weights market fx a sig = .ok k) :
    ∃ m : Int, 0 ≤ m ∧ k = sig.direction * m := by
  by_cases hdirection : sig.direction = 0
  · unfold size at h
    rw [if_pos hdirection] at h
    exact ⟨0, Int.le_refl 0, by simpa using (Except.ok.inj h).symm⟩
  · obtain ⟨_, _, _, _, _, _, m, -, -, -, -, -, -, -, -, hk⟩ :=
      exists_quantity_of_size h hdirection
    exact ⟨max m 0, Int.le_max_right _ _, hk⟩

/-- What is signaled is sized, in the same order. -/
theorem keys_of_sizesFor {sizes : OrderedMap Asset Int}
    (h : sizer.sizesFor b l d signals market fx = .ok sizes) : sizes.keys = signals.keys := by
  unfold sizesFor at h
  split at h
  · next hnone =>
    obtain rfl := Except.ok.inj h
    have hnil : signals.toList = [] := by simpa [OrderedMap.isEmpty] using hnone
    rw [OrderedMap.keys, OrderedMap.keys, hnil]
    rfl
  · obtain ⟨weights, -, h⟩ := Except.bind_eq_ok.mp h
    obtain ⟨capital, -, h⟩ := Except.bind_eq_ok.mp h
    obtain ⟨entries, hentries, h⟩ := Except.bind_eq_ok.mp h
    obtain rfl := Except.pure_eq_ok.mp h
    have hkeys : entries.map Prod.fst = signals.keys := by
      have hall : List.Forall₂ (fun e e' => e.1 = e'.1) signals.toList entries := by
        refine (Except.mapM_eq_ok.mp hentries).imp fun e e' he => ?_
        obtain ⟨k, -, he⟩ := Except.bind_eq_ok.mp he
        exact congrArg Prod.fst (Except.pure_eq_ok.mp he)
      have hmaps := List.forall₂_map_left_iff.mpr (List.forall₂_map_right_iff.mpr hall)
      rw [List.forall₂_eq_eq_eq] at hmaps
      exact hmaps.symm
    have hnodup : (entries.map Prod.fst).Nodup := hkeys ▸ signals.nodup
    rw [← hkeys, OrderedMap.keys, OrderedMap.toList_ofList hnodup]

/-- What is signaled is sized one by one. -/
theorem mem_sizesFor {sizes : OrderedMap Asset Int}
    (h : sizer.sizesFor b l d signals market fx = .ok sizes) (ha : (a, k) ∈ sizes.toList) :
    ∃ weights capital sig, sizer.weightsFor d signals market = .ok weights ∧
      Sizer.capital b l d market fx = .ok capital ∧ (a, sig) ∈ signals.toList ∧
      size l d capital weights market fx a sig = .ok k := by
  unfold sizesFor at h
  split at h
  · obtain rfl := Except.ok.inj h
    exact absurd ha List.not_mem_nil
  · obtain ⟨weights, hweights, h⟩ := Except.bind_eq_ok.mp h
    obtain ⟨capital, hcapital, h⟩ := Except.bind_eq_ok.mp h
    obtain ⟨entries, hentries, h⟩ := Except.bind_eq_ok.mp h
    obtain rfl := Except.pure_eq_ok.mp h
    obtain ⟨⟨a', sig⟩, hsignal, he⟩ := Except.mem_of_mapM hentries (OrderedMap.mem_ofList ha)
    obtain ⟨k', hsize, he⟩ := Except.bind_eq_ok.mp he
    obtain ⟨rfl, rfl⟩ := Prod.mk.inj (Except.pure_eq_ok.mp he)
    exact ⟨weights, capital, sig, hweights, hcapital, hsignal, hsize⟩

/-- A size is that many times the direction of its signal. -/
theorem of_mem_sizesFor {sizes : OrderedMap Asset Int}
    (h : sizer.sizesFor b l d signals market fx = .ok sizes) (ha : (a, k) ∈ sizes.toList) :
    ∃ sig, (a, sig) ∈ signals.toList ∧ ∃ m : Int, 0 ≤ m ∧ k = sig.direction * m := by
  obtain ⟨_, _, sig, -, -, hsignal, hsize⟩ := mem_sizesFor h ha
  exact ⟨sig, hsignal, size_eq_ok hsize⟩

end Sizer

namespace Strategy

variable {s t u : Strategy} {d : Date} {market : MarketHistory} {fx : FxHistory} {a : Asset} {k : Int}

/-- What a strategy can come to want of an asset: one that it lists, nothing below zero, and of a
crossover either nothing or something of what it does not hold. -/
structure Wants (s : Strategy) (a : Asset) (k : Int) : Prop where
  listed : a ∈ s.assets.keys
  nonneg : 0 ≤ k
  crosses : s.rule.IsCrossover → k = 0 ∨ s.position a ≤ 0

theorem wants_of_sizesFor {sizer : Sizer} {signals : Signals} {sizes : OrderedMap Asset Int}
    (hsignals : s.signals d market = .ok (t, signals))
    (hsizes : u.sizesFor sizer d signals market fx = .ok sizes) (ha : (a, k) ∈ sizes.toList) :
    s.Wants a k := by
  obtain ⟨sig, hsig, m, hm, rfl⟩ := Sizer.of_mem_sizesFor hsizes ha
  have hlisted : a ∈ s.assets.keys :=
    mem_of_signals hsignals (List.mem_map_of_mem hsig)
  obtain ⟨⟨rule, found⟩, hfound, h⟩ := Except.bind_eq_ok.mp hsignals
  obtain ⟨-, rfl⟩ := Prod.mk.inj (Except.pure_eq_ok.mp h)
  obtain ⟨hdirection, hcrosses⟩ := Rule.of_mem_signals hfound hsig
  refine ⟨hlisted, Int.mul_nonneg hdirection hm, fun hr => ?_⟩
  rcases hcrosses hr with hzero | hflat
  · left
    rw [hzero, Int.zero_mul]
  · exact Or.inr hflat

end Strategy

namespace Book

open Backtesting.Action (IsPath Keeps)

variable {l : Listings} {b b' : Book} {a : Asset}

theorem position_put (b : Book) (a x : Asset) (k : Int) :
    ({ b with positions := b.positions.put a k } : Book).position x =
      if x = a then k else b.position x := OrderedMap.getD_put b.positions a x k 0

/-- A dividend is paid in cash only, if it can be. -/
theorem positions_applyDividend (l : Listings) (a : Asset) (perShare : Amount) :
    Keeps (fun b c : Book => c.positions = b.positions) (applyDividend l a perShare) := by
  have hpath : IsPath fun b c : Book => c.positions = b.positions :=
    ⟨fun _ => rfl, fun h h' => h'.trans h⟩
  refine Keeps.bind hpath (Keeps.get hpath) fun b => ?_
  dsimp only
  split
  · exact Keeps.pure hpath 0
  · refine Keeps.bind hpath (Keeps.ofExcept hpath _) fun c => ?_
    refine Keeps.bind hpath (Keeps.ofExcept hpath _) fun amount => ?_
    refine Keeps.bind hpath (Keeps.update hpath fun b b' h => ?_) fun _ => Keeps.pure hpath amount
    obtain ⟨v, -, rfl⟩ := credit_eq_ok h
    rfl

/-- A split by the coefficient of a bar leaves what is not held, sells nothing short, and touches no
other asset. -/
theorem position_applySplit {bar : Bar} (h : b.applySplit a (.known bar.split) = .ok b') (x : Asset) :
    (x ≠ a → b'.position x = b.position x) ∧ (b.position x = 0 → b'.position x = 0) ∧
      (0 ≤ b.position x → 0 ≤ b'.position x) := by
  unfold applySplit at h
  cases hk : b.positions.get? a with
  | none =>
    rw [hk] at h
    obtain rfl := Except.ok.inj h
    exact ⟨fun _ => rfl, id, id⟩
  | some k =>
    rw [hk] at h
    obtain ⟨ratio, hratio, h⟩ := Except.bind_eq_ok.mp h
    obtain rfl : bar.split = ratio := Except.ok.inj hratio
    obtain ⟨k', hscaled, h⟩ := Except.bind_eq_ok.mp h
    obtain rfl := Except.pure_eq_ok.mp h
    rw [position_put]
    by_cases hx : x = a
    · have hposition : b.position x = k := by
        unfold position OrderedMap.getD
        rw [hx, hk, Option.getD_some]
      have hpositive := Decimal.lift_eq_ok.mp (Bar.check_eq_ok.mp bar.accepted).2.2.2.2.2.2.2
      obtain ⟨hzero, hnonneg⟩ := Decimal.scale_nonneg hpositive (Decimal.lift_eq_ok.mp hscaled)
      rw [if_pos hx, hposition]
      exact ⟨fun hne => absurd hx hne, hzero, hnonneg⟩
    · rw [if_neg hx]
      exact ⟨fun _ => rfl, id, id⟩

/-- A fill of a listed asset moves its position, even if the cash cannot be paid. -/
theorem positions_applyFill {f : Fill} (b : Book) (h : f.asset ∈ l.keys) :
    (applyFill l f b).1.positions = (b.movePosition f.asset f.signedQuantity).positions := by
  obtain ⟨c, hc⟩ := OrderedMap.mem_keys_iff.mp h
  have hlisted : Action.ofExcept (l.currencyOf f.asset) b = (b, .ok c) := by
    rw [Listings.currencyOf_eq_ok.mpr hc]
    rfl
  have hmoved : Action.modify (·.movePosition f.asset f.signedQuantity) b =
      (b.movePosition f.asset f.signedQuantity, .ok ()) := rfl
  unfold applyFill
  rw [Action.bind_ok hlisted, Action.bind_ok hmoved]
  unfold Action.update
  split
  · next b' hcredit =>
    obtain ⟨flow, -, hcredit⟩ := Except.bind_eq_ok.mp hcredit
    obtain ⟨v, -, rfl⟩ := credit_eq_ok hcredit
    rfl
  · rfl

end Book
end Backtesting
