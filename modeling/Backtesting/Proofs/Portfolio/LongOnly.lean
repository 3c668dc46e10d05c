import Backtesting.Proofs.Portfolio.Dealings

/-!
Portfolios that never sell short. Whatever becomes of the market events, no position is ever below
zero: splits keep it on its side of zero, and a fill takes it from there to what its strategy wants.
A crossover buys where it holds nothing and sells all it holds, so its fills of an asset alternate,
except where a split has rounded what it held away.
-/
namespace Backtesting

def MarketDay.Splits (day : MarketDay) (a : Asset) : Prop :=
  ∃ bar, (a, bar) ∈ day.bars.toList ∧ bar.hasSplit = true

namespace Portfolio

open Backtesting.Action (IsPath Keeps)

variable {S : Asset → Prop} {p q r : Portfolio} {n : String} {a : Asset}

/-- From `p` to `q` nothing is dealt, and positions are only scaled where there is a split. -/
structure Rescales (S : Asset → Prop) (p q : Portfolio) : Prop where
  brokered : q.brokerage.fills = p.brokerage.fills
  fills : q.fills = p.fills
  unsplit : ∀ n a, ¬ S a → q.positionOf n a = p.positionOf n a
  flat : ∀ n a, p.positionOf n a = 0 → q.positionOf n a = 0
  long : ∀ n a, 0 ≤ p.positionOf n a → 0 ≤ q.positionOf n a

namespace Rescales

theorem isPath (S : Asset → Prop) : IsPath (Rescales S) where
  refl _ := ⟨rfl, rfl, fun _ _ _ => rfl, fun _ _ => id, fun _ _ => id⟩
  trans h h' := {
    brokered := h'.brokered.trans h.brokered
    fills := h'.fills.trans h.fills
    unsplit := fun n a ha => (h'.unsplit n a ha).trans (h.unsplit n a ha)
    flat := fun n a hp => h'.flat n a (h.flat n a hp)
    long := fun n a hp => h'.long n a (h.long n a hp) }

theorem of_deals (h : Deals p q []) : Rescales S p q where
  brokered := by simpa using h.brokered
  fills := by
    obtain ⟨gs, hgs, hfills⟩ := h.recorded
    rw [hfills, List.sublist_nil.mp hgs, List.append_nil]
  unsplit n a _ := h.positionOf_of_nil
  flat n a hp := by rw [h.positionOf_of_nil, hp]
  long n a hp := by rwa [h.positionOf_of_nil]

end Rescales

theorem rescales_handleDividend (d : Date) (a : Asset) (perShare : Amount) :
    Keeps (Rescales S) (handleDividend d a perShare) := by
  have hpath := Deals.isPath_nil
  have hdeals : Keeps (fun p q => Deals p q []) (handleDividend d a perShare) := by
    refine Keeps.bind hpath (Keeps.get hpath) fun p => Keeps.forEach hpath (fun n => ?_) _
    refine Keeps.bind hpath (Keeps.read hpath _) fun s => ?_
    split
    · refine Keeps.bind hpath (deals_onStrategy fun s => ?_) fun credit => ?_
      · exact Book.positions_applyDividend s.assets a perShare s.book
      · split
        · exact deals_log _ _
        · exact Keeps.pure hpath ()
    · exact Keeps.pure hpath ()
  exact hdeals.imp fun _ _ => Rescales.of_deals

theorem rescales_splitPosition {bar : Bar} (ha : S a) (n : String) :
    Keeps (Rescales S) (splitPosition a (.known bar.split) n) := by
  have hpath := Rescales.isPath S
  refine Keeps.bind hpath (Keeps.read hpath _) fun s => ?_
  split
  · intro p
    let R : Asset → Int → Int → Prop :=
      fun x k k' => (¬ S x → k' = k) ∧ (k = 0 → k' = 0) ∧ (0 ≤ k → 0 ≤ k')
    have hkept : ∀ x k, R x k k := fun _ _ => ⟨fun _ => rfl, id, id⟩
    have hsplit : ∀ (s : Strategy) x, R x (s.position x)
        ((Action.update (·.applySplit a (.known bar.split)) s).1.position x) := by
      intro s x
      cases happly : s.applySplit a (.known bar.split) with
      | error e => simpa [Action.update, happly] using hkept x (s.position x)
      | ok t =>
        obtain ⟨b, hb, ht⟩ := Except.bind_eq_ok.mp happly
        obtain rfl := Except.pure_eq_ok.mp ht
        obtain ⟨hother, hflat, hlong⟩ := Book.position_applySplit hb x
        simp only [Action.update, happly]
        exact ⟨fun hx => hother fun hxa => hx (hxa ▸ ha), hflat, hlong⟩
    obtain ⟨hbrokerage, hfills, hpositions⟩ := positions_onStrategy (n := n) hkept hsplit p
    exact ⟨by rw [hbrokerage], hfills, fun n a => (hpositions n a).1,
      fun n a => (hpositions n a).2.1, fun n a => (hpositions n a).2.2⟩
  · exact Keeps.pure hpath ()

theorem rescales_handleSplit {bar : Bar} (ha : S a) (d : Date) :
    Keeps (Rescales S) (handleSplit d a (.known bar.split)) := by
  have hpath := Rescales.isPath S
  refine Keeps.bind hpath (Keeps.get hpath) fun p => ?_
  refine Keeps.bind hpath (Keeps.forEach hpath (rescales_splitPosition ha) _) fun _ => ?_
  refine Keeps.bind hpath (Keeps.ofExcept hpath _) fun c => ?_
  have hbars : Keeps (Rescales S) (splitBars a c) :=
    fun _ => .of_deals (.of_eq rfl rfl fun _ _ => rfl)
  exact Keeps.bind hpath hbars fun count => (deals_log _ _).imp fun _ _ => Rescales.of_deals

/-- Until it trades, a day scales the positions of what it splits. -/
theorem rescales_beforeTrading (day : MarketDay) (p : Portfolio) :
    Rescales day.Splits p (beforeTrading day p) := by
  have hpath := Rescales.isPath day.Splits
  have hdays : Keeps (Rescales day.Splits)
      (do takeIn day; applyCorporateActions day : Action Portfolio Unit) := by
    refine Keeps.bind hpath ((deals_takeIn day).imp fun _ _ => Rescales.of_deals) fun _ => ?_
    refine Keeps.bind hpath (Keeps.forEach hpath ?_ _) fun _ =>
      Keeps.forEach_of_mem hpath fun e he => ?_
    · rintro ⟨a, bar⟩
      exact rescales_handleDividend day.date a _
    · obtain ⟨a, bar⟩ := e
      obtain ⟨hbar, hsplit⟩ := List.mem_filter.mp he
      exact rescales_handleSplit ⟨bar, hbar, hsplit⟩ day.date
  exact hdays p

/-- The strategy is a crossover. -/
def Crosses (p : Portfolio) (n : String) : Prop :=
  ∃ s, p.strategies.get? n = some s ∧ s.rule.IsCrossover

theorem Crosses.of_setup_eq (h : p.Crosses n) (hsetup : p.setup = q.setup) : q.Crosses n := by
  obtain ⟨s, hs, hrule⟩ := h
  obtain ⟨t, ht, hst⟩ := setup_of_get? hsetup hs
  exact ⟨t, ht, Rule.isCrossover_of_unused_eq (Strategy.unused_of_setup_eq hst) hrule⟩

/-- A day of one strategy and one asset. The position opens after the splits at or above zero, and
one fill at most takes it to where it closes, which is not below zero either. A crossover buys out
of nothing and sells all. -/
structure LongDay (day : MarketDay) (p : Portfolio) (n : String) (a : Asset) : Prop where
  opening : 0 ≤ (beforeTrading day p).positionOf n a
  closing : 0 ≤ (handleMarket day p).1.positionOf n a
  dealing :
    (dealings n a (handleMarket day p).1.brokerage.fills = dealings n a p.brokerage.fills ∧
      (handleMarket day p).1.positionOf n a = (beforeTrading day p).positionOf n a) ∨
    ∃ f, dealings n a (handleMarket day p).1.brokerage.fills =
        dealings n a p.brokerage.fills ++ [f] ∧ 0 < f.quantity ∧
      (handleMarket day p).1.positionOf n a =
        (beforeTrading day p).positionOf n a + f.signedQuantity ∧
      (p.Crosses n → (f.action = .buy → (beforeTrading day p).positionOf n a = 0) ∧
        (f.action = .sell → (handleMarket day p).1.positionOf n a = 0))

theorem signedQuantity_eq (f : Fill) :
    f.action = .buy ∧ f.signedQuantity = f.quantity ∨
      f.action = .sell ∧ f.signedQuantity = -f.quantity := by
  unfold Fill.signedQuantity
  cases f.action <;> simp [TradeAction.sign]

theorem longDay (day : MarketDay) (hp : 0 ≤ p.positionOf n a) : LongDay day p n a := by
  have hrescales := rescales_beforeTrading day p
  have hopening := hrescales.long n a hp
  obtain ⟨fs, hdeals⟩ := wanted_handleMarket day p
  have hbrokered := hdeals.brokered
  rw [hrescales.brokered] at hbrokered
  have hmoved := hdeals.moved n a
  rcases dealings_of_oncePerAsset hdeals.once n a with hnone | ⟨f, hf, hname, hasset, hone⟩
  · rw [hnone, List.map_nil, List.sum_nil, Int.add_zero] at hmoved
    refine ⟨hopening, by rwa [hmoved], Or.inl ⟨?_, hmoved⟩⟩
    rw [hbrokered, dealings_append, hnone, List.append_nil]
  · rw [hone, List.map_singleton, List.sum_singleton] at hmoved
    obtain ⟨s, k, hs, hwants, hsigned⟩ := hdeals.justified f hf
    rw [hname] at hs
    rw [hasset] at hwants hsigned
    have hposition := positionOf_of_get? (a := a) hs
    have hnonneg := hwants.nonneg
    have hpositive := hdeals.positive f hf
    have hreached : (handleMarket day p).1.positionOf n a = k := by omega
    refine ⟨hopening, by omega, Or.inr ⟨f, ?_, hpositive, hmoved, fun hcrosses => ?_⟩⟩
    · rw [hbrokered, dealings_append, hone]
    · obtain ⟨t, ht, hrule⟩ := hcrosses.of_setup_eq (setup_beforeTrading day p).symm
      obtain rfl : s = t := Option.some.inj (hs.symm.trans ht)
      have hwanted := hwants.crosses hrule
      rcases signedQuantity_eq f with ⟨hbuy, hquantity⟩ | ⟨hsell, hquantity⟩
      · exact ⟨fun _ => by omega, fun hsell => by simp [hbuy] at hsell⟩
      · exact ⟨fun hbuy => by simp [hsell] at hbuy, fun _ => by omega⟩

/-- Purchases and sales by turns, a purchase first. Another purchase may only follow one where that
is excused, by its place. -/
structure Alternates (fs : List Fill) (excused : Nat → Prop) : Prop where
  first : ∀ f, fs[0]? = some f → f.action = .buy
  sold : ∀ i f g, fs[i]? = some f → fs[i + 1]? = some g → f.action = .sell → g.action = .buy
  bought : ∀ i f g, fs[i]? = some f → fs[i + 1]? = some g → f.action = .buy →
    g.action = .sell ∨ excused (i + 1)

namespace Alternates

variable {fs : List Fill} {excused excused' : Nat → Prop}

theorem nil : Alternates [] excused where
  first _ hf := by simp at hf
  sold _ _ _ hf := by simp at hf
  bought _ _ _ hf := by simp at hf

theorem imp (h : Alternates fs excused) (himp : ∀ k, excused k → excused' k) :
    Alternates fs excused' where
  first := h.first
  sold := h.sold
  bought i f g hf hg hbuy := (h.bought i f g hf hg hbuy).imp_right (himp (i + 1))

/-- Two neighbours among the fills and one more are neighbours among the fills, or the last of them
and the one more. -/
theorem neighbours_append {i : Nat} {e f g : Fill} (hf : (fs ++ [e])[i]? = some f)
    (hg : (fs ++ [e])[i + 1]? = some g) :
    (fs[i]? = some f ∧ fs[i + 1]? = some g) ∨ (fs.getLast? = some f ∧ e = g ∧ i + 1 = fs.length) := by
  have hlength : i + 1 < (fs ++ [e]).length := List.getElem?_eq_some_iff.mp hg |>.1
  rw [List.length_append, List.length_singleton] at hlength
  have hi : i < fs.length := by omega
  rw [List.getElem?_append_left hi] at hf
  by_cases hlast : i + 1 < fs.length
  · rw [List.getElem?_append_left hlast] at hg
    exact Or.inl ⟨hf, hg⟩
  · have heq : i + 1 = fs.length := by omega
    rw [heq, List.getElem?_concat_length] at hg
    refine Or.inr ⟨?_, Option.some.inj hg, heq⟩
    rw [List.getLast?_eq_getElem?, ← heq, Nat.add_sub_cancel, hf]

theorem append {e : Fill} (h : Alternates fs excused) (hfirst : fs = [] → e.action = .buy)
    (hsold : ∀ f, fs.getLast? = some f → f.action = .sell → e.action = .buy)
    (hbought : ∀ f, fs.getLast? = some f → f.action = .buy →
      e.action = .sell ∨ excused fs.length) : Alternates (fs ++ [e]) excused where
  first f hf := by
    cases fs with
    | nil =>
      obtain rfl : e = f := by simpa using hf
      exact hfirst rfl
    | cons g gs => exact h.first f (by simpa using hf)
  sold i f g hf hg hsell := by
    rcases neighbours_append hf hg with ⟨hf, hg⟩ | ⟨hlast, rfl, -⟩
    · exact h.sold i f g hf hg hsell
    · exact hsold f hlast hsell
  bought i f g hf hg hbuy := by
    rcases neighbours_append hf hg with ⟨hf, hg⟩ | ⟨hlast, rfl, heq⟩
    · exact h.bought i f g hf hg hbuy
    · rw [heq]
      exact hbought f hlast hbuy

end Alternates

/-- What a crossover has dealt in an asset and what it holds of it belong together: what it holds it
has bought last, and what it has bought last it holds, or a split has rounded it away. -/
structure Course (n : String) (a : Asset) (excused : Nat → Prop) (p : Portfolio) : Prop where
  long : 0 ≤ p.positionOf n a
  alternates : Alternates (dealings n a p.brokerage.fills) excused
  held : 0 < p.positionOf n a →
    ∃ f, (dealings n a p.brokerage.fills).getLast? = some f ∧ f.action = .buy
  flat : p.positionOf n a = 0 → ∀ f, (dealings n a p.brokerage.fills).getLast? = some f →
    f.action = .buy → excused (dealings n a p.brokerage.fills).length

variable {excused excused' : Nat → Prop}

/-- Splits take a course on, if what they round away is excused. -/
theorem Course.rescales {k : Nat} (h : Course n a excused p) (hsplits : Rescales S p q)
    (himp : ∀ k, excused k → excused' k) (hk : (dealings n a p.brokerage.fills).length = k)
    (hrounded : S a → 0 < p.positionOf n a → q.positionOf n a = 0 → excused' k) :
    Course n a excused' q := by
  refine ⟨hsplits.long n a h.long, ?_, ?_, ?_⟩
  · rw [hsplits.brokered]
    exact h.alternates.imp himp
  · intro hq
    rw [hsplits.brokered]
    refine h.held (h.long.lt_of_ne fun hp => ?_)
    exact hq.ne' (hsplits.flat n a hp.symm)
  · intro hq f hlast hbuy
    rw [hsplits.brokered] at hlast ⊢
    by_cases hp : p.positionOf n a = 0
    · exact himp _ (h.flat hp f hlast hbuy)
    · have hpositive : 0 < p.positionOf n a := h.long.lt_of_ne (Ne.symm hp)
      have hsplit : S a := by
        by_contra hno
        exact hp ((hsplits.unsplit n a hno).symm.trans hq)
      rw [hk]
      exact hrounded hsplit hpositive hq

theorem Course.idle (h : Course n a excused p)
    (hfills : dealings n a q.brokerage.fills = dealings n a p.brokerage.fills)
    (hposition : q.positionOf n a = p.positionOf n a) : Course n a excused q := by
  obtain ⟨hlong, halternates, hheld, hflat⟩ := h
  rw [← hfills] at halternates hheld hflat
  rw [← hposition] at hlong hheld hflat
  exact ⟨hlong, halternates, hheld, hflat⟩

/-- A purchase out of nothing or a sale of all takes a course on. -/
theorem Course.deal {f : Fill} (h : Course n a excused p)
    (hfills : dealings n a q.brokerage.fills = dealings n a p.brokerage.fills ++ [f])
    (hpositive : 0 < f.quantity)
    (hposition : q.positionOf n a = p.positionOf n a + f.signedQuantity)
    (hbuy : f.action = .buy → p.positionOf n a = 0)
    (hsell : f.action = .sell → q.positionOf n a = 0) : Course n a excused q := by
  have hlast : (dealings n a q.brokerage.fills).getLast? = some f := by
    rw [hfills, List.getLast?_append_of_ne_nil _ (List.cons_ne_nil f []), List.getLast?_singleton]
  have hlong := h.long
  rcases signedQuantity_eq f with ⟨haction, hquantity⟩ | ⟨haction, hquantity⟩
  · have hopening := hbuy haction
    refine ⟨by omega, ?_, fun _ => ⟨f, hlast, haction⟩, fun hq => by omega⟩
    rw [hfills]
    exact h.alternates.append (fun _ => haction) (fun _ _ _ => haction)
      fun g hg hbought => Or.inr (h.flat hopening g hg hbought)
  · have hclosing := hsell haction
    have hopening : 0 < p.positionOf n a := by omega
    obtain ⟨g, hg, hbought⟩ := h.held hopening
    refine ⟨by omega, ?_, fun hq => by omega, fun _ e he hbuys => ?_⟩
    · rw [hfills]
      refine h.alternates.append (fun hnil => ?_) (fun e he hsold => ?_) fun _ _ _ => Or.inl haction
      · simp [hnil] at hg
      · obtain rfl : g = e := Option.some.inj (hg.symm.trans he)
        simp [hbought] at hsold
    · obtain rfl : f = e := Option.some.inj (hlast.symm.trans he)
      simp [haction] at hbuys

/-- The state after some days, whatever became of them. -/
def afterDays (days : List MarketDay) (p : Portfolio) : Portfolio := after (days.map .market) p

theorem afterDays_concat (days : List MarketDay) (day : MarketDay) (p : Portfolio) :
    afterDays (days ++ [day]) p = (handleMarket day (afterDays days p)).1 := by
  rw [afterDays, List.map_append, after_append]
  rfl

/-- After `k` fills of a strategy for an asset, on one of the days, a split rounded all away that it
held of it. -/
def RoundedAway (fresh : Portfolio) (days : List MarketDay) (n : String) (a : Asset) (k : Nat) :
    Prop :=
  ∃ before day rest, days = before ++ day :: rest ∧ day.Splits a ∧
    (dealings n a (afterDays before fresh).brokerage.fills).length = k ∧
    0 < (afterDays before fresh).positionOf n a ∧
    (beforeTrading day (afterDays before fresh)).positionOf n a = 0

variable {fresh : Portfolio}

theorem RoundedAway.concat {days : List MarketDay} {k : Nat} (h : RoundedAway fresh days n a k)
    (day : MarketDay) : RoundedAway fresh (days ++ [day]) n a k := by
  obtain ⟨before, split, rest, rfl, h⟩ := h
  exact ⟨before, split, rest ++ [day], by simp, h⟩

theorem long_afterDays (hfresh : ∀ n a, 0 ≤ fresh.positionOf n a) (days : List MarketDay) :
    ∀ n a, 0 ≤ (afterDays days fresh).positionOf n a := by
  induction days using List.reverseRecOn with
  | nil => exact hfresh
  | append_singleton days day ih =>
    intro n a
    rw [afterDays_concat]
    exact (longDay day (ih n a)).closing

theorem course_afterDays (hfresh : Course n a (RoundedAway fresh [] n a) fresh)
    (hcrosses : fresh.Crosses n) (days : List MarketDay) :
    Course n a (RoundedAway fresh days n a) (afterDays days fresh) := by
  induction days using List.reverseRecOn with
  | nil => exact hfresh
  | append_singleton days day ih =>
    rw [afterDays_concat]
    obtain ⟨-, -, hdealing⟩ := longDay day ih.long
    have hbrokered := (rescales_beforeTrading day (afterDays days fresh)).brokered
    have hopened := ih.rescales (rescales_beforeTrading day (afterDays days fresh))
      (fun k hk => RoundedAway.concat hk day) rfl
      fun hsplits hheld hgone => ⟨days, day, [], by simp, hsplits, rfl, hheld, hgone⟩
    rw [← hbrokered] at hdealing
    rcases hdealing with ⟨hfills, hposition⟩ | ⟨f, hfills, hpositive, hposition, hsides⟩
    · exact hopened.idle hfills hposition
    · obtain ⟨hbuy, hsell⟩ := hsides (hcrosses.of_setup_eq (setup_after fresh _).symm)
      exact hopened.deal hfills hpositive hposition hbuy hsell

theorem sublist_afterDays (hfresh : fresh.fills.Sublist fresh.brokerage.fills)
    (days : List MarketDay) :
    (afterDays days fresh).fills.Sublist (afterDays days fresh).brokerage.fills := by
  induction days using List.reverseRecOn with
  | nil => exact hfresh
  | append_singleton days day ih =>
    rw [afterDays_concat]
    have hrescales := rescales_beforeTrading day (afterDays days fresh)
    obtain ⟨fs, hdeals⟩ := wanted_handleMarket day (afterDays days fresh)
    obtain ⟨gs, hgs, hfills⟩ := hdeals.recorded
    rw [hfills, hdeals.brokered, hrescales.fills, hrescales.brokered]
    exact ih.append hgs

/-- Days that all succeed are recorded as they were brokered. -/
theorem fills_of_run {days : List MarketDay} (h : Action.forEach days handleMarket p = (q, .ok ()))
    (hp : p.fills = p.brokerage.fills) : q = afterDays days p ∧ q.fills = q.brokerage.fills := by
  induction days generalizing p with
  | nil =>
    obtain rfl := Action.forEach_nil_eq_ok.mp h
    exact ⟨rfl, hp⟩
  | cons day days ih =>
    obtain ⟨u, hu, hrest⟩ := Action.forEach_cons_eq_ok.mp h
    obtain ⟨fs, -, hfollows⟩ := follows_handleMarket hu
    obtain ⟨rfl, hq⟩ := ih hrest (by rw [hfollows.fills, hfollows.brokered, hp])
    refine ⟨?_, hq⟩
    have hday : afterDays (day :: days) p = afterDays days (handleMarket day p).1 := rfl
    rw [hday, hu]

/-- A portfolio built of strategies that hold nothing never comes to hold less than nothing, whatever
becomes of its days. A crossover buys an asset only when it holds nothing of it, and sells all of it
at once; so its purchases and sales of an asset alternate, the first a purchase, but for another
purchase where a split has rounded the holding away. The fills are those of the brokerage; the
portfolio has recorded the same unless a day failed. -/
theorem long_only {name : String} {base : Document} {named : List (String × Strategy)}
    {allocator : Allocator} {commission : Commission} {fxBase : Option Currency}
    {explicit : List (Asset × Document)} {venue : Option MarketHistory}
    (hbuild : build name base named allocator commission fxBase explicit venue = .ok fresh)
    (hflat : ∀ e ∈ named, e.2.book.positions = OrderedMap.empty) (days : List MarketDay) :
    (∀ n a, 0 ≤ (afterDays days fresh).positionOf n a) ∧
    (∀ day n a, LongDay day (afterDays days fresh) n a) ∧
    (∀ n s a, (n, s) ∈ named → s.rule.IsCrossover →
      (afterDays days fresh).Crosses n ∧
        Alternates (dealings n a (afterDays days fresh).brokerage.fills)
          (RoundedAway fresh days n a)) ∧
    (afterDays days fresh).fills.Sublist (afterDays days fresh).brokerage.fills ∧
    ((Action.forEach days handleMarket fresh).2 = .ok () →
      (afterDays days fresh).fills = (afterDays days fresh).brokerage.fills) := by
  obtain ⟨hnamed, -⟩ := strategies_of_build hbuild
  obtain ⟨-, -, -, hfills, -, -, hbrokerage⟩ := history_of_build hbuild
  have hbrokered : fresh.brokerage.fills = [] := by rw [hbrokerage]; rfl
  have hnothing : ∀ n a, fresh.positionOf n a = 0 := by
    intro n a
    cases hs : fresh.strategies.get? n with
    | none => rw [positionOf, hs, Option.map_none, Option.getD_none]
    | some s =>
      have hmem : (n, s) ∈ named := by
        rw [← hnamed]
        exact OrderedMap.get?_eq_some_iff.mp hs
      rw [positionOf_of_get? hs, Strategy.position, Book.position, hflat (n, s) hmem]
      rfl
  have hlong := long_afterDays (fun n a => (hnothing n a).ge) days
  refine ⟨hlong, fun day n a => longDay day (hlong n a), fun n s a hs hrule => ?_, ?_, fun hok => ?_⟩
  · have hcrosses : fresh.Crosses n := by
      rw [← hnamed, ← OrderedMap.get?_eq_some_iff] at hs
      exact ⟨s, hs, hrule⟩
    have hnone : dealings n a fresh.brokerage.fills = [] := by rw [hbrokered]; rfl
    have hfresh : Course n a (RoundedAway fresh [] n a) fresh := by
      refine ⟨(hnothing n a).ge, ?_, fun hheld => ?_, fun _ f hf => ?_⟩
      · rw [hnone]
        exact Alternates.nil
      · exact absurd (hnothing n a) hheld.ne'
      · simp [hnone] at hf
    exact ⟨hcrosses.of_setup_eq (setup_after fresh _).symm,
      (course_afterDays hfresh hcrosses days).alternates⟩
  · exact sublist_afterDays (by rw [hfills, hbrokered]) days
  · have hrun : Action.forEach days handleMarket fresh =
        ((Action.forEach days handleMarket fresh).1, .ok ()) := Prod.ext rfl hok
    obtain ⟨hreached, hagree⟩ := fills_of_run hrun (by rw [hfills, hbrokered])
    rwa [hreached] at hagree

end Portfolio

/-- A strategy with 1000 dollars that compares the last close with the mean of the last two. -/
def Strategy.crosser (a : Asset) : Strategy := { Strategy.holder a with rule := .crossover 1 2 }

namespace Portfolio

/-- A holder of one asset beside a crossover of another. -/
def mixed : Portfolio :=
  { holding ["A", "B"] with
    strategies := OrderedMap.ofList
      [("holder", Strategy.holder "A"), ("crosser", Strategy.crosser "B")] }

/-- The holder buys 100 shares, then comes a day that fails because it is out of order, then a split
that leaves 50 of them. The crossover buys on a close of 11, sells when it is back at 10 and buys again
at 12. -/
theorem long_only_mixed :
    let first : MarketDay := .flat ⟨2024, 1, 3, by decide, by decide, by decide⟩ ["A", "B"]
    let early : MarketDay := .flat ⟨2024, 1, 2, by decide, by decide, by decide⟩ ["A", "B"]
    let rises : MarketDay := ⟨⟨2024, 1, 4, by decide, by decide, by decide⟩,
      OrderedMap.ofList [("A", ⟨{ Bar.flat.toQuote with split := .finite false 5 (-1) }, rfl⟩),
        ("B", ⟨{ Bar.flat.toQuote with close := 11 }, rfl⟩)], []⟩
    let falls : MarketDay := .flat ⟨2024, 1, 5, by decide, by decide, by decide⟩ ["A", "B"]
    let soars : MarketDay := ⟨⟨2024, 1, 8, by decide, by decide, by decide⟩,
      OrderedMap.ofList [("A", Bar.flat), ("B", ⟨{ Bar.flat.toQuote with close := 12 }, rfl⟩)], []⟩
    let days := [first, early, rises, falls, soars]
    let p := afterDays days mixed
    (handleMarket early (afterDays [first] mixed)).2.toBool = false ∧
      (afterDays [first, early] mixed).positionOf "holder" "A" = 100 ∧
      p.positionOf "holder" "A" = 50 ∧ (∀ n a, 0 ≤ p.positionOf n a) ∧
      p.Crosses "crosser" ∧
      (dealings "crosser" "B" p.brokerage.fills).map (fun f => (f.action, f.quantity)) =
        [(.buy, 90), (.sell, 90), (.buy, 75)] ∧
      Alternates (dealings "crosser" "B" p.brokerage.fills) (RoundedAway mixed days "crosser" "B") := by
  intro first early rises falls soars days p
  have hbuild : build "holding" (.text "USD")
      [("holder", Strategy.holder "A"), ("crosser", Strategy.crosser "B")]
      .selfFunded Commission.standard none [] none = .ok mixed := rfl
  have hflat : ∀ e ∈ [("holder", Strategy.holder "A"), ("crosser", Strategy.crosser "B")],
      e.2.book.positions = OrderedMap.empty := by decide
  have hp : afterDays days mixed = p := rfl
  have hdealt : (dealings "crosser" "B" p.brokerage.fills).map (fun f => (f.action, f.quantity)) =
      [(.buy, 90), (.sell, 90), (.buy, 75)] := by decide +kernel
  obtain ⟨hlong, -, hcrossover, -⟩ := long_only hbuild hflat days
  rw [hp] at hlong hcrossover
  obtain ⟨hcrosses, halternates⟩ :=
    hcrossover "crosser" (Strategy.crosser "B") "B" (by simp) trivial
  exact ⟨by decide +kernel, by decide +kernel, by decide +kernel, hlong, hcrosses, hdealt,
    halternates⟩

end Portfolio
end Backtesting
