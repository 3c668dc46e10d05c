import Backtesting.Proofs.Calendar.Ordinal
import Backtesting.Proofs.Chronicle
import Backtesting.Proofs.Statistics.Performance
import Mathlib.Algebra.Order.Field.Basic
import Mathlib.Algebra.Order.Field.Rat
import Mathlib.Data.List.Forall2
import Mathlib.Order.Bounds.Basic

/-!
What the drawdowns of a curve measure where its values are exact and positive. The walk along the
curve keeps the highest value so far and the first day that had it, so each day is told how far it
lies below that value, and its age is reckoned from that first day. A day that comes back to the
highest value without exceeding it is thus neither a loss nor a new start: the longest duration
counts the days of a plateau, which the deepest loss does not see. On a curve that never comes back
to a value it has had at its height, the duration is the time spent below that height.
-/
namespace Backtesting

namespace Date

variable {d p q : Date}

theorem le_of_lt (h : p < q) : p ≤ q := Nat.le_of_lt h

theorem not_lt_of_le (h : p ≤ q) : ¬ q < p := Nat.not_lt_of_le h

theorem lt_of_le_of_ne (h : p ≤ q) (hne : p ≠ q) : p < q :=
  Nat.lt_of_le_of_ne h fun hplace => hne (eq_of_place_eq hplace)

theorem daysBetween_pos (h : p < d) : 0 < p.daysBetween d := by
  have hordinal := ordinal_lt_of_lt h
  unfold daysBetween
  omega

theorem daysBetween_le (h : p ≤ q) : q.daysBetween d ≤ p.daysBetween d := by
  have hordinal := mt lt_iff_ordinal.mpr (not_lt_of_le h)
  unfold daysBetween
  omega

end Date

section Pairing

variable {α : Type u} {β : Type v} {R : α → β → Prop} {l : List α} {m : List β}

theorem exists_mem_right (h : List.Forall₂ R l m) {a : α} (ha : a ∈ l) : ∃ b ∈ m, R a b := by
  induction h with
  | nil => cases ha
  | cons hab _ ih =>
    rcases List.mem_cons.mp ha with rfl | ha
    · exact ⟨_, List.mem_cons_self, hab⟩
    · obtain ⟨b, hb, hr⟩ := ih ha
      exact ⟨b, List.mem_cons_of_mem _ hb, hr⟩

theorem exists_mem_left (h : List.Forall₂ R l m) {b : β} (hb : b ∈ m) : ∃ a ∈ l, R a b :=
  exists_mem_right h.flip hb

end Pairing

namespace Drawdown

variable {K : Type u}

/-- A day of an ascending curve has one value only. -/
theorem value_unique {curve : List (Date × K)} {d : Date} {x y : K}
    (hdates : (curve.map Prod.fst).Pairwise (· < ·)) (hx : (d, x) ∈ curve) (hy : (d, y) ∈ curve) :
    x = y := by
  have hfind := Chronicle.find?_of_mem hdates hx
  rw [Chronicle.find?_of_mem hdates hy] at hfind
  exact (Option.some.inj hfind).symm

/-- In an ascending curve the days up to `d` are those that come no later in it. -/
theorem mem_upTo {seen rest : List (Date × K)} {d : Date} {x : K}
    (h : ((seen ++ (d, x) :: rest).map Prod.fst).Pairwise (· < ·))
    (e : Date × K) : e ∈ seen ++ [(d, x)] ↔ e ∈ seen ++ (d, x) :: rest ∧ e.1 ≤ d := by
  rw [List.map_append, List.map_cons, List.pairwise_append, List.pairwise_cons] at h
  obtain ⟨-, ⟨hafter, -⟩, hbefore⟩ := h
  constructor
  · intro he
    rcases List.mem_append.mp he with he | he
    · exact ⟨List.mem_append_left _ he,
        Date.le_of_lt (hbefore e.1 (List.mem_map_of_mem he) d List.mem_cons_self)⟩
    · obtain rfl : e = (d, x) := by simpa using he
      exact ⟨by simp, Nat.le_refl _⟩
  · rintro ⟨he, hle⟩
    rcases List.mem_append.mp he with he | he
    · exact List.mem_append_left _ he
    rcases List.mem_cons.mp he with rfl | he
    · simp
    · exact absurd (hafter e.1 (List.mem_map_of_mem he)) (Date.not_lt_of_le hle)

theorem longest_eq (w : Drawdown K) : w.longest = (w.days.map UnderWater.age).foldl max 0 := by
  rw [longest, List.foldl_map]

section Comparisons

variable {α : Type u} [OfNat α 0] [OfNat α 1] [LT α] [DecidableLT α] [Sub α] [Div α]
  {β : Type v} [OfNat β 0] [OfNat β 1] [LT β] [DecidableLT β] [Sub β] [Div β]
  {read : α → β} {rest points : List (Date × α)}

/-- The values of some points are read in order: they compare with each other and with zero as what
is read of them does. -/
def ComparesAs (read : α → β) (points : List (Date × α)) : Prop :=
  ∀ e ∈ points, (0 < e.2 ↔ 0 < read e.2) ∧ ∀ f ∈ points, e.2 < f.2 ↔ read e.2 < read f.2

def readAs (read : α → β) (points : List (Date × α)) : List (Date × β) :=
  points.map fun e => (e.1, read e.2)

/-- The ages along a curve depend on comparisons alone. -/
theorem ages_readAs {p : Peak α} {q : Peak β} (hday : p.day = q.day)
    (hvalue : ∀ e ∈ rest, p.value < e.2 ↔ q.value < read e.2) (h : ComparesAs read rest) :
    (q.walk (readAs read rest)).map UnderWater.age = (p.walk rest).map UnderWater.age := by
  induction rest generalizing p q with
  | nil => rfl
  | cons point rest ih =>
    obtain ⟨d, x⟩ := point
    have hlater : ComparesAs read rest := fun e he =>
      ⟨(h e (List.mem_cons_of_mem _ he)).1,
        fun f hf => (h e (List.mem_cons_of_mem _ he)).2 f (List.mem_cons_of_mem _ hf)⟩
    have hfirst := hvalue (d, x) List.mem_cons_self
    simp only [readAs, List.map_cons, Peak.walk, Peak.step] at ih ⊢
    by_cases hrise : p.value < x
    · rw [if_pos hrise, if_pos (hfirst.mp hrise)]
      refine congrArg _ (ih rfl ?_ hlater)
      exact fun e he => (h (d, x) List.mem_cons_self).2 e (List.mem_cons_of_mem _ he)
    · rw [if_neg hrise, if_neg (mt hfirst.mpr hrise)]
      have hage : q.age d = p.age d := by rw [Peak.age, Peak.age, hday]
      rw [hage]
      exact congrArg _ (ih hday (fun e he => hvalue e (List.mem_cons_of_mem _ he)) hlater)

theorem longest_readAs (h : ComparesAs read points) :
    (ofCurve (readAs read points)).longest = (ofCurve points).longest := by
  have hages : ((Peak.start : Peak β).walk (readAs read points)).map UnderWater.age =
      ((Peak.start : Peak α).walk points).map UnderWater.age :=
    ages_readAs rfl (fun e he => (h e he).1) h
  rw [longest_eq, longest_eq, ofCurve, ofCurve, hages]

end Comparisons

theorem isGreatest_longest (w : Drawdown K) :
    IsGreatest (insert 0 {n | ∃ e ∈ w.days, e.age = n}) w.longest := by
  have hmax : (0 :: w.days.map UnderWater.age).max? = some w.longest := by
    rw [List.max?_cons', longest_eq]
  simpa [IsGreatest, upperBounds, eq_comm] using List.max?_eq_some_iff.mp hmax

variable [LinearOrder K] {curve : List (Date × K)} {d p q : Date} {x y m : K} {n : Int}

/-- The highest value of a curve up to a day. -/
def PeakOn (curve : List (Date × K)) (d : Date) (m : K) : Prop :=
  IsGreatest {x | ∃ e, (e, x) ∈ curve ∧ e ≤ d} m

/-- The days up to `d` on which the curve stood at its highest value up to `d`. -/
def daysAtPeak (curve : List (Date × K)) (d : Date) : Set Date :=
  {p | p ≤ d ∧ ∃ m, PeakOn curve d m ∧ (p, m) ∈ curve}

/-- A number of calendar days, both ends counted, from the first day of the highest value so far to
a later day that does not exceed it. -/
def Waits (curve : List (Date × K)) (n : Int) : Prop :=
  ∃ d x p, (d, x) ∈ curve ∧ IsLeast (daysAtPeak curve d) p ∧ p < d ∧ n = p.daysBetween d + 1

/-- A number of calendar days, both ends counted, from the last day of the highest value so far to a
day that lies below it. -/
def Submerged (curve : List (Date × K)) (n : Int) : Prop :=
  ∃ d x m p, (d, x) ∈ curve ∧ PeakOn curve d m ∧ x < m ∧ IsGreatest (daysAtPeak curve d) p ∧
    n = p.daysBetween d + 1

/-- Whenever the curve stands at its highest value so far, it has that value for the first time. -/
def NeverReturns (curve : List (Date × K)) : Prop :=
  ∀ d m, PeakOn curve d m → (d, m) ∈ curve → ∀ e y, (e, y) ∈ curve → e < d → y < m

theorem PeakOn.le (h : PeakOn curve d m) (hx : (p, x) ∈ curve) (hp : p ≤ d) : x ≤ m :=
  h.2 ⟨p, hx, hp⟩

theorem PeakOn.unique (h : PeakOn curve d m) (h' : PeakOn curve d y) : m = y :=
  IsGreatest.unique h h'

/-- A day that has the highest value of a later day has the highest value of its own time. -/
theorem PeakOn.earlier (h : PeakOn curve d m) (hm : (p, m) ∈ curve) (hp : p ≤ d) :
    PeakOn curve p m :=
  ⟨⟨p, hm, Nat.le_refl _⟩, fun _ ⟨_, he, hle⟩ => h.le he (Nat.le_trans hle hp)⟩

theorem Waits.pos (h : Waits curve n) : 0 < n := by
  obtain ⟨d, -, p, -, -, hlt, rfl⟩ := h
  have hdays := Date.daysBetween_pos hlt
  omega

/-- The days of a curve that returns to no height are counted while it is below its height. -/
theorem Waits.submerged (h : Waits curve n) (hnever : NeverReturns curve) : Submerged curve n := by
  obtain ⟨d, x, p, hpoint, hp, hlt, rfl⟩ := h
  obtain ⟨hpd, m, hpeak, hmem⟩ := hp.1
  have hbelow : x < m := by
    refine lt_of_le_of_ne (hpeak.le hpoint (Nat.le_refl _)) ?_
    rintro rfl
    exact lt_irrefl x (hnever d x hpeak hpoint p x hmem hlt)
  refine ⟨d, x, m, p, hpoint, hpeak, hbelow, ⟨hp.1, ?_⟩, rfl⟩
  rintro q ⟨hqd, y, hy, hq⟩
  obtain rfl := hpeak.unique hy
  refine Nat.le_of_not_lt fun hpq => ?_
  exact lt_irrefl m (hnever q m (hpeak.earlier hq hqd) hq p m hmem hpq)

/-- Where no value falls, each stands at the highest value so far. -/
theorem NeverReturns.rises (hnever : NeverReturns curve)
    (hdates : (curve.map Prod.fst).Pairwise (· < ·))
    (h : ∀ a ∈ curve, ∀ b ∈ curve, a.1 < b.1 → a.2 ≤ b.2) :
    ∀ a ∈ curve, ∀ b ∈ curve, a.1 < b.1 → a.2 < b.2 := by
  rintro a ha ⟨d, x⟩ hb hlt
  refine hnever d x ⟨⟨d, hb, Nat.le_refl _⟩, ?_⟩ hb a.1 a.2 ha hlt
  rintro y ⟨e, he, hed⟩
  by_cases heq : e = d
  · subst heq
    exact (value_unique hdates he hb).le
  · exact h (e, y) he (d, x) hb (Date.lt_of_le_of_ne hed heq)

end Drawdown

namespace Peak

open Drawdown

variable {K : Type u} [LinearOrder K] [Field K] {curve seen rest : List (Date × K)} {p : Peak K}
  {d f : Date} {x m : K}

/-- The peak after some days: none before the first, then the highest value and the first day that
had it. -/
inductive Tops : List (Date × K) → Peak K → Prop
  | start : Tops [] start
  | reached {seen : List (Date × K)} {m : K} {f : Date} (mem : (f, m) ∈ seen)
      (highest : ∀ e ∈ seen, e.2 ≤ m) (first : ∀ e ∈ seen, e.1 < f → e.2 < m) :
      Tops seen ⟨m, some f⟩

/-- What one more day does: it becomes the peak if it exceeds it, and it is measured from the peak
it leaves behind. -/
theorem Tops.step (h : Tops seen p) (hlater : ∀ e ∈ seen, e.1 < d) (hpos : 0 < x) :
    ∃ m f, Tops (seen ++ [(d, x)]) ⟨m, some f⟩ ∧ p.step d x =
      (⟨m, some f⟩, ⟨d, x / m - 1, if f < d then f.daysBetween d + 1 else 0⟩) := by
  have hself : x / x - 1 = 0 := by rw [div_self hpos.ne', sub_self]
  cases h with
  | start =>
    refine ⟨x, d, .reached (by simp) (by simp) ?_, ?_⟩
    · simp [Date.lt_irrefl d]
    · simp [Peak.step, Peak.start, hpos, hself, Date.lt_irrefl d]
  | @reached _ m f mem highest first =>
    by_cases hrise : m < x
    · refine ⟨x, d, .reached (by simp) ?_ ?_, ?_⟩
      · exact List.forall_mem_append.mpr
          ⟨fun e he => (highest e he).trans hrise.le, List.forall_mem_singleton.mpr le_rfl⟩
      · exact List.forall_mem_append.mpr ⟨fun e he _ => (highest e he).trans_lt hrise,
          List.forall_mem_singleton.mpr fun hlt => absurd hlt (Date.lt_irrefl d)⟩
      · simp [Peak.step, hrise, hself, Date.lt_irrefl d]
    · have hold : f < d := hlater (f, m) mem
      have hle : x ≤ m := not_lt.mp hrise
      refine ⟨m, f, .reached (List.mem_append_left _ mem) ?_ ?_, ?_⟩
      · exact List.forall_mem_append.mpr ⟨highest, List.forall_mem_singleton.mpr hle⟩
      · exact List.forall_mem_append.mpr ⟨first, List.forall_mem_singleton.mpr fun hlt =>
          absurd (Date.lt_trans hlt hold) (Date.lt_irrefl d)⟩
      · simp [Peak.step, hrise, loss, hpos.trans_le hle, age, hold]

/-- The peak over the days up to `d` is the highest value of the curve up to `d`, on its first day. -/
theorem Tops.peakOn (h : Tops seen ⟨m, some f⟩)
    (hseen : ∀ e, e ∈ seen ↔ e ∈ curve ∧ e.1 ≤ d) :
    PeakOn curve d m ∧ IsLeast (daysAtPeak curve d) f := by
  cases h with
  | reached mem highest first =>
    obtain ⟨hmem, hle⟩ := (hseen _).mp mem
    have hpeak : PeakOn curve d m :=
      ⟨⟨f, hmem, hle⟩, fun y ⟨e, he, hed⟩ => highest (e, y) ((hseen _).mpr ⟨he, hed⟩)⟩
    refine ⟨hpeak, ⟨hle, m, hpeak, hmem⟩, ?_⟩
    rintro q ⟨hqd, y, hy, hq⟩
    obtain rfl := hpeak.unique hy
    refine Nat.le_of_not_lt fun hqf => ?_
    exact lt_irrefl m (first (q, m) ((hseen _).mpr ⟨hq, hqd⟩) hqf)

end Peak

namespace Drawdown

variable {K : Type u} [LinearOrder K] [Field K] {curve seen rest : List (Date × K)} {n : Int}

/-- What a drawdown says of a day: how far it lies below the highest value so far, and how long ago
the curve first had that value. -/
structure Tells (curve : List (Date × K)) (point : Date × K) (e : UnderWater K) : Prop where
  day : e.day = point.1
  loss : ∃ m, PeakOn curve point.1 m ∧ e.loss = point.2 / m - 1
  age : ∃ p, IsLeast (daysAtPeak curve point.1) p ∧
    e.age = if p < point.1 then p.daysBetween point.1 + 1 else 0

theorem forall₂_tells {p : Peak K} (hp : p.Tops seen)
    (hdates : ((seen ++ rest).map Prod.fst).Pairwise (· < ·)) (hpos : ∀ e ∈ rest, 0 < e.2) :
    List.Forall₂ (Tells (seen ++ rest)) rest (p.walk rest) := by
  induction rest generalizing seen p with
  | nil => exact .nil
  | cons point rest ih =>
    obtain ⟨d, x⟩ := point
    have hlater : ∀ e ∈ seen, e.1 < d := by
      rw [List.map_append, List.pairwise_append] at hdates
      exact fun e he => hdates.2.2 e.1 (List.mem_map_of_mem he) d List.mem_cons_self
    obtain ⟨m, f, htops, hstep⟩ := hp.step hlater (hpos (d, x) List.mem_cons_self)
    obtain ⟨hpeak, hfirst⟩ := htops.peakOn (mem_upTo hdates)
    -- the point goes over to what has been seen; the curve stays the same
    rw [Peak.walk, hstep]
    refine .cons ⟨rfl, ⟨m, hpeak, rfl⟩, ⟨f, hfirst, rfl⟩⟩ ?_
    rw [List.append_cons] at hdates ⊢
    exact ih htops hdates fun e he => hpos e (List.mem_cons_of_mem _ he)

theorem tells_ofCurve (hdates : (curve.map Prod.fst).Pairwise (· < ·))
    (hpos : ∀ e ∈ curve, 0 < e.2) :
    List.Forall₂ (Tells curve) curve (ofCurve curve).days :=
  forall₂_tells .start hdates hpos

theorem isLeast_deepest (w : Drawdown K) :
    IsLeast (insert 0 {l | ∃ e ∈ w.days, e.loss = l}) w.deepest := by
  have hfold : w.deepest = (w.days.map UnderWater.loss).foldl min 0 := by
    rw [deepest, List.foldl_map]
    congr 1
    funext worst e
    rw [min_comm, min_def_lt]
  have hmin : (0 :: w.days.map UnderWater.loss).min? = some w.deepest := by
    rw [List.min?_cons', hfold]
  simpa [IsLeast, lowerBounds, eq_comm] using List.min?_eq_some_iff.mp hmin

section Measures

variable (hdates : (curve.map Prod.fst).Pairwise (· < ·)) (hpos : ∀ e ∈ curve, 0 < e.2)
include hdates hpos

/-- The age of a day is one of the waits of the curve, or nothing. -/
theorem age_iff (hn : n ≠ 0) : (∃ e ∈ (ofCurve curve).days, e.age = n) ↔ Waits curve n := by
  have htells := tells_ofCurve hdates hpos
  constructor
  · rintro ⟨e, he, rfl⟩
    obtain ⟨⟨d, x⟩, hpoint, htell⟩ := exists_mem_left htells he
    obtain ⟨p, hp, hage⟩ := htell.age
    split at hage
    · next hlt => exact ⟨d, x, p, hpoint, hp, hlt, hage⟩
    · exact absurd hage hn
  · rintro ⟨d, x, p, hpoint, hp, hlt, rfl⟩
    obtain ⟨e, he, htell⟩ := exists_mem_right htells hpoint
    obtain ⟨q, hq, hage⟩ := htell.age
    obtain rfl : q = p := Date.eq_of_place_eq (Nat.le_antisymm (hq.2 hp.1) (hp.2 hq.1))
    exact ⟨e, he, by rw [hage, if_pos hlt]⟩

theorem isGreatest_waits : IsGreatest (insert 0 {n | Waits curve n}) (ofCurve curve).longest := by
  have hsame : insert 0 {n | ∃ e ∈ (ofCurve curve).days, e.age = n} =
      insert 0 {n | Waits curve n} := by
    ext n
    by_cases hn : n = 0
    · simp [hn]
    · simpa [hn] using age_iff hdates hpos hn
  exact hsame ▸ isGreatest_longest _

/-- The highest value up to a day of the curve has a first day. -/
theorem exists_first {d : Date} {x : K} (hpoint : (d, x) ∈ curve) :
    ∃ p, IsLeast (daysAtPeak curve d) p := by
  obtain ⟨e, -, htell⟩ := exists_mem_right (tells_ofCurve hdates hpos) hpoint
  obtain ⟨p, hp, -⟩ := htell.age
  exact ⟨p, hp⟩

/-- No wait at all: each value exceeds those before it. -/
theorem longest_eq_zero_iff : (ofCurve curve).longest = 0 ↔
    ∀ a ∈ curve, ∀ b ∈ curve, a.1 < b.1 → a.2 < b.2 := by
  have hlongest := isGreatest_waits hdates hpos
  constructor
  · rintro hzero ⟨c, y⟩ ha ⟨d, x⟩ hb (hlt : c < d)
    obtain ⟨p, hp⟩ := exists_first hdates hpos hb
    obtain ⟨hpd, m, hpeak, hmem⟩ := hp.1
    have hnone : ¬ p < d := by
      intro hlt
      have hwait : Waits curve (p.daysBetween d + 1) := ⟨d, x, p, hb, hp, hlt, rfl⟩
      have hle := hlongest.2 (Set.mem_insert_of_mem _ hwait)
      have hpositive := hwait.pos
      omega
    obtain rfl : p = d := by
      by_contra hne
      exact hnone (Date.lt_of_le_of_ne hpd hne)
    obtain rfl : x = m := value_unique hdates hb hmem
    refine lt_of_le_of_ne (hpeak.le ha (Date.le_of_lt hlt)) ?_
    rintro rfl
    exact Date.not_lt_of_le (hp.2 ⟨Date.le_of_lt hlt, y, hpeak, ha⟩) hlt
  · intro hrises
    rcases hlongest.1 with hzero | ⟨d, x, p, hpoint, hp, hlt, -⟩
    · exact hzero
    · obtain ⟨hpd, m, hpeak, hmem⟩ := hp.1
      have hbelow : m < x := hrises (p, m) hmem (d, x) hpoint hlt
      exact absurd (hpeak.le hpoint (Nat.le_refl _)) (not_le.mpr hbelow)

theorem Submerged.le_longest (h : Submerged curve n) : n ≤ (ofCurve curve).longest := by
  obtain ⟨d, x, m, q, hpoint, hpeak, hbelow, hq, rfl⟩ := h
  obtain ⟨p, hp⟩ := exists_first hdates hpos hpoint
  have hpq : p ≤ q := hp.2 hq.1
  have hqd : q < d := by
    refine Date.lt_of_le_of_ne hq.1.1 ?_
    rintro rfl
    obtain ⟨-, y, hy, hmem⟩ := hq.1
    obtain rfl := hpeak.unique hy
    exact hbelow.ne (value_unique hdates hpoint hmem)
  have hwait : Waits curve (p.daysBetween d + 1) :=
    ⟨d, x, p, hpoint, hp, Nat.lt_of_le_of_lt hpq hqd, rfl⟩
  have hle : p.daysBetween d + 1 ≤ (ofCurve curve).longest :=
    (isGreatest_waits hdates hpos).2 (Set.mem_insert_of_mem _ hwait)
  have hdays := Date.daysBetween_le (d := d) hpq
  omega

end Measures

section Losses

variable [IsStrictOrderedRing K] (hdates : (curve.map Prod.fst).Pairwise (· < ·))
  (hpos : ∀ e ∈ curve, 0 < e.2)
include hpos

/-- A loss is not positive, and nothing is lost exactly where the highest value is met again. -/
theorem loss_bounds {d : Date} {x m : K} (hpoint : (d, x) ∈ curve) (hpeak : PeakOn curve d m) :
    x / m - 1 ≤ 0 ∧ (0 ≤ x / m - 1 ↔ m ≤ x) := by
  have hle : x ≤ m := hpeak.le hpoint (Nat.le_refl _)
  have hm : 0 < m := (hpos (d, x) hpoint).trans_le hle
  rw [sub_nonpos, div_le_one hm, sub_nonneg, one_le_div hm]
  exact ⟨hle, Iff.rfl⟩

include hdates

theorem isLeast_losses (hne : curve ≠ []) :
    IsLeast {l | ∃ d, (d, l) ∈ (ofCurve curve).byDate} (ofCurve curve).deepest := by
  have hsame : {l | ∃ d, (d, l) ∈ (ofCurve curve).byDate} =
      {l | ∃ e ∈ (ofCurve curve).days, e.loss = l} := by
    ext l
    simp [byDate]
  rw [hsame]
  obtain ⟨hmem, hleast⟩ := isLeast_deepest (ofCurve curve)
  refine ⟨?_, fun l hl => hleast (Set.mem_insert_of_mem _ hl)⟩
  rcases hmem with hzero | hmem
  · -- a loss of any day is as deep as none, so it is none
    obtain ⟨⟨d, x⟩, hpoint⟩ := List.exists_mem_of_ne_nil curve hne
    obtain ⟨e, he, htell⟩ := exists_mem_right (tells_ofCurve hdates hpos) hpoint
    obtain ⟨m, hpeak, hloss⟩ := htell.loss
    refine ⟨e, he, le_antisymm ?_ (hleast (Set.mem_insert_of_mem _ ⟨e, he, rfl⟩))⟩
    rw [hzero, hloss]
    exact (loss_bounds hpos hpoint hpeak).1
  · exact hmem

/-- No loss at all: no value lies below one before it. -/
theorem deepest_eq_zero_iff : (ofCurve curve).deepest = 0 ↔
    ∀ a ∈ curve, ∀ b ∈ curve, a.1 < b.1 → a.2 ≤ b.2 := by
  obtain ⟨hmem, hleast⟩ := isLeast_deepest (ofCurve curve)
  have htells := tells_ofCurve hdates hpos
  constructor
  · rintro hzero ⟨c, y⟩ ha ⟨d, x⟩ hb (hlt : c < d)
    obtain ⟨e, he, htell⟩ := exists_mem_right htells hb
    obtain ⟨m, hpeak, hloss⟩ := htell.loss
    have hnone : 0 ≤ x / m - 1 := hloss ▸ hzero ▸ hleast (Set.mem_insert_of_mem _ ⟨e, he, rfl⟩)
    exact (hpeak.le ha (Date.le_of_lt hlt)).trans ((loss_bounds hpos hb hpeak).2.mp hnone)
  · intro hrises
    rcases hmem with hzero | ⟨e, he, hloss'⟩
    · exact hzero
    obtain ⟨⟨d, x⟩, hpoint, htell⟩ := exists_mem_left htells he
    obtain ⟨m, hpeak, hloss⟩ := htell.loss
    obtain ⟨p, hmem, hpd⟩ := hpeak.1
    have hback : m ≤ x := by
      by_cases hlt : p < d
      · exact hrises (p, m) hmem (d, x) hpoint hlt
      · obtain rfl : p = d := by
          by_contra hne
          exact hlt (Date.lt_of_le_of_ne hpd hne)
        exact (value_unique hdates hmem hpoint).le
    obtain ⟨hle, hiff⟩ := loss_bounds hpos hpoint hpeak
    rw [← hloss', hloss]
    exact le_antisymm hle (hiff.mpr hback)

end Losses

/-- The drawdowns of a curve, in its own terms. Every day is told its value over the highest one so
far, and the deepest loss is the least of these. The longest duration is counted from the first day
of the highest value so far to a later day that does not exceed it, so it is never less than the
longest time from the last such day to a day below it. The two agree, and a duration of nothing goes
with a loss of nothing, where the curve never returns to its height; in general the one is nothing
where all values rise, and the other where none falls. -/
theorem measured_from_first_peak [IsStrictOrderedRing K] (hcount : 2 ≤ curve.length)
    (hdates : (curve.map Prod.fst).Pairwise (· < ·)) (hpos : ∀ e ∈ curve, 0 < e.2) :
    (∀ points (read : Float → K), curve = readAs read points → ComparesAs read points →
      ∃ w, Performance.drawdowns points = .ok w ∧ w.longest = (ofCurve curve).longest) ∧
    List.Forall₂ (fun point entry => entry.1 = point.1 ∧
      ∃ m, PeakOn curve point.1 m ∧ entry.2 = point.2 / m - 1) curve (ofCurve curve).byDate ∧
    IsLeast {l | ∃ d, (d, l) ∈ (ofCurve curve).byDate} (ofCurve curve).deepest ∧
    IsGreatest (insert 0 {n | Waits curve n}) (ofCurve curve).longest ∧
    (∀ n, Submerged curve n → n ≤ (ofCurve curve).longest) ∧
    (NeverReturns curve → IsGreatest (insert 0 {n | Submerged curve n}) (ofCurve curve).longest ∧
      ((ofCurve curve).longest = 0 ↔ (ofCurve curve).deepest = 0)) ∧
    ((ofCurve curve).longest = 0 ↔ ∀ a ∈ curve, ∀ b ∈ curve, a.1 < b.1 → a.2 < b.2) ∧
    ((ofCurve curve).deepest = 0 ↔ ∀ a ∈ curve, ∀ b ∈ curve, a.1 < b.1 → a.2 ≤ b.2) := by
  have hne : curve ≠ [] := List.ne_nil_of_length_pos (by omega)
  have hlongest := isGreatest_waits hdates hpos
  have hlow : ∀ n, Submerged curve n → n ≤ (ofCurve curve).longest :=
    fun n hn => hn.le_longest hdates hpos
  refine ⟨?_, ?_, isLeast_losses hdates hpos hne, hlongest, hlow, fun hnever => ⟨⟨?_, ?_⟩, ?_⟩,
    longest_eq_zero_iff hdates hpos, deepest_eq_zero_iff hdates hpos⟩
  · rintro points read rfl hread
    have hpoints : 2 ≤ points.length := by simpa [readAs] using hcount
    exact ⟨_, Performance.drawdowns_eq_ok hpoints, (longest_readAs hread).symm⟩
  · rw [byDate, List.forall₂_map_right_iff]
    exact (tells_ofCurve hdates hpos).imp fun point e htell => ⟨htell.day, htell.loss⟩
  · rcases hlongest.1 with hzero | hwait
    · exact hzero ▸ Set.mem_insert _ _
    · exact Set.mem_insert_of_mem _ (Waits.submerged hwait hnever)
  · rintro n (rfl | hn)
    · exact hlongest.2 (Set.mem_insert _ _)
    · exact hlow n hn
  · rw [longest_eq_zero_iff hdates hpos, deepest_eq_zero_iff hdates hpos]
    constructor
    · intro hrises a ha b hb hlt
      exact (hrises a ha b hb hlt).le
    · exact hnever.rises hdates

/-- A plateau, then a fall: the duration is counted from the first day of the plateau. -/
theorem measured_from_first_peak_plateau :
    let days : List Date := [⟨2024, 1, 2, by decide, by decide, by decide⟩,
      ⟨2024, 1, 3, by decide, by decide, by decide⟩, ⟨2024, 1, 4, by decide, by decide, by decide⟩]
    let plateau : List (Date × ℚ) := days.zip [100, 100, 90]
    (∃ w, Performance.drawdowns (days.zip [100, 100, 90]) = .ok w ∧ w.longest = 3) ∧
      IsGreatest (insert 0 {n | Waits plateau n}) 3 ∧
      IsLeast {l | ∃ d, (d, l) ∈ (ofCurve plateau).byDate} (-1 / 10) := by
  intro days plateau
  have hcount : 2 ≤ plateau.length := by decide
  obtain ⟨hrun, -, hdeepest, hlongest, -⟩ :=
    measured_from_first_peak hcount (by decide +kernel) (by decide +kernel)
  have hthree : (ofCurve plateau).longest = 3 := by decide +kernel
  have htenth : (ofCurve plateau).deepest = -1 / 10 := by decide +kernel
  have hfloats := hrun (days.zip [100, 100, 90]) (fun x => x.toUInt64.toNat)
    (by decide +kernel) (by unfold ComparesAs; decide +kernel)
  exact ⟨hthree ▸ hfloats, hthree ▸ hlongest, htenth ▸ hdeepest⟩

/-- A flat curve is never below its highest value and loses nothing, yet it has a duration of two
days, as floats and as exact numbers. -/
theorem flat_curve_ages :
    let first : Date := ⟨2024, 1, 2, by decide, by decide, by decide⟩
    let second : Date := ⟨2024, 1, 3, by decide, by decide, by decide⟩
    let flat : List (Date × ℚ) := [(first, 100), (second, 100)]
    (2 ≤ flat.length ∧ (flat.map Prod.fst).Pairwise (· < ·) ∧ ∀ e ∈ flat, 0 < e.2) ∧
      (ofCurve flat).deepest = 0 ∧ (ofCurve flat).longest = 2 ∧
      IsGreatest (insert 0 {n | Submerged flat n}) 0 ∧
      (Performance.drawdowns [(first, 100), (second, 100)]).toOption.map
        (fun w => (w.deepest == 0, w.longest)) = some (true, 2) := by
  intro first second flat
  refine ⟨by decide +kernel, by decide +kernel, by decide +kernel, ⟨Set.mem_insert _ _, ?_⟩,
    by decide +kernel⟩
  rintro n (rfl | ⟨d, x, m, p, hpoint, hpeak, hbelow, -⟩)
  · exact le_rfl
  · have hall : ∀ e ∈ flat, e.2 = 100 := by decide +kernel
    obtain ⟨e, he, -⟩ := hpeak.1
    have hx : x = 100 := hall (d, x) hpoint
    have hm : m = 100 := hall (e, m) he
    rw [hx, hm] at hbelow
    exact absurd hbelow (lt_irrefl _)

end Drawdown
end Backtesting
