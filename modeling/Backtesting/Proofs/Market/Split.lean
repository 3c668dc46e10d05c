import Backtesting.Market.History
import Backtesting.Proofs.Chronicle
import Backtesting.Proofs.Decimal.Order
import Backtesting.Proofs.OrderedMap

/-!
What a split does to the bars. Prices that are not negative stay so when they are divided by a
coefficient above zero, so an adjusted bar is accepted as the bar was; nothing but an overflow can
keep it from being adjusted. In a history that is exactly what happens to the bars of one asset.
-/
namespace Backtesting

namespace Decimal

variable {x y c : Decimal}

/-- A number or an infinity that is not below zero; a zero may carry a sign. -/
def IsNonneg : Decimal → Prop
  | finite n c _ => n = false ∨ c = 0
  | infinity n => n = false
  | nan .. => False

theorem isLess_zero : x.isLess 0 = .ok false ↔ x.IsNonneg := by
  show x.isLess (finite false 0 0) = _ ↔ _
  cases x with
  | nan n signaling p => simp [isLess, ordered, ordering?, IsNonneg]
  | infinity n => cases n <;> simp [isLess, ordered, ordering?, IsNonneg]
  | finite n k e =>
    by_cases hk : k = 0
    · simp [isLess, ordered, ordering?, IsNonneg, hk]
    · cases n <;> simp [isLess, ordered, ordering?, IsNonneg, hk]

theorem IsNonneg.value_nonneg (h : x.IsNonneg) : 0 ≤ x.value := by
  cases x with
  | nan n signaling p => exact absurd h id
  | infinity n => exact le_rfl
  | finite n k e =>
    rw [value]
    rcases h with rfl | rfl
    · show 0 ≤ ((k : Int) : ℚ) * 10 ^ e
      positivity
    · simp [signed_zero]

theorem IsNonneg.mul (hx : x.IsNonneg) (hfinite : x.IsFinite) (hc : 0 < c.value)
    (h : x.mul c = .ok y) : y.IsNonneg := by
  obtain ⟨k', e', rfl, -⟩ := eq_finite_of_pos hc
  cases x with
  | nan n signaling p => exact absurd hx id
  | infinity n => exact absurd hfinite id
  | finite n k e =>
    have hround : round (n != false) (k * k') (e + e') false = .ok y := h
    obtain ⟨m, i, rfl, hzero⟩ := finite_of_round hround
    rcases hx with rfl | rfl
    · exact Or.inl rfl
    · exact Or.inr (hzero (Nat.zero_mul k'))

theorem IsNonneg.div (hx : x.IsNonneg) (hc : 0 < c.value) (h : x.div c = .ok y) :
    y.IsNonneg := by
  obtain ⟨k', e', rfl, hk'⟩ := eq_finite_of_pos hc
  cases x with
  | nan n signaling p => exact absurd hx id
  | infinity n =>
    obtain rfl : n = false := hx
    obtain rfl := Except.ok.inj h
    rfl
  | finite n k e =>
    rw [div_finite hk'] at h
    split at h
    · obtain ⟨m, i, rfl, hzero⟩ := finite_of_round h
      exact Or.inr (hzero rfl)
    · next hk =>
      obtain rfl : n = false := hx.resolve_right hk
      unfold divFinite at h
      dsimp only at h
      split at h
      · obtain ⟨m, i, rfl, -⟩ := finite_of_round h
        exact Or.inl rfl
      · obtain ⟨m, i, rfl, -⟩ := finite_of_round h
        exact Or.inl rfl

/-- Dividing what is not negative by a number above zero fails in no other way. -/
theorem IsNonneg.overflow_of_div {f : Fault} (hx : x.IsNonneg) (hc : 0 < c.value)
    (h : x.div c = .error f) : f = .overflow := by
  cases x with
  | nan n signaling p => exact absurd hx id
  | infinity n =>
    obtain ⟨k', e', rfl, -⟩ := eq_finite_of_pos hc
    simp [Decimal.div, ofNaN?] at h
  | finite n k e => exact Decimal.overflow_of_div (a := finite n k e) trivial hc.ne' h

theorem IsNonneg.nearestInt {i : Int} (hx : x.IsNonneg) (hfinite : x.IsFinite)
    (h : x.nearestInt = .ok i) : 0 ≤ i := by
  obtain ⟨m, hm, herror⟩ := nearestInt_eq hfinite
  obtain rfl := Except.ok.inj (h.symm.trans hm)
  have hvalue := hx.value_nonneg
  rw [abs_le] at herror
  have hless : (-1 : ℚ) < i := by linarith
  have hless' : -1 < i := by exact_mod_cast hless
  omega

theorem isNonneg_ofInt {i : Int} (h : 0 ≤ i) : (ofInt i).IsNonneg := by
  refine Or.inl ?_
  simpa using h

/-- No share stays no share. -/
theorem exists_zero_mul (hc : c.IsFinite) :
    ∃ x, (ofInt 0).mul c = .ok x ∧ x.nearestInt = .ok 0 := by
  cases c with
  | infinity n => exact absurd hc id
  | nan n signaling p => exact absurd hc id
  | finite n k e =>
    have hproduct : (ofInt 0).mul (finite n k e) = round (false != n) (0 * k) (0 + e) false := rfl
    rw [hproduct, Nat.zero_mul]
    exact ⟨_, rfl, nearestInt_of_value trivial (by simp [value, signed_zero])⟩

theorem isFinite_of_nearestInt {i : Int} (h : x.nearestInt = .ok i) : x.IsFinite := by
  cases x with
  | infinity n => simp [Decimal.nearestInt] at h
  | nan n signaling p => cases signaling <;> simp [Decimal.nearestInt] at h
  | finite n k e => trivial

/-- Where a whole number times `c` is rounded to a whole number, `c` is finite. -/
theorem isFinite_of_scale {i j : Int} (h : ((ofInt i).mul c >>= Decimal.nearestInt) = .ok j) :
    c.IsFinite := by
  obtain ⟨x, hx, hj⟩ := Except.bind_eq_ok.mp h
  have hfinite := isFinite_of_nearestInt hj
  cases c with
  | finite n k e => trivial
  | nan n signaling p =>
    cases signaling with
    | true => exact nomatch hx
    | false =>
      obtain rfl := Except.ok.inj hx
      exact absurd hfinite id
  | infinity n =>
    have hproduct : (if i.natAbs = 0 then .error .invalidOperation
        else .ok (infinity (decide (i < 0) != n))) = (Except.ok x : Except Fault Decimal) := hx
    split at hproduct
    · exact nomatch hproduct
    · obtain rfl := Except.ok.inj hproduct
      exact absurd hfinite id

/-- A whole number times a number above zero stays on its side of zero. -/
theorem scale_nonneg {i j : Int} (hc : c.isAtMost 0 = .ok false)
    (h : ((ofInt i).mul c >>= Decimal.nearestInt) = .ok j) : (i = 0 → j = 0) ∧ (0 ≤ i → 0 ≤ j) := by
  have hfinite := isFinite_of_scale h
  obtain ⟨x, hx, hj⟩ := Except.bind_eq_ok.mp h
  constructor
  · rintro rfl
    obtain ⟨y, hy, hzero⟩ := exists_zero_mul hfinite
    obtain rfl := Except.ok.inj (hx.symm.trans hy)
    exact Except.ok.inj (hj.symm.trans hzero)
  · intro hi
    have hproduct := (isNonneg_ofInt hi).mul trivial (pos_of_isAtMost_zero hc hfinite) hx
    exact hproduct.nearestInt (isFinite_of_nearestInt hj) hj

end Decimal

/-- The only error that a split can end with. -/
def Error.IsOverflow (e : Error) : Prop := e = .decimal .overflow

open Backtesting.Except (FailsOnly Gives)

variable {c : Decimal}

/-- A whole number is scaled and rounded without any other error than overflow. -/
theorem Decimal.failsOnly_scale (i : Int) (hc : c.IsFinite) :
    FailsOnly Error.IsOverflow (lift ((ofInt i).mul c >>= nearestInt)) := by
  refine failsOnly_lift fun f hf => congrArg Error.decimal ?_
  have hi : (ofInt i).IsFinite := trivial
  cases hx : (ofInt i).mul c with
  | error f' =>
    rw [hx] at hf
    obtain rfl : f' = f := Except.error.inj hf
    exact overflow_of_mul hi hc hx
  | ok x =>
    rw [hx] at hf
    obtain ⟨m, hm, -⟩ := nearestInt_eq (near_mul hi hc hx).1
    have hfault : x.nearestInt = .error f := hf
    simp [hm] at hfault

namespace Bar

theorem requireNonnegative_eq_ok {field : String} {x : Decimal} :
    Quote.requireNonnegative field x = .ok () ↔ x.IsNonneg := by
  unfold Quote.requireNonnegative
  rw [← Decimal.isLess_zero]
  cases x.isLess 0 with
  | error f => simp [Decimal.lift, Except.mapError, bind, Except.bind]
  | ok negative => cases negative <;> simp [Decimal.lift, Except.mapError, bind, Except.bind]

/-- What is asked of a bar that is accepted. -/
theorem check_eq_ok {q : Quote} : q.check = .ok () ↔
    q.opening.IsNonneg ∧ q.high.IsNonneg ∧ q.low.IsNonneg ∧ q.close.IsNonneg ∧
      q.adjustedClose.IsNonneg ∧ q.dividend.IsNonneg ∧ 0 ≤ q.volume ∧
      Decimal.lift (q.split.isAtMost 0) = .ok false := by
  have hsplit : ∀ r : Except Error Bool,
      (r >>= fun low => if low = true then throw (Error.splitNotPositive q.split) else pure ()) =
        Except.ok () ↔ r = .ok false := by
    rintro (e | low)
    · simp [bind, Except.bind]
    · cases low <;> simp [bind, Except.bind, throw, throwThe, MonadExceptOf.throw, pure, Except.pure]
  unfold Quote.check
  simp only [Except.bind_unit_eq_ok, requireNonnegative_eq_ok]
  by_cases hvolume : q.volume < 0
  · simp only [if_pos hvolume, hvolume.not_ge, false_and, and_false, iff_false]
    rintro ⟨-, -, -, -, -, -, h⟩
    exact Except.throw_ne_ok (Except.bind_unit_eq_ok.mp h).1
  · simp only [if_neg hvolume, Int.not_lt.mp hvolume, true_and, hsplit]

theorem eq_of_ofQuote {q : Quote} {b : Bar} (h : Bar.ofQuote q = .ok b) : b.toQuote = q := by
  unfold Bar.ofQuote at h
  split at h
  · rw [← Except.ok.inj h]
  · simp at h

theorem exists_ofQuote {q : Quote} (h : q.check = .ok ()) : ∃ b, Bar.ofQuote q = .ok b := by
  unfold Bar.ofQuote
  split
  · exact ⟨_, rfl⟩
  · next e he => simp [he] at h

/-- What stays of a bar that is adjusted, and its close. -/
theorem adjustedForSplit_eq_ok {b b' : Bar} (h : b.adjustedForSplit c = .ok b') :
    b.close.div c = .ok b'.close ∧ b'.dividend = b.dividend ∧ b'.split = b.split := by
  obtain ⟨opening, -, h⟩ := Except.bind_eq_ok.mp h
  obtain ⟨high, -, h⟩ := Except.bind_eq_ok.mp h
  obtain ⟨low, -, h⟩ := Except.bind_eq_ok.mp h
  obtain ⟨close, hclose, h⟩ := Except.bind_eq_ok.mp h
  obtain ⟨adjusted, -, h⟩ := Except.bind_eq_ok.mp h
  obtain ⟨volume, -, h⟩ := Except.bind_eq_ok.mp h
  rw [eq_of_ofQuote h]
  exact ⟨Decimal.lift_eq_ok.mp hclose, rfl, rfl⟩

/-- A bar fails to be adjusted by overflow only. -/
theorem failsOnly_adjustedForSplit (b : Bar) (hc : 0 < c.value) :
    FailsOnly Error.IsOverflow (b.adjustedForSplit c) := by
  obtain ⟨hopening, hhigh, hlow, hclose, hadjusted, hdividend, hvolume, hsplit⟩ :=
    check_eq_ok.mp b.accepted
  have hprice : ∀ {x : Decimal}, x.IsNonneg → FailsOnly Error.IsOverflow (Decimal.lift (x.div c)) :=
    fun hx => Decimal.failsOnly_lift fun f hf => congrArg Error.decimal (hx.overflow_of_div hc hf)
  refine FailsOnly.bind (hprice hopening) fun opening hopening' => ?_
  refine FailsOnly.bind (hprice hhigh) fun high hhigh' => ?_
  refine FailsOnly.bind (hprice hlow) fun low hlow' => ?_
  refine FailsOnly.bind (hprice hclose) fun close hclose' => ?_
  refine FailsOnly.bind (hprice hadjusted) fun adjusted hadjusted' => ?_
  refine FailsOnly.bind (Decimal.failsOnly_scale _ (Decimal.isFinite_of_pos hc)) fun volume hscaled => ?_
  obtain ⟨x, hx, hnearest⟩ := Except.bind_eq_ok.mp (Decimal.lift_eq_ok.mp hscaled)
  have hfinite : (Decimal.ofInt b.volume).IsFinite := trivial
  have hvolume' : 0 ≤ volume := ((Decimal.isNonneg_ofInt hvolume).mul hfinite hc hx).nearestInt
    (Decimal.near_mul hfinite (Decimal.isFinite_of_pos hc) hx).1 hnearest
  have hdivided : ∀ {x y : Decimal}, x.IsNonneg → Decimal.lift (x.div c) = .ok y → y.IsNonneg :=
    fun hx hy => hx.div hc (Decimal.lift_eq_ok.mp hy)
  obtain ⟨b', hb'⟩ := exists_ofQuote
    (q := { b.toQuote with opening, high, low, close, adjustedClose := adjusted, volume })
    (check_eq_ok.mpr ⟨hdivided hopening hopening', hdivided hhigh hhigh', hdivided hlow hlow',
      hdivided hclose hclose', hdivided hadjusted hadjusted', hdividend, hvolume', hsplit⟩)
  rw [hb']
  exact FailsOnly.ok b'

theorem isNonneg_close (b : Bar) : b.close.IsNonneg := (check_eq_ok.mp b.accepted).2.2.2.1

end Bar

namespace Chronicle

variable {ν ε : Type} {f : ν → Except ε (Option ν)}

/-- Whether a value does not stay as it is. -/
def changes : Except ε (Option ν) → Bool
  | .ok none => false
  | _ => true

/-- A revision that succeeds keeps or changes every value, and counts the changes. -/
theorem reviseList_eq_ok {l : List (Date × ν)} {n : Nat} (h : (reviseList f l).2 = .ok n) :
    List.Forall₂ (fun e e' => e'.1 = e.1 ∧
      (f e.2 = .ok none ∧ e'.2 = e.2 ∨ f e.2 = .ok (some e'.2))) l (reviseList f l).1 ∧
    n = l.countP fun e => changes (f e.2) := by
  induction l generalizing n with
  | nil => exact ⟨.nil, (Except.ok.inj h).symm⟩
  | cons e l ih =>
    obtain ⟨d, v⟩ := e
    unfold reviseList at h ⊢
    cases hv : f v with
    | error e => simp [hv] at h
    | ok w =>
      cases w with
      | none =>
        simp only [hv] at h ⊢
        obtain ⟨hall, hn⟩ := ih h
        exact ⟨.cons ⟨rfl, Or.inl ⟨hv, rfl⟩⟩ hall, by simp [hn, hv, changes]⟩
      | some w =>
        simp only [hv] at h ⊢
        cases hrest : (reviseList f l).2 with
        | error e => simp [hrest, Except.map] at h
        | ok m =>
          rw [hrest] at h
          obtain ⟨hall, hm⟩ := ih hrest
          refine ⟨.cons ⟨rfl, Or.inr hv⟩ hall, ?_⟩
          obtain rfl := Except.ok.inj h
          simp [hm, hv, changes]

/-- Where values of `P` are changed to values of `P`, a revision keeps all values there, even if it
fails, and it fails only as the change of a value does. -/
theorem All.revise {P : ν → Prop} {E : ε → Prop} {c : Chronicle ν} (h : c.All P)
    (hf : ∀ v, P v → Gives E (fun o => ∀ w, o = some w → P w) (f v)) :
    (c.revise f).1.All P ∧ FailsOnly E (c.revise f).2 := by
  show (∀ e ∈ (reviseList f c.days).1, P e.2) ∧ FailsOnly E (reviseList f c.days).2
  unfold All at h
  generalize c.days = l at h ⊢
  induction l with
  | nil => exact ⟨h, FailsOnly.ok 0⟩
  | cons e l ih =>
    obtain ⟨d, v⟩ := e
    obtain ⟨hv, hl⟩ := List.forall_mem_cons.mp h
    obtain ⟨hall, hfails⟩ := ih hl
    unfold reviseList
    split
    · next e he => exact ⟨h, FailsOnly.error ((hf v hv).fails e he)⟩
    · exact ⟨List.forall_mem_cons.mpr ⟨hv, hall⟩, hfails⟩
    · next w hw =>
      have hw : P w := (hf v hv).value _ hw w rfl
      exact ⟨List.forall_mem_cons.mpr ⟨hw, hall⟩, FailsOnly.map_iff.mpr hfails⟩

/-- A value is kept or changed by a revision, whether it succeeds or not. -/
theorem exists_get?_revise {c : Chronicle ν} {d : Date} {v : ν} (h : c.get? d = some v) :
    ∃ w, (c.revise f).1.get? d = some w ∧ (w = v ∨ f v = .ok (some w)) := by
  unfold get? revise at *
  dsimp only
  generalize c.days = l at h ⊢
  induction l with
  | nil => simp [find?] at h
  | cons e l ih =>
    obtain ⟨d', u⟩ := e
    unfold reviseList
    by_cases hd : d' = d
    · obtain rfl : u = v := by simpa [find?, hd] using h
      split
      · exact ⟨u, by simp [find?, hd], Or.inl rfl⟩
      · exact ⟨u, by simp [find?, hd], Or.inl rfl⟩
      · next w hw => exact ⟨w, by simp [find?, hd], Or.inr hw⟩
    · have hrest : find? d l = some v := by simpa [find?, hd] using h
      split
      · exact ⟨v, by simpa [find?, hd] using hrest, Or.inl rfl⟩
      · simpa [find?, hd] using ih hrest
      · simpa [find?, hd] using ih hrest

/-- What can be read of a revised chronicle on a day was there or was put in its place. -/
theorem get?_revise {c : Chronicle ν} {n : Nat} (h : (c.revise f).2 = .ok n) (d : Date) :
    (c.get? d = none ∧ (c.revise f).1.get? d = none) ∨
      ∃ v w, c.get? d = some v ∧ (c.revise f).1.get? d = some w ∧
        (f v = .ok none ∧ w = v ∨ f v = .ok (some w)) := by
  obtain ⟨hall, -⟩ := reviseList_eq_ok h
  unfold get? revise
  dsimp only
  generalize (reviseList f c.days).1 = l' at hall ⊢
  clear h
  generalize c.days = l at hall ⊢
  induction hall with
  | nil => exact Or.inl ⟨rfl, rfl⟩
  | cons hhead _ ih =>
    next e e' _ _ _ =>
    obtain ⟨hdate, hvalue⟩ := hhead
    by_cases hd : e.1 = d
    · right
      exact ⟨e.2, e'.2, by simp [find?, hd], by simp [find?, hdate, hd], hvalue⟩
    · simpa [find?, hd, hdate] using ih

end Chronicle

namespace MarketHistory

variable {h : MarketHistory} {a : Asset}

theorem splitDay_eq_ok {bars bars' : Bars} (h : splitDay a c bars = .ok (some bars')) :
    ∃ bar bar', bars.get? a = some bar ∧ bar.adjustedForSplit c = .ok bar' ∧
      bars' = bars.put a bar' := by
  unfold splitDay at h
  cases hbar : bars.get? a with
  | none => simp [hbar] at h
  | some bar =>
    cases hadjusted : bar.adjustedForSplit c with
    | error e => simp [hbar, hadjusted, Except.map] at h
    | ok bar' =>
      simp only [hbar, hadjusted, Except.map, Except.ok.injEq, Option.some.injEq] at h
      exact ⟨bar, bar', rfl, hadjusted, h.symm⟩

theorem changes_splitDay (a : Asset) (c : Decimal) (bars : Bars) :
    Chronicle.changes (splitDay a c bars) = bars.contains a := by
  unfold splitDay OrderedMap.contains
  cases bars.get? a with
  | none => rfl
  | some bar =>
    cases hadjusted : bar.adjustedForSplit c with
    | error e => simp [hadjusted, Except.map, Chronicle.changes]
    | ok bar' => simp [hadjusted, Except.map, Chronicle.changes]

theorem get?_of_splitDay_none {bars : Bars} (h : splitDay a c bars = .ok none) :
    bars.get? a = none := by
  have hchanges := changes_splitDay a c bars
  rw [h] at hchanges
  simpa [OrderedMap.contains, Chronicle.changes] using hchanges.symm

/-- A bar is there after a split as before it, whether the split succeeds or not. -/
theorem exists_bar_split (a : Asset) (c : Decimal) {d : Date} {b : Asset} {bar : Bar}
    (hbar : h.bar? d b = some bar) : ∃ bar', (h.split a c).1.bar? d b = some bar' := by
  obtain ⟨bars, hbars, hb⟩ := Option.bind_eq_some_iff.mp hbar
  obtain ⟨bars', hbars', rfl | hchanged⟩ :=
    Chronicle.exists_get?_revise (f := splitDay a c) hbars
  · exact ⟨bar, Option.bind_eq_some_iff.mpr ⟨bars', hbars', hb⟩⟩
  · obtain ⟨old, new, -, -, rfl⟩ := splitDay_eq_ok hchanged
    have hkey : b ∈ (bars.put a new).keys :=
      OrderedMap.mem_keys_put.mpr (Or.inr (OrderedMap.mem_keys_of_get? hb))
    obtain ⟨bar', hbar'⟩ := OrderedMap.mem_keys_iff.mp hkey
    exact ⟨bar', Option.bind_eq_some_iff.mpr ⟨_, hbars', hbar'⟩⟩

/-- `g` is `h` after the bars of one asset were adjusted on all days, of which there are `n`. -/
structure AdjustsBars (a : Asset) (c : Decimal) (h g : MarketHistory) (n : Nat) : Prop where
  dates : g.dates = h.dates
  count : n = h.bars.days.countP fun e => e.2.contains a
  others : ∀ d b, b ≠ a → g.bar? d b = h.bar? d b
  absent : ∀ d, h.bar? d a = none → g.bar? d a = none
  adjusted : ∀ d bar, h.bar? d a = some bar → ∃ bar', g.bar? d a = some bar' ∧
    bar.close.div c = .ok bar'.close ∧ bar'.dividend = bar.dividend ∧ bar'.split = bar.split

/-- A split that succeeds adjusts the bars of its asset. -/
theorem adjustsBars_of_split {g : MarketHistory} {n : Nat} (hsplit : h.split a c = (g, .ok n)) :
    AdjustsBars a c h g n := by
  have hn : (h.bars.revise (splitDay a c)).2 = .ok n := congrArg Prod.snd hsplit
  obtain rfl : g = ⟨(h.bars.revise (splitDay a c)).1⟩ := (congrArg Prod.fst hsplit).symm
  have hrevised := Chronicle.get?_revise hn
  have hcount : n = h.bars.days.countP fun e => e.2.contains a := by
    rw [(Chronicle.reviseList_eq_ok hn).2]
    simp only [changes_splitDay]
  refine ⟨Chronicle.dates_revise _ _, hcount, fun d b hb => ?_, fun d hbar => ?_, fun d bar hbar => ?_⟩
  · obtain ⟨hv, hw⟩ | ⟨v, w, hv, hw, ⟨-, rfl⟩ | hchanged⟩ := hrevised d
    · simp [bar?, hv, hw]
    · simp [bar?, hv, hw]
    · obtain ⟨bar, bar', -, -, rfl⟩ := splitDay_eq_ok hchanged
      simp [bar?, hv, hw, hb]
  · obtain ⟨hv, hw⟩ | ⟨v, w, hv, hw, ⟨hkept, rfl⟩ | hchanged⟩ := hrevised d
    · simp [bar?, hw]
    · simp [bar?, hw, get?_of_splitDay_none hkept]
    · obtain ⟨bar, bar', hthere, -, -⟩ := splitDay_eq_ok hchanged
      simp [bar?, hv, hthere] at hbar
  · obtain ⟨hv, hw⟩ | ⟨v, w, hv, hw, ⟨hkept, rfl⟩ | hchanged⟩ := hrevised d
    · simp [bar?, hv] at hbar
    · simp [bar?, hv, get?_of_splitDay_none hkept] at hbar
    · obtain ⟨bar₀, bar', hthere, hadjusted, rfl⟩ := splitDay_eq_ok hchanged
      obtain rfl : bar₀ = bar := by simpa [bar?, hv, hthere] using hbar
      exact ⟨bar', by simp [bar?, hw], Bar.adjustedForSplit_eq_ok hadjusted⟩

/-- Every bar is one of `P`. -/
def All (P : Bar → Prop) (h : MarketHistory) : Prop :=
  h.bars.All fun bars => ∀ a b, bars.get? a = some b → P b

theorem All.append {P : Bar → Prop} {g : MarketHistory} {d : Date} {bars : Bars} (hall : h.All P)
    (hbars : ∀ a b, bars.get? a = some b → P b) (hg : h.append d bars = .ok g) : g.All P := by
  unfold MarketHistory.append at hg
  split at hg
  · simp at hg
  · obtain rfl := Except.ok.inj hg
    exact Chronicle.All.put hall d hbars

theorem All.bar? {P : Bar → Prop} (hall : h.All P) {d : Date} {bar : Bar}
    (hbar : h.bar? d a = some bar) : P bar := by
  obtain ⟨bars, hbars, hbar⟩ := Option.bind_eq_some_iff.mp hbar
  exact Chronicle.All.get? hall hbars a bar hbar

/-- Where bars of `P` are adjusted to bars of `P`, a split keeps all bars there, even if it fails, and
it fails only as the adjustment of a bar does. -/
theorem All.split {P : Bar → Prop} {E : Error → Prop} (hall : h.All P) (a : Asset)
    (hbar : ∀ bar, P bar → Gives E P (bar.adjustedForSplit c)) :
    (h.split a c).1.All P ∧ FailsOnly E (h.split a c).2 := by
  refine Chronicle.All.revise hall fun bars hbars => ?_
  unfold splitDay
  cases ha : bars.get? a with
  | none => exact Gives.ok fun w hw => by simp at hw
  | some bar =>
    have hadjusted := hbar bar (hbars a bar ha)
    refine ⟨FailsOnly.map_iff.mpr hadjusted.fails, fun o ho w hw => ?_⟩
    subst hw
    obtain ⟨old, new, hold, hnew, rfl⟩ := splitDay_eq_ok (show splitDay a c bars = _ by
      unfold splitDay; rw [ha]; exact ho)
    obtain rfl : bar = old := Option.some.inj (ha.symm.trans hold)
    exact OrderedMap.forall_get?_put hbars (hadjusted.value new hnew)

/-- A split of a history fails only as the adjustment of a bar does. -/
theorem failsOnly_split {E : Error → Prop} (h : MarketHistory) (a : Asset)
    (hbar : ∀ bar : Bar, FailsOnly E (bar.adjustedForSplit c)) : FailsOnly E (h.split a c).2 := by
  have hall : h.All fun _ => True := fun _ _ _ _ _ => trivial
  exact (hall.split a fun bar _ => ⟨hbar bar, fun _ _ => trivial⟩).2

end MarketHistory
end Backtesting
