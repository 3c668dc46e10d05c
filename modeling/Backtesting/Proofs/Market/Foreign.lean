import Backtesting.Portfolio.Events
import Backtesting.Proofs.Market.Split

/-!
Histories that agree on some assets and some currencies. Such histories have the same dates, and what
is read of those assets and currencies is the same in both: bars, closes, rates and conversions. They
go on agreeing when the same day is appended with further bars and rates of others put in, when both
split an asset, and when one of them splits another one.
-/
namespace Backtesting

open Backtesting.Except (Agree)

/-- The second list is the first with further elements of `P` put in anywhere. -/
inductive Inserts (P : α → Prop) : List α → List α → Prop
  | nil : Inserts P [] []
  | keep {l m : List α} (a : α) (h : Inserts P l m) : Inserts P (a :: l) (a :: m)
  | insert {l m : List α} {a : α} (ha : P a) (h : Inserts P l m) : Inserts P l (a :: m)

namespace Inserts

variable {P : α → Prop} {l m : List α}

theorem imp {Q : α → Prop} (h : Inserts P l m) (hPQ : ∀ a ∈ m, P a → Q a) : Inserts Q l m := by
  induction h with
  | nil => exact .nil
  | keep a _ ih => exact .keep a (ih fun b hb => hPQ b (List.mem_cons_of_mem a hb))
  | @insert l m a ha _ ih =>
    exact .insert (hPQ a List.mem_cons_self ha) (ih fun b hb => hPQ b (List.mem_cons_of_mem a hb))

/-- What does not pass a filter has been put in. -/
theorem of_filter {f : α → Bool} {l : List α} (h : ∀ a ∈ l, f a = false → P a) :
    Inserts P (l.filter f) l := by
  induction l with
  | nil => exact .nil
  | cons a l ih =>
    have htail := ih fun b hb => h b (List.mem_cons_of_mem a hb)
    cases hf : f a with
    | true =>
      rw [List.filter_cons_of_pos hf]
      exact .keep a htail
    | false =>
      rw [List.filter_cons_of_neg (by simp [hf])]
      exact .insert (h a List.mem_cons_self hf) htail

theorem filter (h : Inserts P l m) (f : α → Bool) : Inserts P (l.filter f) (m.filter f) := by
  induction h with
  | nil => exact .nil
  | keep a _ ih =>
    rw [List.filter_cons, List.filter_cons]
    split
    · exact .keep a ih
    · exact ih
  | insert ha _ ih =>
    rw [List.filter_cons]
    split
    · exact .insert ha ih
    · exact ih

end Inserts

namespace OrderedMap

variable {κ : Type u} {ν : Type v} [DecidableEq κ] {ks : κ → Prop} {m n : OrderedMap κ ν}

/-- The same values under the keys of `ks`. -/
def AgreesOn (ks : κ → Prop) (m n : OrderedMap κ ν) : Prop := ∀ k, ks k → m.get? k = n.get? k

theorem AgreesOn.put (h : AgreesOn ks m n) (k : κ) (v : ν) : AgreesOn ks (m.put k v) (n.put k v) := by
  intro j hj
  rw [get?_put, get?_put, h j hj]

theorem AgreesOn.put_right {k : κ} (h : AgreesOn ks m n) (hk : ¬ ks k) (v : ν) :
    AgreesOn ks m (n.put k v) := by
  intro j hj
  have hne : j ≠ k := fun heq => hk (heq ▸ hj)
  rw [get?_put, if_neg hne, h j hj]

theorem AgreesOn.putAll {l l' : List (κ × ν)} (hl : Inserts (fun e => ¬ ks e.1) l l')
    (h : AgreesOn ks m n) : AgreesOn ks (m.putAll l) (n.putAll l') := by
  induction hl generalizing m n with
  | nil => exact h
  | keep e _ ih => exact ih (h.put e.1 e.2)
  | insert he _ ih => exact ih (h.put_right he _)

theorem agreesOn_ofList {l l' : List (κ × ν)} (hl : Inserts (fun e => ¬ ks e.1) l l') :
    AgreesOn ks (ofList l) (ofList l') := AgreesOn.putAll hl fun _ _ => rfl

/-- Entries of other keys are not found. -/
theorem agreesOn_of_inserts (h : Inserts (fun e => ¬ ks e.1) m.toList n.toList) :
    AgreesOn ks m n := by
  have hof := agreesOn_ofList h
  rwa [ofList_toList, ofList_toList] at hof

end OrderedMap

namespace Chronicle

variable {ν μ ε : Type} {R : ν → μ → Prop} {c : Chronicle ν} {e : Chronicle μ}

/-- The same days, with related values. -/
def Rel (R : ν → μ → Prop) (c : Chronicle ν) (e : Chronicle μ) : Prop :=
  List.Forall₂ (fun x y => x.1 = y.1 ∧ R x.2 y.2) c.days e.days

namespace Rel

theorem refl {S : ν → ν → Prop} (hS : ∀ v, S v v) (c : Chronicle ν) : Rel S c c :=
  List.forall₂_same.mpr fun x _ => ⟨rfl, hS x.2⟩

theorem symm (h : Rel R c e) : Rel (fun w v => R v w) e c :=
  (List.Forall₂.flip h).imp fun _ _ hx => ⟨hx.1.symm, hx.2⟩

theorem dates_eq (h : Rel R c e) : c.dates = e.dates := by
  unfold Rel at h
  unfold dates
  generalize c.days = l at h
  generalize e.days = m at h
  induction h with
  | nil => rfl
  | cons hx _ ih => rw [List.map_cons, List.map_cons, hx.1, ih]

theorem later?_eq (h : Rel R c e) (d : Date) : c.later? d = e.later? d :=
  later?_eq_of_dates_eq h.dates_eq d

theorem get? (h : Rel R c e) (d : Date) : Option.Rel R (c.get? d) (e.get? d) := by
  unfold Rel at h
  unfold Chronicle.get?
  generalize c.days = l at h
  generalize e.days = m at h
  induction h with
  | nil => exact .none
  | cons hx _ ih =>
    rw [find?, find?, hx.1]
    split
    · exact .some hx.2
    · exact ih

theorem put (h : Rel R c e) (d : Date) {v : ν} {w : μ} (hv : R v w) :
    Rel R (c.put d v) (e.put d w) := by
  unfold Rel at h ⊢
  simp only [Chronicle.put, replaceFrom]
  generalize c.days = l at h
  generalize e.days = m at h
  induction h with
  | nil => exact .cons ⟨rfl, hv⟩ .nil
  | cons hx _ ih =>
    rw [List.takeWhile_cons, List.takeWhile_cons, hx.1]
    split
    · exact .cons hx ih
    · exact .cons ⟨rfl, hv⟩ .nil

/-- A change that is made alike on related values is made on the same days and fails on the same
day. -/
theorem revise {f : ν → Except ε (Option ν)} {g : μ → Except ε (Option μ)} (h : Rel R c e)
    (hfg : ∀ v w, R v w → Agree (Option.Rel R) (f v) (g w)) :
    Rel R (c.revise f).1 (e.revise g).1 ∧ (c.revise f).2 = (e.revise g).2 := by
  unfold Rel at h ⊢
  simp only [Chronicle.revise]
  generalize c.days = l at h
  generalize e.days = m at h
  induction h with
  | nil => exact ⟨.nil, rfl⟩
  | @cons x y l m hx hrest ih =>
    have hday := hfg x.2 y.2 hx.2
    rw [reviseList, reviseList]
    generalize f x.2 = r at hday
    generalize g y.2 = r' at hday
    cases hday with
    | error e => exact ⟨.cons hx hrest, rfl⟩
    | ok hvw =>
      cases hvw with
      | none => exact ⟨.cons hx ih.1, ih.2⟩
      | some hvw => exact ⟨.cons ⟨hx.1, hvw⟩ ih.1, by rw [ih.2]⟩

/-- A change that stays within the relation. -/
theorem revise_right {g : μ → Except ε (Option μ)} (h : Rel R c e)
    (hg : ∀ v w w', R v w → g w = .ok (some w') → R v w') : Rel R c (e.revise g).1 := by
  unfold Rel at h ⊢
  simp only [Chronicle.revise]
  generalize c.days = l at h
  generalize e.days = m at h
  induction h with
  | nil => exact .nil
  | @cons x y l m hx hrest ih =>
    rw [reviseList]
    split
    · exact .cons hx hrest
    · exact .cons hx ih
    · next w hday => exact .cons ⟨hx.1, hg _ _ _ hx.2 hday⟩ ih

end Rel
end Chronicle

namespace MarketHistory

variable {as : Asset → Prop} {h h' : MarketHistory} {a : Asset} {c : Decimal}

/-- The same days, with the same bars of the assets of `as`. -/
def AgreesOn (as : Asset → Prop) (h h' : MarketHistory) : Prop :=
  Chronicle.Rel (OrderedMap.AgreesOn as) h.bars h'.bars

namespace AgreesOn

theorem refl (h : MarketHistory) : AgreesOn as h h := Chronicle.Rel.refl (fun _ _ _ => rfl) h.bars

theorem symm (hh : AgreesOn as h h') : AgreesOn as h' h :=
  List.Forall₂.imp (fun _ _ hx => ⟨hx.1, fun a ha => (hx.2 a ha).symm⟩) (Chronicle.Rel.symm hh)

theorem trans {h'' : MarketHistory} (hh : AgreesOn as h h') (hh' : AgreesOn as h' h'') :
    AgreesOn as h h'' := by
  unfold AgreesOn Chronicle.Rel at hh hh' ⊢
  generalize h.bars.days = l at hh
  generalize h'.bars.days = m at hh hh'
  generalize h''.bars.days = k at hh'
  induction hh generalizing k with
  | nil =>
    cases hh'
    exact .nil
  | cons hx _ ih =>
    cases hh' with
    | cons hy hrest =>
      exact .cons ⟨hx.1.trans hy.1, fun a ha => (hx.2 a ha).trans (hy.2 a ha)⟩ (ih _ hrest)

theorem bar?_eq (hh : AgreesOn as h h') (ha : as a) (d : Date) : h.bar? d a = h'.bar? d a := by
  have hday := Chronicle.Rel.get? hh d
  unfold bar?
  generalize h.bars.get? d = r at hday
  generalize h'.bars.get? d = r' at hday
  cases hday with
  | none => rfl
  | some hbars => exact hbars a ha

theorem requireBar_eq (hh : AgreesOn as h h') (ha : as a) (d : Date) :
    h.requireBar d a = h'.requireBar d a := by
  rw [requireBar, requireBar, hh.bar?_eq ha]

theorem closes_eq (hh : AgreesOn as h h') (ha : as a) (cap : Option Date) :
    h.closes a cap = h'.closes a cap := by
  unfold AgreesOn Chronicle.Rel at hh
  unfold closes
  generalize h.bars.days = l at hh
  generalize h'.bars.days = m at hh
  induction hh with
  | nil => rfl
  | cons hx _ ih => rw [closesIn, closesIn, hx.1, hx.2 a ha, ih]

theorem append (hh : AgreesOn as h h') (d : Date) {bars bars' : Bars}
    (hbars : OrderedMap.AgreesOn as bars bars') :
    Agree (AgreesOn as) (h.append d bars) (h'.append d bars') := by
  unfold MarketHistory.append
  rw [Chronicle.Rel.later?_eq hh d]
  cases h'.bars.later? d with
  | some last => exact .error _
  | none => exact .ok (Chronicle.Rel.put hh d hbars)

/-- A split of one of the assets adjusts the same bars. -/
theorem split (hh : AgreesOn as h h') (ha : as a) (c : Decimal) :
    AgreesOn as (h.split a c).1 (h'.split a c).1 ∧ (h.split a c).2 = (h'.split a c).2 :=
  Chronicle.Rel.revise hh fun bars bars' hbars => by
    rw [splitDay, splitDay, hbars a ha]
    cases bars'.get? a with
    | none => exact .ok .none
    | some bar =>
      dsimp only
      cases bar.adjustedForSplit c with
      | error e => exact .error e
      | ok bar => exact .ok (.some (hbars.put a bar))

/-- A split of another asset is not seen. -/
theorem split_right (hh : AgreesOn as h h') (ha : ¬ as a) (c : Decimal) :
    AgreesOn as h (h'.split a c).1 :=
  Chronicle.Rel.revise_right hh fun bars bars' w hbars hday => by
    obtain ⟨bar, bar', -, -, rfl⟩ := splitDay_eq_ok hday
    exact hbars.put_right ha bar'

theorem split_left (hh : AgreesOn as h h') (ha : ¬ as a) (c : Decimal) :
    AgreesOn as (h.split a c).1 h' := (hh.symm.split_right ha c).symm

end AgreesOn

/-- All bars of the asset can be adjusted. -/
def Adjustable (h : MarketHistory) (a : Asset) (c : Decimal) : Prop :=
  ∀ e ∈ h.bars.days, ∀ bar, e.2.get? a = some bar → (bar.adjustedForSplit c).toBool = true

instance : Decidable (h.Adjustable a c) := by
  unfold Adjustable
  infer_instance

theorem Adjustable.split (hadjustable : h.Adjustable a c) : ∃ n, (h.split a c).2 = .ok n := by
  unfold Adjustable at hadjustable
  show ∃ n, (Chronicle.reviseList (splitDay a c) h.bars.days).2 = .ok n
  generalize h.bars.days = l at hadjustable
  induction l with
  | nil => exact ⟨0, rfl⟩
  | cons e l ih =>
    obtain ⟨n, hn⟩ := ih fun e he => hadjustable e (List.mem_cons_of_mem _ he)
    unfold Chronicle.reviseList
    cases hbar : e.2.get? a with
    | none =>
      have hday : splitDay a c e.2 = .ok none := by rw [splitDay, hbar]
      exact ⟨n, by rw [hday]; exact hn⟩
    | some bar =>
      have hok := hadjustable e List.mem_cons_self bar hbar
      cases hadjusted : bar.adjustedForSplit c with
      | error err =>
        rw [hadjusted] at hok
        exact Bool.noConfusion hok
      | ok bar' =>
        have hday : splitDay a c e.2 = .ok (some (e.2.put a bar')) := by
          simp only [splitDay, hbar, hadjusted, Except.map]
        exact ⟨n + 1, by rw [hday]; exact congrArg (Except.map (· + 1)) hn⟩

/-- Only the bars of the asset itself matter. -/
theorem Adjustable.of_agreesOn (hadjustable : h.Adjustable a c) (hh : AgreesOn as h h')
    (ha : as a) : h'.Adjustable a c := by
  unfold AgreesOn Chronicle.Rel at hh
  unfold Adjustable at hadjustable ⊢
  generalize h.bars.days = l at hh hadjustable
  generalize h'.bars.days = m at hh ⊢
  induction hh with
  | nil => exact fun e he => absurd he List.not_mem_nil
  | @cons x y l m hx _ ih =>
    intro e he bar hbar
    rcases List.mem_cons.mp he with rfl | he
    · exact hadjustable x List.mem_cons_self bar ((hx.2 a ha).trans hbar)
    · exact ih (fun e he => hadjustable e (List.mem_cons_of_mem x he)) e he bar hbar

end MarketHistory

namespace FxHistory

variable {cs : Currency → Prop} {h h' : FxHistory} {d : Date}

/-- The same base and days, with the same rates of the currencies of `cs`. A rate of the base itself
is never looked up. -/
structure AgreesOn (cs : Currency → Prop) (h h' : FxHistory) : Prop where
  base : h.base = h'.base
  rates : Chronicle.Rel (OrderedMap.AgreesOn fun c => cs c ∧ c ≠ h.base) h.rates h'.rates

namespace AgreesOn

theorem refl (h : FxHistory) : AgreesOn cs h h :=
  ⟨rfl, Chronicle.Rel.refl (fun _ _ _ => rfl) h.rates⟩

theorem imp {cs' : Currency → Prop} (hh : AgreesOn cs h h') (hcs : ∀ c, cs' c → c ≠ h.base → cs c) :
    AgreesOn cs' h h' where
  base := hh.base
  rates := List.Forall₂.imp (fun _ _ hx => ⟨hx.1, fun c hc => hx.2 c ⟨hcs c hc.1 hc.2, hc.2⟩⟩) hh.rates

theorem rate_eq (hh : AgreesOn cs h h') {c : Currency} (hc : cs c) : h.rate d c = h'.rate d c := by
  have hday := hh.rates.get? d
  unfold rate
  rw [← hh.base]
  split
  · rfl
  · next hbase =>
    generalize h.rates.get? d = r at hday
    generalize h'.rates.get? d = r' at hday
    cases hday with
    | none => rfl
    | some hrates =>
      dsimp only
      rw [hrates c ⟨hc, hbase⟩]

theorem convert_eq (hh : AgreesOn cs h h') {c c' : Currency} (hc : cs c) (hc' : cs c')
    (x : Decimal) : h.convert d x c c' = h'.convert d x c c' := by
  rw [convert, convert, hh.rate_eq hc, hh.rate_eq hc', hh.base]

end AgreesOn

/-- A rate that is read and belongs to none of the currencies. -/
def IsForeignRate (cs : Currency → Prop) (d : Date) (e : String × Amount) : Prop :=
  ∃ c r, readRate d e = .ok (c, r) ∧ ¬ cs c

theorem IsForeignRate.imp {cs' : Currency → Prop} {e : String × Amount} (he : IsForeignRate cs d e)
    (hcs : ∀ c, cs' c → cs c) : IsForeignRate cs' d e := by
  obtain ⟨c, r, hread, hc⟩ := he
  exact ⟨c, r, hread, fun hc' => hc (hcs c hc')⟩

/-- Foreign rates never fail to be read. -/
theorem mapM_readRate {rates rates' : List (String × Amount)}
    (h : Inserts (IsForeignRate cs d) rates rates') :
    Agree (Inserts fun e => ¬ cs e.1) (rates.mapM (readRate d)) (rates'.mapM (readRate d)) := by
  induction h with
  | nil => exact .ok .nil
  | keep e _ ih =>
    rw [List.mapM_cons, List.mapM_cons]
    cases readRate d e with
    | error e => exact .error e
    | ok entry =>
      simp only [Except.ok_bind]
      revert ih
      generalize List.mapM (readRate d) _ = x
      generalize List.mapM (readRate d) _ = y
      rintro (h | e)
      · exact .ok (.keep entry h)
      · exact .error e
  | @insert l m e he _ ih =>
    obtain ⟨c, r, hread, hc⟩ := he
    rw [List.mapM_cons, hread]
    simp only [Except.ok_bind]
    revert ih
    generalize l.mapM (readRate d) = x
    generalize m.mapM (readRate d) = y
    rintro (h | e)
    · exact .ok (.insert hc h)
    · exact .error e

/-- Further rates may be those of the base. -/
theorem AgreesOn.append (hh : AgreesOn cs h h') {rates rates' : List (String × Amount)}
    (hrates : Inserts (IsForeignRate (fun c => cs c ∧ c ≠ h.base) d) rates rates') :
    Agree (AgreesOn cs) (h.append d rates) (h'.append d rates') := by
  have hread := mapM_readRate hrates
  unfold FxHistory.append
  rw [hh.rates.later?_eq d]
  split
  · exact .error _
  · revert hread
    generalize rates.mapM (readRate d) = x
    generalize rates'.mapM (readRate d) = y
    rintro (h | e)
    · exact .ok ⟨hh.base, hh.rates.put d (OrderedMap.agreesOn_ofList h)⟩
    · exact .error e

end FxHistory

namespace MarketDay

/-- The second day is the first one with bars of other assets and rates of other currencies put in. -/
structure Extends (as : Asset → Prop) (cs : Currency → Prop) (day day' : MarketDay) : Prop where
  date : day'.date = day.date
  bars : Inserts (fun e => ¬ as e.1) day.bars.toList day'.bars.toList
  rates : Inserts (FxHistory.IsForeignRate cs day.date) day.rates day'.rates

/-- Every split of another asset that the day brings can be made in the history. -/
def SplitsAdjust (as : Asset → Prop) (day : MarketDay) (h : MarketHistory) : Prop :=
  ∀ e ∈ day.bars.toList, e.2.hasSplit = true → ¬ as e.1 → h.Adjustable e.1 e.2.split

end MarketDay
end Backtesting
