import Backtesting.Proofs.Market.Foreign
import Backtesting.Proofs.Market.Rates

/-!
Days whose bars and rates are listed in another order. They leave histories with the same bars and
the same rates, and so do their splits, since each of them adjusts the bars of one asset and no two
of them are of the same one.
-/
namespace Backtesting

namespace MarketDay

variable {day day' : MarketDay}

/-- The bars that bring a dividend. -/
def dividends (day : MarketDay) : List (Asset × Bar) := day.bars.toList.filter (·.2.hasDividend)

/-- The bars that bring a split. -/
def splits (day : MarketDay) : List (Asset × Bar) := day.bars.toList.filter (·.2.hasSplit)

theorem nodup_splits (day : MarketDay) : (day.splits.map Prod.fst).Nodup :=
  day.bars.nodup.sublist (List.filter_sublist.map Prod.fst)

/-- The second day is the first one with its bars and its rates in another order. -/
structure Reorders (day day' : MarketDay) : Prop where
  date : day'.date = day.date
  bars : day.bars.toList.Perm day'.bars.toList
  rates : day.rates.Perm day'.rates
  codes : (day.rates.map Prod.fst).Nodup

theorem Reorders.dividends (h : day.Reorders day') : day.dividends.Perm day'.dividends :=
  h.bars.filter _

theorem Reorders.splits (h : day.Reorders day') : day.splits.Perm day'.splits := h.bars.filter _

end MarketDay

namespace MarketHistory

variable {h h' : MarketHistory} {a : Asset}

/-- Histories with the same bars of all assets. -/
abbrev SameBars (h h' : MarketHistory) : Prop := h.AgreesOn (fun _ => True) h'

theorem sameBars_of_each (hh : ∀ a, AgreesOn (· = a) h h') : SameBars h h' := by
  unfold SameBars AgreesOn Chronicle.Rel at *
  generalize h.bars.days = l at hh
  generalize h'.bars.days = m at hh
  induction l generalizing m with
  | nil =>
    cases hh ""
    exact .nil
  | cons x l ih =>
    cases m with
    | nil => cases hh ""
    | cons y m =>
      refine .cons ⟨?_, fun a _ => ?_⟩ (ih m fun a => ?_)
      · exact (List.forall₂_cons.mp (hh "")).1.1
      · exact (List.forall₂_cons.mp (hh a)).1.2 a rfl
      · exact (List.forall₂_cons.mp (hh a)).2

/-- Bars in another order are the same bars. -/
theorem SameBars.append (hh : SameBars h h') {d : Date} {bars bars' : Bars}
    (hbars : bars.toList.Perm bars'.toList) :
    Except.Meets SameBars (h.append d bars) (h'.append d bars') := by
  intro g g' hg hg'
  have hsame : OrderedMap.AgreesOn (fun _ => True) bars bars' := fun a _ =>
    OrderedMap.get?_of_perm hbars a
  have hagree := AgreesOn.append hh d hsame
  rw [hg, hg'] at hagree
  cases hagree with
  | ok hbars => exact hbars

/-- Of many splits, those of one asset are what its bars come to. -/
theorem AgreesOn.split_filter (hh : AgreesOn (· = a) h h') (es : List (Asset × Bar)) :
    AgreesOn (· = a) (es.foldl (fun h e => (h.split e.1 e.2.split).1) h)
      ((es.filter (·.1 = a)).foldl (fun h e => (h.split e.1 e.2.split).1) h') := by
  induction es generalizing h h' with
  | nil => exact hh
  | cons e es ih =>
    by_cases he : e.1 = a
    · rw [List.filter_cons_of_pos (by simpa using he)]
      exact ih (hh.split he _).1
    · rw [List.filter_cons_of_neg (by simpa using he)]
      exact ih (hh.split_left he _)

/-- Splits of different assets may come in any order. -/
theorem SameBars.splits (hh : SameBars h h') {es es' : List (Asset × Bar)} (hes : es.Perm es')
    (hnodup : (es.map Prod.fst).Nodup) :
    SameBars (es.foldl (fun h e => (h.split e.1 e.2.split).1) h)
      (es'.foldl (fun h e => (h.split e.1 e.2.split).1) h') := by
  refine sameBars_of_each fun a => ?_
  -- there is at most one split of `a`, so the splits of `a` are the same list on both sides
  have hone : ∀ {l : List (Asset × Bar)}, (l.map Prod.fst).Nodup →
      (l.filter (·.1 = a)).Pairwise fun e e' => e.1 ≠ e'.1 := fun hl =>
    (List.pairwise_map.mp hl).filter _
  have hsame : es.filter (·.1 = a) = es'.filter (·.1 = a) := by
    refine (hes.filter _).eq_of_pairwise (fun e e' he he' hne _ => absurd ?_ hne)
      (hone hnodup) (hone ((hes.map _).nodup hnodup))
    rw [of_decide_eq_true (List.mem_filter.mp he).2, of_decide_eq_true (List.mem_filter.mp he').2]
  have heach : AgreesOn (· = a) h h' := List.Forall₂.imp
    (fun _ _ hx => ⟨hx.1, fun b _ => hx.2 b trivial⟩) hh
  have hleft := heach.split_filter es
  rw [hsame] at hleft
  exact hleft.trans (AgreesOn.split_filter (.refl h') es').symm

end MarketHistory

namespace FxHistory

variable {h h' : FxHistory} {d : Date}

/-- Histories with the same rates of all currencies. -/
abbrev SameRates (h h' : FxHistory) : Prop := h.AgreesOn (fun _ => True) h'

theorem codes_of_mapM {rates : List (String × Amount)} {read : List (Currency × Decimal)}
    (h : rates.mapM (readRate d) = .ok read) :
    (read.map Prod.fst).map Currency.code = rates.map Prod.fst := by
  have hall := Except.mapM_eq_ok.mp h
  clear h
  induction hall with
  | nil => rfl
  | cons he _ ih => rw [List.map_cons, List.map_cons, List.map_cons, ih, (readRate_eq_ok he).1]

/-- Rates in another order are the same rates. -/
theorem SameRates.append (hh : SameRates h h') {rates rates' : List (String × Amount)}
    (hrates : rates.Perm rates') (hcodes : (rates.map Prod.fst).Nodup) :
    Except.Meets SameRates (h.append d rates) (h'.append d rates') := by
  intro g g' hg hg'
  obtain ⟨read, hread, -, rfl⟩ := append_eq_ok hg
  obtain ⟨read', hread', -, rfl⟩ := append_eq_ok hg'
  have hperm := Except.perm_of_mapM hrates hread hread'
  have hnodup : (read.map Prod.fst).Nodup := by
    rw [← codes_of_mapM hread] at hcodes
    exact hcodes.of_map Currency.code
  refine ⟨hh.base, hh.rates.put d fun c _ => ?_⟩
  apply OrderedMap.get?_of_perm
  rw [OrderedMap.toList_ofList hnodup, OrderedMap.toList_ofList ((hperm.map _).nodup hnodup)]
  exact hperm

end FxHistory
end Backtesting
