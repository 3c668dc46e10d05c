import Backtesting.Proofs.Decimal.Extended
import Backtesting.Proofs.Market.Order
import Backtesting.Proofs.Strategy.Foreign
import Mathlib.Algebra.BigOperators.Group.List.Basic
import Mathlib.Logic.Function.Basic

/-!
Books that hold the same. The positions are the same, and the balances and the capital say the
same; what else a decimal has, its digits and the place of its balance among the others, may differ.
Fills, dividends and splits lead such books to such books, dividends and splits of one day in any
order, and strategies with such books are sized alike and are worth the same.
-/
namespace Backtesting

open Backtesting.Action (bind_eq_ok)

namespace OrderedMap

variable {κ : Type u} {ν : Type v} [DecidableEq κ] {m n : OrderedMap κ ν}

/-- Maps with the same keys in any order have the same sum over entries that count the same. -/
theorem sum_eq {M : Type*} [AddCommMonoid M] {f g : κ → ν → M} (hkeys : m.keys.Perm n.keys)
    (h : ∀ k v w, m.get? k = some v → n.get? k = some w → f k v = g k w) :
    (m.toList.map fun e => f e.1 e.2).sum = (n.toList.map fun e => g e.1 e.2).sum := by
  have hentry : ∀ (m : OrderedMap κ ν) (f : κ → ν → M), (m.toList.map fun e => f e.1 e.2) =
      m.keys.map fun k => ((m.get? k).map (f k)).getD 0 := by
    intro m f
    rw [keys, List.map_map]
    apply List.map_congr_left
    intro e he
    have hget : m.get? e.1 = some e.2 := get?_eq_some_iff.mpr he
    simp [hget]
  rw [hentry, hentry, (hkeys.map _).sum_eq]
  congr 1
  apply List.map_congr_left
  intro k hk
  obtain ⟨w, hw⟩ := mem_keys_iff.mp hk
  obtain ⟨v, hv⟩ := mem_keys_iff.mp (hkeys.mem_iff.mpr hk)
  rw [hv, hw, Option.map_some, Option.map_some, h k v w hv hw]

end OrderedMap

section Convert

variable {fx fx' : FxHistory} {d : Date} {x x' : Decimal}

theorem FxHistory.alike_convert (hfx : fx.SameRates fx') (hx : x.Alike x')
    (c c' : Currency) :
    Except.Meets Decimal.Alike (fx.convert d x c c') (fx'.convert d x' c c') := by
  rw [← hfx.convert_eq trivial trivial]
  unfold FxHistory.convert
  split
  · exact .ok hx
  · refine .bind (.of_eq rfl) ?_
    rintro rate _ rfl
    refine .bind (S := Decimal.Alike) (fun y y' hy hy' => ?_) fun y y' hy => ?_
    · exact Decimal.alike_mul hx (Decimal.lift_eq_ok.mp hy) (Decimal.lift_eq_ok.mp hy')
    split
    · exact .ok hy
    · refine .bind (.of_eq rfl) ?_
      rintro rate _ rfl z z' hz hz'
      exact Decimal.alike_div hy (Decimal.lift_eq_ok.mp hz) (Decimal.lift_eq_ok.mp hz')

end Convert

namespace Book

variable {l : Listings} {d : Date} {base : Currency} {market market' : MarketHistory}
  {fx fx' : FxHistory} {b b' c c' : Book}

/-- What the balances say by currency. -/
def purse (b : Book) (c : Currency) : Option Decimal.Extended :=
  (b.cash.get? c).map Decimal.extended

/-- Books of the same positions whose balances and capital say the same. -/
structure Alike (b c : Book) : Prop where
  positions : b.positions = c.positions
  cash : b.purse = c.purse
  target : List.Forall₂ (fun e e' => e.1 = e'.1 ∧ Decimal.Alike e.2 e'.2) b.target.toList
    c.target.toList

theorem Alike.refl (b : Book) : b.Alike b :=
  ⟨rfl, rfl, List.forall₂_same.mpr fun _ _ => ⟨rfl, .refl _⟩⟩

theorem Alike.position_eq (h : b.Alike c) : b.position = c.position := by
  funext a
  rw [position, position, h.positions]

theorem extended_balance (b : Book) (c : Currency) :
    (b.balance c).extended = (b.purse c).getD 0 := by
  unfold balance purse OrderedMap.getD
  cases b.cash.get? c with
  | none => exact congrArg Decimal.Extended.number Decimal.value_zero
  | some v => rfl

theorem Alike.balance (h : b.Alike c) (x : Currency) : (b.balance x).Alike (c.balance x) := by
  rw [Decimal.Alike, extended_balance, extended_balance, h.cash]

theorem purse_put (b : Book) (c : Currency) (v : Decimal) :
    purse { b with cash := b.cash.put c v } = Function.update b.purse c (some v.extended) := by
  funext x
  unfold purse
  rw [OrderedMap.get?_put]
  by_cases hx : x = c
  · subst hx
    rw [if_pos rfl, Function.update_self, Option.map_some]
  · rw [if_neg hx, Function.update_of_ne hx]

section Fill

theorem Alike.credit (h : b.Alike c) (x : Currency) (amount : Decimal) :
    Except.Meets Alike (b.credit x amount) (c.credit x amount) := by
  intro b' c' hb hc
  obtain ⟨v, hv, rfl⟩ := credit_eq_ok hb
  obtain ⟨w, hw, rfl⟩ := credit_eq_ok hc
  refine ⟨h.positions, ?_, h.target⟩
  rw [purse_put, purse_put, h.cash, Decimal.alike_add (h.balance x) (.refl amount) hv hw]

theorem meets_applyFill (l : Listings) (f : Fill) :
    Action.Meets Alike Eq (applyFill l f) (applyFill l f) := by
  refine Action.Meets.bind (Action.Meets.ofExcept (.of_eq rfl)) ?_
  rintro c _ rfl
  refine Action.Meets.bind (Action.Meets.modify fun b b' h => ?_) fun _ _ _ => ?_
  · refine ⟨?_, h.cash, h.target⟩
    rw [movePosition, movePosition, h.position_eq, h.positions]
  · refine Action.Meets.update fun b b' h => .bind (.of_eq rfl) ?_
    rintro flow _ rfl
    exact h.credit c flow

end Fill

section Dividends

/-- What is paid on a dividend, where the asset is listed. -/
def receive (l : Listings) (e : Asset × Bar) : Action Book Unit :=
  if l.contains e.1 then do let _ ← applyDividend l e.1 (.known e.2.dividend)
  else pure ()

/-- The currency and the amount of a dividend, none on a flat position. -/
def earned (l : Listings) (positions : OrderedMap Asset Int) (e : Asset × Bar) :
    Option (Currency × Decimal) :=
  if positions.getD e.1 0 = 0 then none
  else do
    let c ← l.get? e.1
    let x ← (e.2.dividend.mul (Decimal.ofInt (positions.getD e.1 0))).toOption
    pure (c, x)

/-- No dividend is rounded off where it is credited. -/
def ReceivesExactly (l : Listings) : List (Asset × Bar) → Book → Prop
  | [], _ => True
  | e :: es, b => (∀ x, earned l b.positions e = some x → Decimal.Unrounded (b.balance x.1) x.2) ∧
      ReceivesExactly l es (receive l e b).1

instance decidableReceivesExactly (l : Listings) :
    ∀ es b, Decidable (ReceivesExactly l es b)
  | [], _ => isTrue trivial
  | e :: es, b =>
      have := decidableReceivesExactly l es (receive l e b).1
      inferInstanceAs (Decidable ((∀ x, earned l b.positions e = some x →
        Decimal.Unrounded (b.balance x.1) x.2) ∧ ReceivesExactly l es (receive l e b).1))

/-- What an amount adds to what the balances say. -/
def enter (m : Currency → Option Decimal.Extended) (e : Currency × Decimal) :
    Currency → Option Decimal.Extended :=
  Function.update m e.1 (some ((m e.1).getD 0 + e.2.extended))

theorem enter_enter (m : Currency → Option Decimal.Extended) (e e' : Currency × Decimal) :
    enter (enter m e) e' = enter (enter m e') e := by
  unfold enter
  by_cases h : e.1 = e'.1
  · rw [h, Function.update_self, Function.update_self, Function.update_idem, Function.update_idem,
      Option.getD_some, Option.getD_some, add_right_comm]
  · rw [Function.update_of_ne (Ne.symm h), Function.update_of_ne h, Function.update_comm h]

theorem earned_of_unlisted {e : Asset × Bar} (h : l.contains e.1 = false)
    (positions : OrderedMap Asset Int) : earned l positions e = none := by
  have hget : l.get? e.1 = none := by simpa [OrderedMap.contains] using h
  unfold earned
  rw [hget]
  split <;> rfl

/-- A dividend changes nothing but the balance of its currency. -/
theorem receive_eq_ok {e : Asset × Bar} (h : receive l e b = (b', .ok ())) :
    earned l b.positions e = none ∧ b' = b ∨
      ∃ x v, earned l b.positions e = some x ∧ (b.balance x.1).add x.2 = .ok v ∧
        b' = { b with cash := b.cash.put x.1 v } := by
  unfold receive at h
  split at h
  · obtain ⟨u, amount, hpaid, hdone⟩ := bind_eq_ok.mp h
    obtain ⟨rfl, -⟩ := Action.pure_eq_ok.mp hdone
    rcases applyDividend_eq_ok hpaid with ⟨hflat, rfl⟩ | ⟨hheld, c, x, v, hc, hx, hamount, hv, rfl⟩
    · exact Or.inl ⟨if_pos hflat, rfl⟩
    · obtain rfl : e.2.dividend = x := Except.ok.inj hx
      refine Or.inr ⟨(c, amount), v, ?_, hv, rfl⟩
      unfold earned
      rw [if_neg (show ¬ b.positions.getD e.1 0 = 0 from hheld), hc,
        show e.2.dividend.mul (Decimal.ofInt (b.positions.getD e.1 0)) = .ok amount from hamount]
      rfl
  · next hlisted =>
    obtain ⟨rfl, -⟩ := Action.pure_eq_ok.mp h
    exact Or.inl ⟨earned_of_unlisted (by simpa using hlisted) _, rfl⟩

theorem receive_all {es : List (Asset × Bar)}
    (h : Action.forEach es (receive l) b = (b', .ok ())) (hexact : ReceivesExactly l es b) :
    b'.positions = b.positions ∧ b'.target = b.target ∧
      b'.purse = (es.filterMap (earned l b.positions)).foldl enter b.purse := by
  induction es generalizing b with
  | nil =>
    obtain rfl := Action.forEach_nil_eq_ok.mp h
    exact ⟨rfl, rfl, rfl⟩
  | cons e es ih =>
    obtain ⟨u, hu, hrest⟩ := Action.forEach_cons_eq_ok.mp h
    obtain ⟨hfirst, hlater⟩ := hexact
    rw [hu] at hlater
    obtain ⟨hpositions, htarget, hpurse⟩ := ih hrest hlater
    rcases receive_eq_ok hu with ⟨hnothing, rfl⟩ | ⟨x, v, hx, hv, rfl⟩
    · rw [List.filterMap_cons_none hnothing]
      exact ⟨hpositions, htarget, hpurse⟩
    · refine ⟨hpositions, htarget, ?_⟩
      rw [List.filterMap_cons_some hx, List.foldl_cons, hpurse, purse_put, enter,
        (hfirst x hx).extended_eq hv, extended_balance]

/-- Dividends may be paid in any order. -/
theorem Alike.receive {es es' : List (Asset × Bar)} (h : b.Alike c) (hes : es.Perm es')
    (hb : Action.forEach es (Book.receive l) b = (b', .ok ()))
    (hc : Action.forEach es' (Book.receive l) c = (c', .ok ()))
    (hexact : ReceivesExactly l es b) (hexact' : ReceivesExactly l es' c) : b'.Alike c' := by
  obtain ⟨hpositions, htarget, hpurse⟩ := receive_all hb hexact
  obtain ⟨hpositions', htarget', hpurse'⟩ := receive_all hc hexact'
  refine ⟨?_, ?_, ?_⟩
  · rw [hpositions, hpositions', h.positions]
  · rw [hpurse, hpurse', h.positions, h.cash]
    exact (hes.filterMap _).foldl_eq' (fun e _ e' _ m => enter_enter m e e') _
  · rw [htarget, htarget']
    exact h.target

end Dividends

section Splits

/-- What a split makes of the position, where the asset is listed. -/
def adjust (l : Listings) (e : Asset × Bar) : Action Book Unit :=
  if l.contains e.1 then Action.update (·.applySplit e.1 (.known e.2.split))
  else pure ()

/-- A position times the ratio of a split, as it is where that cannot be computed. -/
def scaled (ratio : Decimal) (k : Int) : Int :=
  match (Decimal.ofInt k).mul ratio >>= Decimal.nearestInt with
  | .ok k' => k'
  | .error _ => k

/-- The positions after a split. -/
def rescale (l : Listings) (m : OrderedMap Asset Int) (e : Asset × Bar) : OrderedMap Asset Int :=
  if l.contains e.1 then (m.get? e.1).elim m fun k => m.put e.1 (scaled e.2.split k) else m

theorem get?_rescale (l : Listings) (m : OrderedMap Asset Int) {e : Asset × Bar} {a : Asset}
    (h : a ≠ e.1) : (rescale l m e).get? a = m.get? a := by
  unfold rescale
  split
  · cases m.get? e.1 with
    | none => rfl
    | some k => rw [Option.elim_some, OrderedMap.get?_put, if_neg h]
  · rfl

theorem rescale_rescale (l : Listings) (m : OrderedMap Asset Int) {e e' : Asset × Bar}
    (h : e.1 ≠ e'.1) : rescale l (rescale l m e) e' = rescale l (rescale l m e') e := by
  rw [rescale, rescale.eq_1 l (rescale l m e'), get?_rescale l m h.symm, get?_rescale l m h]
  unfold rescale
  split
  · split
    · cases hk : m.get? e.1 with
      | none => cases hk' : m.get? e'.1 <;> simp
      | some k =>
        cases hk' : m.get? e'.1 with
        | none => simp
        | some k' => exact OrderedMap.put_comm h hk hk'
    · rfl
  · rfl

theorem adjust_eq_ok {e : Asset × Bar} (h : adjust l e b = (b', .ok ())) :
    b' = { b with positions := rescale l b.positions e } := by
  unfold adjust at h
  unfold rescale
  split at h
  · next hlisted =>
    have hsplit := Action.update_eq_ok.mp h
    unfold applySplit at hsplit
    rw [if_pos hlisted]
    cases hk : b.positions.get? e.1 with
    | none =>
      rw [hk] at hsplit
      exact (Except.ok.inj hsplit).symm
    | some k =>
      rw [hk] at hsplit
      obtain ⟨r, hr, hrest⟩ := Except.bind_eq_ok.mp hsplit
      obtain rfl : e.2.split = r := Except.ok.inj hr
      obtain ⟨k', hk', hdone⟩ := Except.bind_eq_ok.mp hrest
      obtain rfl := Except.pure_eq_ok.mp hdone
      rw [Option.elim_some, scaled, Decimal.lift_eq_ok.mp hk']
  · next hlisted =>
    obtain ⟨rfl, -⟩ := Action.pure_eq_ok.mp h
    rw [if_neg hlisted]

theorem adjust_all {es : List (Asset × Bar)}
    (h : Action.forEach es (adjust l) b = (b', .ok ())) :
    b' = { b with positions := es.foldl (rescale l) b.positions } := by
  induction es generalizing b with
  | nil =>
    obtain rfl := Action.forEach_nil_eq_ok.mp h
    rfl
  | cons e es ih =>
    obtain ⟨u, hu, hrest⟩ := Action.forEach_cons_eq_ok.mp h
    obtain rfl := adjust_eq_ok hu
    exact ih hrest

/-- Splits of different assets may come in any order. -/
theorem Alike.adjust {es es' : List (Asset × Bar)} (h : b.Alike c) (hes : es.Perm es')
    (hnodup : (es.map Prod.fst).Nodup)
    (hb : Action.forEach es (Book.adjust l) b = (b', .ok ()))
    (hc : Action.forEach es' (Book.adjust l) c = (c', .ok ())) : b'.Alike c' := by
  obtain rfl := adjust_all hb
  obtain rfl := adjust_all hc
  refine ⟨?_, h.cash, h.target⟩
  show es.foldl (rescale l) b.positions = es'.foldl (rescale l) c.positions
  rw [h.positions]
  refine hes.foldl_eq' (fun e he e' he' m => ?_) _
  by_cases hsame : e.1 = e'.1
  · rw [List.inj_on_of_nodup_map hnodup he he' hsame]
  · exact rescale_rescale l m hsame

end Splits

section Worth

/-- Nothing is rounded where the balances are added to what the positions are worth. -/
def AddsBalancesExactly (b : Book) (l : Listings) (d : Date) (base : Currency)
    (market : MarketHistory) (fx : FxHistory) : Prop :=
  ∀ total, b.positions.toList.foldlM (positionValue l d base market fx) Decimal.zero = .ok total →
    Decimal.Along (balanceValue d base fx)
      (fun total e => ∀ x, fx.convert d e.2 e.1 base = .ok x → Decimal.Unrounded total x)
      b.cash.toList total

instance (b : Book) (l : Listings) (d : Date) (base : Currency) (market : MarketHistory)
    (fx : FxHistory) : Decidable (b.AddsBalancesExactly l d base market fx) := by
  delta AddsBalancesExactly
  infer_instance

/-- What a balance adds to a total, nothing where it is zero. -/
def balanceShare (d : Date) (base : Currency) (fx : FxHistory) (c : Currency) (v : Decimal) :
    Decimal.Extended :=
  if v.extended = 0 then 0
  else (fx.convert d v c base).toOption.elim 0 Decimal.extended

theorem extended_balanceValue {total next : Decimal} {e : Currency × Decimal}
    (hexact : ∀ x, fx.convert d e.2 e.1 base = .ok x → Decimal.Unrounded total x)
    (h : balanceValue d base fx total e = .ok next) :
    next.extended = total.extended + balanceShare d base fx e.1 e.2 := by
  obtain ⟨same, hsame, h⟩ := Except.bind_eq_ok.mp h
  have hzero := Decimal.isSame_zero (Decimal.lift_eq_ok.mp hsame)
  unfold balanceShare
  cases same with
  | true =>
    obtain rfl := Except.pure_eq_ok.mp h
    rw [if_pos (of_decide_eq_true hzero.symm), add_zero]
  | false =>
    obtain ⟨x, hx, hadd⟩ := Except.bind_eq_ok.mp h
    rw [if_neg (of_decide_eq_false hzero.symm), hx,
      (hexact x hx).extended_eq (Decimal.lift_eq_ok.mp hadd)]
    rfl

/-- A balance that has been added was converted, or is zero. -/
theorem exists_convert {total next : Decimal} {e : Currency × Decimal}
    (h : balanceValue d base fx total e = .ok next) :
    e.2.extended = 0 ∨ ∃ x, fx.convert d e.2 e.1 base = .ok x := by
  obtain ⟨same, hsame, h⟩ := Except.bind_eq_ok.mp h
  have hzero := Decimal.isSame_zero (Decimal.lift_eq_ok.mp hsame)
  cases same with
  | true => exact Or.inl (of_decide_eq_true hzero.symm)
  | false =>
    obtain ⟨x, hx, -⟩ := Except.bind_eq_ok.mp h
    exact Or.inr ⟨x, hx⟩

theorem balanceShare_eq (hfx : fx.SameRates fx') {c : Currency} {v w : Decimal} (h : v.Alike w)
    (hv : v.extended = 0 ∨ ∃ x, fx.convert d v c base = .ok x)
    (hw : w.extended = 0 ∨ ∃ x, fx'.convert d w c base = .ok x) :
    balanceShare d base fx c v = balanceShare d base fx' c w := by
  unfold balanceShare
  rw [← h]
  split
  · rfl
  · next hzero =>
    obtain ⟨x, hx⟩ := hv.resolve_left hzero
    obtain ⟨y, hy⟩ := hw.resolve_left (h ▸ hzero)
    rw [hx, hy]
    exact FxHistory.alike_convert hfx h c base x y hx hy

theorem Alike.keys_perm (h : b.Alike c) : b.cash.keys.Perm c.cash.keys := by
  refine (List.perm_ext_iff_of_nodup b.cash.nodup c.cash.nodup).mpr fun x => ?_
  have hx : b.purse x = c.purse x := congrFun h.cash x
  unfold purse at hx
  show x ∈ b.cash.keys ↔ x ∈ c.cash.keys
  rw [OrderedMap.mem_keys_iff, OrderedMap.mem_keys_iff]
  cases hb : b.cash.get? x <;> cases hc : c.cash.get? x <;> simp_all

theorem Alike.balance_of_get? (h : b.Alike c) {x : Currency} {v w : Decimal}
    (hv : b.cash.get? x = some v) (hw : c.cash.get? x = some w) : v.Alike w := by
  have hx : b.purse x = c.purse x := congrFun h.cash x
  unfold purse at hx
  rw [hv, hw] at hx
  exact Option.some.inj hx

/-- Positions are worth the same at the same bars and rates. -/
theorem positionValue_agree (hmarket : market.SameBars market') (hfx : fx.SameRates fx')
    (l : Listings) (d : Date) (base : Currency) :
    positionValue l d base market fx = positionValue l d base market' fx' := by
  funext total e
  have hconvert : ∀ x c, fx.convert d x c base = fx'.convert d x c base :=
    fun x c => hfx.convert_eq trivial trivial x
  simp only [positionValue, hmarket.requireBar_eq trivial, hconvert]

/-- What a book is worth is the sum of its shares, in whatever order the balances are added. -/
theorem extended_totalValue {x : Decimal} (hexact : b.AddsBalancesExactly l d base market fx)
    (h : b.totalValue l d base market fx = .ok x) :
    ∃ total, b.positions.toList.foldlM (positionValue l d base market fx) Decimal.zero = .ok total ∧
      x.extended = total.extended +
        (b.cash.toList.map fun e => balanceShare d base fx e.1 e.2).sum ∧
      ∀ c v, b.cash.get? c = some v → v.extended = 0 ∨ ∃ y, fx.convert d v c base = .ok y := by
  obtain ⟨total, htotal, hcash⟩ := Except.bind_eq_ok.mp h
  refine ⟨total, htotal, ?_, fun c v hv => ?_⟩
  · exact (hexact total htotal).extended_eq hcash fun _ hfirst hnext =>
      extended_balanceValue hfirst hnext
  · obtain ⟨_, _, hstep⟩ := Except.exists_step_of_mem hcash (OrderedMap.get?_eq_some_iff.mp hv)
    exact exists_convert hstep

/-- Books that hold the same are worth the same. -/
theorem Alike.meets_totalValue (h : b.Alike c) (hmarket : market.SameBars market')
    (hfx : fx.SameRates fx') (hb : b.AddsBalancesExactly l d base market fx)
    (hc : c.AddsBalancesExactly l d base market' fx') :
    Except.Meets Decimal.Alike (b.totalValue l d base market fx)
      (c.totalValue l d base market' fx') := by
  intro x y hx hy
  obtain ⟨total, htotal, hsum, hconvert⟩ := extended_totalValue hb hx
  obtain ⟨total', htotal', hsum', hconvert'⟩ := extended_totalValue hc hy
  rw [positionValue_agree hmarket hfx, h.positions] at htotal
  obtain rfl : total = total' := Except.ok.inj (htotal.symm.trans htotal')
  have hshares := OrderedMap.sum_eq (f := balanceShare d base fx) (g := balanceShare d base fx')
    h.keys_perm fun k v w hv hw =>
      balanceShare_eq hfx (h.balance_of_get? hv hw) (hconvert k v hv) (hconvert' k w hw)
  rw [Decimal.Alike, hsum, hsum', hshares]

end Worth

end Book

section Sizes

variable {l : Listings} {d : Date} {market market' : MarketHistory} {fx fx' : FxHistory}
  {b c : Book}

theorem Book.Alike.target_isEmpty (h : b.Alike c) : c.target.isEmpty = b.target.isEmpty :=
  (OrderedMap.isEmpty_eq_of_size_eq h.target.length_eq).symm

/-- Capital that has been handed out counts the same. -/
theorem Book.Alike.meets_capital (h : b.Alike c) (hfx : fx.SameRates fx')
    (hfunded : b.target.isEmpty = false) :
    Except.Meets Decimal.Alike (Sizer.capital b l d market fx)
      (Sizer.capital c l d market' fx') := by
  unfold Sizer.capital
  rw [h.target_isEmpty, hfunded]
  simp only [Bool.false_eq_true, if_false]
  refine Except.Meets.foldlM h.target (fun total total' e e' htotal he => ?_) (.refl _)
  rw [← he.1, ← hfx.base]
  refine .bind (FxHistory.alike_convert hfx he.2 e.1 fx.base) fun x y hxy z z' hz hz' => ?_
  exact Decimal.alike_add htotal hxy (Decimal.lift_eq_ok.mp hz) (Decimal.lift_eq_ok.mp hz')

/-- Capital that says the same pays for the same number of units. -/
theorem Sizer.meets_size (hmarket : market.SameBars market') (hfx : fx.SameRates fx')
    {capital capital' : Decimal} (h : capital.Alike capital') (l : Listings) (d : Date)
    (weights : Weights) (a : Asset) (signal : Signal) :
    Except.Meets Eq (size l d capital weights market fx a signal)
      (size l d capital' weights market' fx' a signal) := by
  unfold size
  rw [hmarket.requireBar_eq trivial, ← hfx.base]
  split
  · exact .ok rfl
  refine .bind (.of_eq rfl) ?_
  rintro bar _ rfl
  refine .bind (.of_eq rfl) ?_
  rintro worthless _ rfl
  dsimp only
  cases worthless with
  | true =>
    intro i j hi
    cases hi
  | false =>
  cases weights.get? a with
  | none =>
    intro i j hi
    cases hi
  | some weight =>
  simp only [Bool.false_eq_true, if_false, Except.ok_bind]
  refine .bind (S := Decimal.Alike) (fun x y hx hy => ?_) fun x y hxy => ?_
  · exact Decimal.alike_mul h (Decimal.lift_eq_ok.mp hx) (Decimal.lift_eq_ok.mp hy)
  refine .bind (.of_eq rfl) ?_
  rintro c _ rfl
  refine .bind (FxHistory.alike_convert hfx hxy fx.base c) fun x y hxy => ?_
  refine .bind (S := Eq) (fun i j hi hj => ?_) ?_
  · obtain ⟨u, hu, hi⟩ := Except.bind_eq_ok.mp (Decimal.lift_eq_ok.mp hi)
    obtain ⟨v, hv, hj⟩ := Except.bind_eq_ok.mp (Decimal.lift_eq_ok.mp hj)
    exact Decimal.alike_floorInt (Decimal.alike_div hxy hu hv) hi hj
  · rintro quantity _ rfl
    exact .ok rfl

end Sizes

namespace Strategy

variable {s t : Strategy} {d : Date} {market market' : MarketHistory} {fx fx' : FxHistory}

/-- Strategies that are the same but for books that hold the same. -/
structure Alike (s t : Strategy) : Prop where
  same : t = { s with book := t.book }
  book : s.book.Alike t.book

theorem Alike.of_book {b : Book} (h : s.book.Alike b) : s.Alike { s with book := b } := ⟨rfl, h⟩

theorem Alike.assets_eq (h : s.Alike t) : t.assets = s.assets := by rw [h.same]

/-- Signals go by the bars and by the positions. -/
theorem Alike.meets_signals (h : s.Alike t) (hmarket : market.SameBars market') (d : Date) :
    Except.Meets (fun x y => x.1.Alike y.1 ∧ x.2 = y.2) (s.signals d market)
      (t.signals d market') := by
  have hrule : t.rule = s.rule := by rw [h.same]
  have hposition : t.position = s.position := h.book.position_eq.symm
  unfold signals
  rw [h.assets_eq, hrule, hposition, s.rule.signals_agree hmarket s.position (fun _ _ => trivial) d]
  refine .bind (.of_eq rfl) ?_
  rintro ⟨rule, signals⟩ _ rfl
  exact .ok ⟨⟨by rw [h.same], h.book⟩, rfl⟩

/-- Strategies with such books want the same holdings. -/
theorem Alike.meets_sizesFor (h : s.Alike t) (hmarket : market.SameBars market')
    (hfx : fx.SameRates fx') (hfunded : s.book.target.isEmpty = false) (d : Date)
    (signals : Signals) :
    Except.Meets Eq (s.sizesFor s.sizer d signals market fx)
      (t.sizesFor t.sizer d signals market' fx') := by
  have hsizer : t.sizer = s.sizer := by rw [h.same]
  unfold sizesFor Sizer.sizesFor
  rw [h.assets_eq, hsizer]
  split
  · exact .ok rfl
  rw [s.sizer.weightsFor_agree hmarket (fun _ _ => trivial) d]
  refine .bind (.of_eq rfl) ?_
  rintro weights _ rfl
  refine .bind (h.book.meets_capital hfx hfunded) fun capital capital' hcapital => ?_
  refine .bind (Except.Meets.mapM fun e _ => ?_) ?_
  · refine .bind (Sizer.meets_size hmarket hfx hcapital s.assets d weights e.1 e.2) ?_
    rintro quantity _ rfl
    exact .ok rfl
  · rintro sizes _ rfl
    exact .ok rfl

end Strategy
end Backtesting
