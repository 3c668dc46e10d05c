import Backtesting.Proofs.Portfolio.Refusal
import Backtesting.Proofs.Portfolio.Worth
import Backtesting.Proofs.Strategy.LongOnly

/-!
What steps that may fail half way do to the positions. The brokerage keeps every fill it makes, and a
position has moved by its fills even where the cash of one of them could not be paid. Between the
splits of a day and its end a strategy deals in an asset once at most, and then goes from what it
holds to what it wants.
-/
namespace Backtesting

theorem Strategy.Wants.of_setup_eq {s t : Strategy} {a : Asset} {k : Int} (h : s.Wants a k)
    (hsetup : s.setup = t.setup) (hposition : s.position a = t.position a) : t.Wants a k where
  listed := Strategy.assets_of_setup_eq hsetup ▸ h.listed
  nonneg := h.nonneg
  crosses ht := by
    rw [← hposition]
    exact h.crosses (Rule.isCrossover_of_unused_eq (Strategy.unused_of_setup_eq hsetup).symm ht)

namespace Portfolio

open Backtesting.Action (IsPath Keeps)

def positionOf (p : Portfolio) (n : String) (a : Asset) : Int :=
  ((p.strategies.get? n).map (·.position a)).getD 0

/-- The fills of one strategy for one asset. -/
def dealings (n : String) (a : Asset) (fs : List Fill) : List Fill :=
  fs.filter fun f => f.strategy = n ∧ f.asset = a

variable {p q r : Portfolio} {n m : String} {a : Asset} {s t : Strategy} {d : Date} {f : Fill}
  {fs gs : List Fill}

theorem positionOf_of_get? (hs : p.strategies.get? n = some s) :
    p.positionOf n a = s.position a := by
  rw [positionOf, hs, Option.map_some, Option.getD_some]

theorem positionOf_congr (h : q.strategies = p.strategies) : q.positionOf n a = p.positionOf n a := by
  rw [positionOf, positionOf, h]

theorem positionOf_put (n m : String) (a : Asset) (t : Strategy) :
    ({ p with strategies := p.strategies.put n t } : Portfolio).positionOf m a =
      if m = n then t.position a else p.positionOf m a := by
  rw [positionOf, OrderedMap.get?_put]
  split
  · rw [Option.map_some, Option.getD_some]
  · rfl

theorem dealings_append (n : String) (a : Asset) (fs gs : List Fill) :
    dealings n a (fs ++ gs) = dealings n a fs ++ dealings n a gs := List.filter_append ..

theorem mem_dealings : f ∈ dealings n a fs ↔ f ∈ fs ∧ f.strategy = n ∧ f.asset = a := by
  simp [dealings]

theorem dealings_eq_nil (h : ∀ f ∈ fs, ¬(f.strategy = n ∧ f.asset = a)) : dealings n a fs = [] :=
  List.filter_eq_nil_iff.mpr fun f hf => by simpa using h f hf

/-- Of fills once per asset, a strategy has one for an asset or none. -/
theorem dealings_of_oncePerAsset (h : OncePerAsset fs) (n : String) (a : Asset) :
    dealings n a fs = [] ∨ ∃ f ∈ fs, f.strategy = n ∧ f.asset = a ∧ dealings n a fs = [f] := by
  have hpairs : (dealings n a fs).Pairwise fun f g => ¬(f.strategy = g.strategy ∧ f.asset = g.asset) :=
    h.filter _
  have hmem : ∀ f ∈ dealings n a fs, f ∈ fs ∧ f.strategy = n ∧ f.asset = a :=
    fun f hf => mem_dealings.mp hf
  rcases hd : dealings n a fs with _ | ⟨f, _ | ⟨g, l⟩⟩
  · exact Or.inl rfl
  · obtain ⟨hf, hname, hasset⟩ := hmem f (by simp [hd])
    exact Or.inr ⟨f, hf, hname, hasset, rfl⟩
  · obtain ⟨-, hname, hasset⟩ := hmem f (by simp [hd])
    obtain ⟨-, hname', hasset'⟩ := hmem g (by simp [hd])
    rw [hd] at hpairs
    exact absurd ⟨hname.trans hname'.symm, hasset.trans hasset'.symm⟩
      (List.rel_of_pairwise_cons hpairs List.mem_cons_self)

/-- On the way from `p` to `q` the brokerage made the fills `fs`, and the positions moved by them. The
portfolio has recorded those that were also paid. -/
structure Deals (p q : Portfolio) (fs : List Fill) : Prop where
  brokered : q.brokerage.fills = p.brokerage.fills ++ fs
  recorded : ∃ gs, gs.Sublist fs ∧ q.fills = p.fills ++ gs
  moved : ∀ n a, q.positionOf n a =
    p.positionOf n a + ((dealings n a fs).map Fill.signedQuantity).sum
  positive : ∀ f ∈ fs, 0 < f.quantity

namespace Deals

/-- Nothing is dealt where neither the positions nor the records of fills change. -/
theorem of_eq (hbrokered : q.brokerage.fills = p.brokerage.fills) (hfills : q.fills = p.fills)
    (hpositions : ∀ n a, q.positionOf n a = p.positionOf n a) : Deals p q [] where
  brokered := by rw [hbrokered, List.append_nil]
  recorded := ⟨[], .refl [], by rw [hfills, List.append_nil]⟩
  moved n a := by simp [hpositions, dealings]
  positive _ hf := absurd hf List.not_mem_nil

theorem refl (p : Portfolio) : Deals p p [] := of_eq rfl rfl fun _ _ => rfl

theorem trans (h : Deals p q fs) (h' : Deals q r gs) : Deals p r (fs ++ gs) where
  brokered := by rw [h'.brokered, h.brokered, List.append_assoc]
  recorded := by
    obtain ⟨ks, hks, hfills⟩ := h.recorded
    obtain ⟨ls, hls, hfills'⟩ := h'.recorded
    exact ⟨ks ++ ls, hks.append hls, by rw [hfills', hfills, List.append_assoc]⟩
  moved n a := by
    rw [h'.moved, h.moved, dealings_append, List.map_append, List.sum_append, Int.add_assoc]
  positive f hf := by
    rcases List.mem_append.mp hf with hf | hf
    · exact h.positive f hf
    · exact h'.positive f hf

theorem isPath_nil : IsPath fun p q => Deals p q [] := ⟨refl, trans⟩

/-- What is not dealt in stays where it was. -/
theorem positionOf_eq (h : Deals p q fs) (hnone : ∀ f ∈ fs, ¬(f.strategy = n ∧ f.asset = a)) :
    q.positionOf n a = p.positionOf n a := by
  rw [h.moved, dealings_eq_nil hnone, List.map_nil, List.sum_nil, Int.add_zero]

theorem positionOf_of_nil (h : Deals p q []) : q.positionOf n a = p.positionOf n a :=
  h.positionOf_eq fun _ hf => absurd hf List.not_mem_nil

end Deals

/-- A step of one strategy takes the positions wherever it takes those of the strategy. -/
theorem positions_onStrategy {R : Asset → Int → Int → Prop} (hrefl : ∀ a k, R a k k)
    {x : Action Strategy α} (hx : ∀ s a, R a (s.position a) ((x s).1.position a)) (p : Portfolio) :
    (onStrategy n x p).1.brokerage = p.brokerage ∧ (onStrategy n x p).1.fills = p.fills ∧
      ∀ m a, R a (p.positionOf m a) ((onStrategy n x p).1.positionOf m a) := by
  unfold onStrategy
  cases hs : p.strategies.get? n with
  | none => exact ⟨rfl, rfl, fun m a => hrefl a _⟩
  | some s =>
    refine ⟨rfl, rfl, fun m a => ?_⟩
    rw [positionOf_put]
    split
    · next hm =>
      rw [hm, positionOf_of_get? hs]
      exact hx s a
    · exact hrefl a _

/-- A strategy that keeps its positions deals in nothing. -/
theorem deals_onStrategy {x : Action Strategy α}
    (hx : ∀ s, (x s).1.book.positions = s.book.positions) :
    Keeps (fun p q => Deals p q []) (onStrategy n x) := by
  intro p
  have hposition : ∀ s a, (x s).1.position a = s.position a := by
    intro s a
    rw [Strategy.position, Strategy.position, Book.position, Book.position, hx]
  obtain ⟨hbrokerage, hfills, hpositions⟩ :=
    positions_onStrategy (R := fun _ k k' => k' = k) (fun _ _ => rfl) hposition p
  exact .of_eq (by rw [hbrokerage]) hfills hpositions

theorem deals_log (level : Level) (text : String) :
    Keeps (fun p q => Deals p q []) (log level text) := fun _ => .of_eq rfl rfl fun _ _ => rfl

/-- Finding its signals, a strategy keeps its setup and its positions. -/
theorem deals_signals {market : MarketHistory} {outcome : Except Error Signals}
    (h : onStrategy n (fun s =>
      match s.signals d market with
      | .ok (s, signals) => (s, .ok signals)
      | .error e => (s, .error e)) p = (q, outcome)) : Deals p q [] ∧ q.setup = p.setup := by
  obtain rfl : _ = q := congrArg Prod.fst h
  refine ⟨deals_onStrategy (fun s => ?_) p, (allowsEvents_setup.actions.trading n).signals d market p⟩
  cases hs : s.signals d market with
  | error e => rfl
  | ok found =>
    obtain ⟨⟨rule, signals⟩, -, hfound⟩ := Except.bind_eq_ok.mp hs
    obtain rfl := Except.pure_eq_ok.mp hfound
    rfl

theorem deals_allocateCapital (d : Date) :
    Keeps (fun p q => Deals p q []) (allocateCapital d) := by
  refine Keeps.bind Deals.isPath_nil (Keeps.read Deals.isPath_nil _) fun capital => ?_
  refine Keeps.forEach Deals.isPath_nil ?_ capital
  rintro ⟨n, c⟩
  refine deals_onStrategy fun s => ?_
  cases hset : s.setTarget c with
  | error e => simp [Action.update, hset]
  | ok t =>
    obtain ⟨target, -, rfl⟩ := Strategy.setTarget_eq_ok hset
    simp [Action.update, hset]

theorem deals_recordEquity (d : Date) :
    Keeps (fun p q => Deals p q []) (recordEquity d) := by
  have hpath := Deals.isPath_nil
  refine Keeps.bind hpath (Keeps.read hpath _) fun value => ?_
  refine Keeps.bind hpath (Keeps.update hpath fun p q h => ?_) fun _ => ?_
  · obtain ⟨equity, -, h⟩ := Except.bind_eq_ok.mp h
    obtain rfl := Except.pure_eq_ok.mp h
    exact .of_eq rfl rfl fun _ _ => rfl
  refine Keeps.bind hpath (Keeps.get hpath) fun p => ?_
  exact Keeps.bind hpath (deals_log _ _) fun _ => Keeps.pure hpath value

theorem deals_takeIn (day : MarketDay) : Keeps (fun p q => Deals p q []) (takeIn day) := by
  have hpath := Deals.isPath_nil
  refine Keeps.bind hpath (Keeps.update hpath fun p q h => ?_) fun _ => ?_
  · split at h
    · simp at h
    · obtain rfl := Except.ok.inj h
      exact .refl p
  refine Keeps.bind hpath (Keeps.update hpath fun p q h => ?_) fun _ =>
    Keeps.update hpath fun p q h => ?_
  · obtain ⟨market, -, h⟩ := Except.bind_eq_ok.mp h
    obtain rfl := Except.pure_eq_ok.mp h
    exact .of_eq rfl rfl fun _ _ => rfl
  · obtain ⟨fx, -, h⟩ := Except.bind_eq_ok.mp h
    obtain rfl := Except.pure_eq_ok.mp h
    exact .of_eq rfl rfl fun _ _ => rfl

/-- A fill moves the position of its strategy, whether or not its cash is paid. -/
theorem Deals.handleFill {u : Portfolio} (hstrategies : u.strategies = p.strategies)
    (hbrokered : u.brokerage.fills = p.brokerage.fills ++ [f]) (hfills : u.fills = p.fills)
    (hs : p.strategies.get? f.strategy = some s) (hlisted : f.asset ∈ s.assets.keys)
    (hpositive : 0 < f.quantity) : Deals p (handleFill f u).1 [f] := by
  have hmoved : ∀ n a, (onStrategy f.strategy (Strategy.applyFill f) u).1.positionOf n a =
      p.positionOf n a + ((dealings n a [f]).map Fill.signedQuantity).sum := by
    intro n a
    unfold onStrategy
    rw [hstrategies, hs]
    have hput := positionOf_put (p := u) f.strategy n a (Strategy.applyFill f s).1
    rw [hstrategies, positionOf_congr hstrategies] at hput
    refine hput.trans ?_
    have hbook : (Strategy.applyFill f s).1.position a =
        if a = f.asset then s.position f.asset + f.signedQuantity else s.position a := by
      show (Book.applyFill s.assets f s.book).1.position a = _
      rw [Book.position, Book.positions_applyFill s.book hlisted]
      exact Book.position_put ..
    rw [hbook]
    by_cases hn : n = f.strategy
    · rw [if_pos hn, hn, positionOf_of_get? hs]
      by_cases ha : a = f.asset
      · simp [dealings, ha]
      · simp [dealings, ha, Ne.symm ha]
    · simp [dealings, hn, Ne.symm hn]
  obtain ⟨hbrokerage, hkept, -⟩ := positions_onStrategy (n := f.strategy) (R := fun _ _ _ => True)
    (fun _ _ => trivial) (x := Strategy.applyFill f) (fun _ _ => trivial) u
  have hall : ∀ g ∈ [f], 0 < g.quantity := fun g hg => by rwa [List.mem_singleton.mp hg]
  refine Action.of_bind (P := fun q => Deals p q [f]) (fun {t e} hfill => ?_) fun {t _} hfill => ?_
  · rw [hfill] at hmoved hbrokerage hkept
    exact ⟨by rw [hbrokerage, hbrokered], ⟨[], by simp, by rw [hkept, hfills, List.append_nil]⟩,
      hmoved, hall⟩
  · rw [hfill] at hmoved hbrokerage hkept
    refine ⟨?_, ⟨[f], .refl _, ?_⟩, hmoved, hall⟩
    · show t.brokerage.fills = _
      rw [hbrokerage, hbrokered]
    · show t.fills ++ [f] = _
      rw [hkept, hfills]

/-- An order for a listed asset is dealt with in one fill of the whole quantity, or in none. -/
theorem deals_handleOrder {o : OrderRequest} {k : Int} (hs : p.strategies.get? o.strategy = some s)
    (hlisted : o.asset ∈ s.assets.keys) (hquantity : o.quantity = .integer k) :
    Deals p (handleOrder o p).1 [] ∨
      ∃ f, f.strategy = o.strategy ∧ f.asset = o.asset ∧ f.signedQuantity = o.action.sign * k ∧
        Deals p (handleOrder o p).1 [f] := by
  let P : Portfolio → Prop := fun q => Deals p q [] ∨
    ∃ f, f.strategy = o.strategy ∧ f.asset = o.asset ∧ f.signedQuantity = o.action.sign * k ∧
      Deals p q [f]
  refine Action.of_bind (P := P) (fun {u e} hread => ?_) fun {u _} hread => ?_
  · obtain ⟨rfl, -⟩ := Action.read_eq_error.mp hread
    exact Or.inl (.refl u)
  obtain ⟨hu, -⟩ := Action.read_eq_ok.mp hread
  refine Action.of_bind (P := P) (fun {v e} hvalidate => ?_) fun {v order} hvalidate => ?_
  · obtain ⟨hv, -⟩ := Action.ofExcept_eq_error.mp hvalidate
    rw [hv, hu]
    exact Or.inl (.refl p)
  obtain ⟨hv, hvalid⟩ := Action.ofExcept_eq_ok.mp hvalidate
  obtain ⟨-, hstrategy, hasset, haction, hwhole⟩ := validate_eq_ok hvalid
  refine Action.of_bind (P := P) (fun hcount => absurd hcount Action.modify_ne_error) ?_
  intro w _ hcount
  rw [Action.modify_eq_ok, hv, hu] at hcount
  refine Action.of_bind (P := P) (fun {x e} hsubmit => ?_) fun {x outcome} hsubmit => ?_
  · rw [submit_eq_error hsubmit, hcount]
    exact Or.inl (.of_eq rfl rfl fun _ _ => rfl)
  rcases submit_eq_ok hsubmit with ⟨f, rfl, hexecute, hx⟩ | ⟨hrejected, hx⟩
  · obtain ⟨-, hstrategy', hasset', haction', hquantity'⟩ := execute_filled hexecute
    have hk : order.quantity = k := by
      rw [hquantity] at hwhole
      exact (Except.ok.inj hwhole).symm
    refine Or.inr ⟨f, hstrategy'.trans hstrategy, hasset'.trans hasset, ?_, ?_⟩
    · rw [Fill.signedQuantity, haction', haction, hquantity', hk]
    refine Action.of_bind (P := fun q => Deals p q [f])
      (fun hlog => absurd hlog Action.modify_ne_error) ?_
    intro y _ hlog
    have hy := Action.modify_eq_ok.mp hlog
    rw [hx, hcount] at hy
    rw [hy]
    refine Deals.handleFill (s := s) rfl rfl rfl ?_ ?_ ?_
    · rw [hstrategy', hstrategy, hs]
    · rw [hasset', hasset]
      exact hlisted
    · rw [hquantity']
      exact order.quantity_pos
  · have hlogged : ∀ level text, Deals p (log level text x).1 [] := by
      intro level text
      rw [hx, hcount]
      exact .of_eq rfl rfl fun _ _ => rfl
    cases outcome with
    | noBar => exact Or.inl (hlogged _ _)
    | unmatched close => exact Or.inl (hlogged _ _)
    | filled f => exact absurd rfl (hrejected f)

/-- The fill is what its strategy, as it stands in `p`, still misses of what it wants to hold. -/
def Justifies (p : Portfolio) (f : Fill) : Prop :=
  ∃ s k, p.strategies.get? f.strategy = some s ∧ s.Wants f.asset k ∧
    f.signedQuantity = k - s.position f.asset

theorem Justifies.of_setup_eq {u : Portfolio} (h : u.Justifies f) (hsetup : u.setup = p.setup)
    (hposition : u.positionOf f.strategy f.asset = p.positionOf f.strategy f.asset) :
    p.Justifies f := by
  obtain ⟨s, k, hs, hwants, hquantity⟩ := h
  obtain ⟨t, ht, hst⟩ := setup_of_get? hsetup hs
  rw [positionOf_of_get? hs, positionOf_of_get? ht] at hposition
  exact ⟨t, k, ht, hwants.of_setup_eq hst hposition, by rw [hquantity, hposition]⟩

/-- Dealings of which each brings a strategy to what it wants of an asset, once per asset. -/
structure WantedDeals (p q : Portfolio) (fs : List Fill) : Prop extends Deals p q fs where
  once : OncePerAsset fs
  justified : ∀ f ∈ fs, p.Justifies f

namespace WantedDeals

theorem of_nil (h : Deals p q []) : WantedDeals p q [] where
  toDeals := h
  once := List.Pairwise.nil
  justified _ hf := absurd hf List.not_mem_nil

theorem trans (h : WantedDeals p q fs) (h' : WantedDeals q r gs) (hsetup : q.setup = p.setup)
    (hapart : ∀ f ∈ fs, ∀ g ∈ gs, ¬(f.strategy = g.strategy ∧ f.asset = g.asset)) :
    WantedDeals p r (fs ++ gs) where
  toDeals := h.toDeals.trans h'.toDeals
  once := oncePerAsset_append h.once h'.once hapart
  justified g hg := by
    rcases List.mem_append.mp hg with hg | hg
    · exact h.justified g hg
    · exact (h'.justified g hg).of_setup_eq hsetup (h.positionOf_eq fun f hf => hapart f hf g hg)

theorem after_nil (h : Deals p q []) (hsetup : q.setup = p.setup) (h' : WantedDeals q r fs) :
    WantedDeals p r fs := (of_nil h).trans h' hsetup fun _ hf => absurd hf List.not_mem_nil

theorem before_nil (h : WantedDeals p q fs) (h' : Deals q r []) : WantedDeals p r fs where
  toDeals := by simpa using h.toDeals.trans h'
  once := h.once
  justified := h.justified

end WantedDeals

theorem wanted_handleOrder {o : OrderRequest} {j k : Int}
    (hs : p.strategies.get? o.strategy = some s) (hwants : s.Wants o.asset k)
    (hquantity : o.quantity = .integer j)
    (hmissing : o.action.sign * j = k - s.position o.asset) :
    ∃ fs, WantedDeals p (handleOrder o p).1 fs ∧
      ∀ f ∈ fs, f.strategy = o.strategy ∧ f.asset = o.asset := by
  rcases deals_handleOrder hs hwants.listed hquantity with
    hnil | ⟨f, hstrategy, hasset, hsigned, hone⟩
  · exact ⟨[], .of_nil hnil, fun f hf => absurd hf List.not_mem_nil⟩
  · refine ⟨[f], ⟨hone, List.pairwise_singleton _ f, ?_⟩, ?_⟩
    · intro g hg
      rw [List.mem_singleton.mp hg]
      refine ⟨s, k, ?_, ?_, ?_⟩
      · rw [hstrategy, hs]
      · rwa [hasset]
      · rw [hsigned, hmissing, hasset]
    · intro g hg
      rw [List.mem_singleton.mp hg]
      exact ⟨hstrategy, hasset⟩

theorem wanted_submitTarget {e : Asset × Int} (hs : p.strategies.get? n = some s)
    (hwants : s.Wants e.1 e.2) :
    ∃ fs, WantedDeals p (submitTarget n d e p).1 fs ∧ ∀ f ∈ fs, f.strategy = n ∧ f.asset = e.1 := by
  let P : Portfolio → Prop := fun q =>
    ∃ fs, WantedDeals p q fs ∧ ∀ f ∈ fs, f.strategy = n ∧ f.asset = e.1
  have hnone : P p := ⟨[], .of_nil (.refl p), fun f hf => absurd hf List.not_mem_nil⟩
  refine Action.of_bind (P := P) (fun {u e} hread => ?_) fun {u s'} hread => ?_
  · obtain ⟨rfl, -⟩ := Action.read_eq_error.mp hread
    exact hnone
  obtain ⟨rfl, hs'⟩ := Action.read_eq_ok.mp hread
  obtain rfl : s = s' := Option.some.inj (hs.symm.trans (strategy_eq_ok.mp hs'))
  dsimp only
  split
  · exact hnone
  refine Action.of_bind (P := P) (fun {v e} hprices => ?_) fun {v prices} hprices => ?_
  · obtain ⟨rfl, -⟩ := Action.read_eq_error.mp hprices
    exact hnone
  obtain ⟨rfl, -⟩ := Action.read_eq_ok.mp hprices
  refine wanted_handleOrder (p := v) hs hwants rfl ?_
  dsimp only
  split
  · next hbuy => simp only [TradeAction.sign]; omega
  · next hsell => simp only [TradeAction.sign]; omega

/-- A strategy comes to what it wants asset by asset; an order that fails is the last. -/
theorem wanted_submitTargets {l : List (Asset × Int)} (hl : (l.map Prod.fst).Nodup)
    (hs : p.strategies.get? n = some s) (hwants : ∀ e ∈ l, s.Wants e.1 e.2) :
    ∃ fs, WantedDeals p (Action.forEach l (submitTarget n d) p).1 fs ∧
      ∀ f ∈ fs, f.strategy = n ∧ f.asset ∈ l.map Prod.fst := by
  induction l generalizing p s with
  | nil => exact ⟨[], .of_nil (.refl p), fun f hf => absurd hf List.not_mem_nil⟩
  | cons e l ih =>
    obtain ⟨hfresh, hl⟩ := List.nodup_cons.mp hl
    obtain ⟨fs, hfirst, hfs⟩ := wanted_submitTarget (d := d) hs (hwants e List.mem_cons_self)
    have hsetup := (allowsEvents_setup.actions.books n).submitTarget d e p
    have hfs' : ∀ f ∈ fs, f.strategy = n ∧ f.asset ∈ (e :: l).map Prod.fst :=
      fun f hf => ⟨(hfs f hf).1, by simp [(hfs f hf).2]⟩
    rw [Action.forEach_cons]
    refine Action.of_bind
      (P := fun q => ∃ fs, WantedDeals p q fs ∧
        ∀ f ∈ fs, f.strategy = n ∧ f.asset ∈ (e :: l).map Prod.fst)
      (fun {u _} hu => ?_) fun {u _} hu => ?_
    · rw [hu] at hfirst
      exact ⟨fs, hfirst, hfs'⟩
    rw [hu] at hfirst hsetup
    obtain ⟨t, ht, hst⟩ := setup_of_get? hsetup.symm hs
    have hrest : ∀ e' ∈ l, t.Wants e'.1 e'.2 := by
      intro e' he'
      refine (hwants e' (List.mem_cons_of_mem e he')).of_setup_eq hst ?_
      rw [← positionOf_of_get? hs, ← positionOf_of_get? ht]
      refine (hfirst.positionOf_eq fun f hf hsame => ?_).symm
      rw [(hfs f hf).2] at hsame
      exact hfresh (hsame.2 ▸ List.mem_map_of_mem he')
    obtain ⟨gs, hsecond, hgs⟩ := ih hl ht hrest
    refine ⟨fs ++ gs, hfirst.trans hsecond hsetup fun f hf g hg hsame => ?_, fun f hf => ?_⟩
    · rw [(hfs f hf).2] at hsame
      exact hfresh (hsame.2 ▸ (hgs g hg).2)
    · rcases List.mem_append.mp hf with hf | hf
      · exact hfs' f hf
      · exact ⟨(hgs f hf).1, List.mem_cons_of_mem _ (hgs f hf).2⟩

theorem wanted_handleSignal {signals : Signals} (ht : p.strategies.get? n = some t)
    (hwants : ∀ {sizes}, t.sizesFor t.sizer d signals p.market p.fx = .ok sizes →
      ∀ e ∈ sizes.toList, t.Wants e.1 e.2) :
    ∃ fs, WantedDeals p (handleSignal d n signals p).1 fs ∧ ∀ f ∈ fs, f.strategy = n := by
  let P : Portfolio → Prop := fun q => ∃ fs, WantedDeals p q fs ∧ ∀ f ∈ fs, f.strategy = n
  have hnone : ∀ {q}, Deals p q [] → P q :=
    fun h => ⟨[], .of_nil h, fun f hf => absurd hf List.not_mem_nil⟩
  refine Action.of_bind (P := P) (fun {u e} hread => ?_) fun {u t'} hread => ?_
  · obtain ⟨rfl, -⟩ := Action.read_eq_error.mp hread
    exact hnone (.refl u)
  obtain ⟨rfl, ht'⟩ := Action.read_eq_ok.mp hread
  obtain rfl : t = t' := Option.some.inj (ht.symm.trans (strategy_eq_ok.mp ht'))
  refine Action.of_bind (P := P) (fun hcount => absurd hcount Action.modify_ne_error) ?_
  intro v _ hcount
  have hv := Action.modify_eq_ok.mp hcount
  have hcounted : Deals u v [] := by
    rw [hv]
    exact .of_eq rfl rfl fun _ _ => rfl
  refine Action.of_bind (P := P) (fun {w e} hsizes => ?_) fun {w sizes} hsizes => ?_
  · obtain ⟨rfl, -⟩ := Action.read_eq_error.mp hsizes
    exact hnone hcounted
  obtain ⟨rfl, hsizes⟩ := Action.read_eq_ok.mp hsizes
  have hget : w.strategies.get? n = some t := by rw [hv, ht]
  have hsizes' : t.sizesFor t.sizer d signals u.market u.fx = .ok sizes := by
    rw [hv] at hsizes
    exact hsizes
  obtain ⟨fs, hdeals, hfs⟩ :=
    wanted_submitTargets (d := d) sizes.nodup hget (hwants hsizes')
  have hsetup : w.setup = u.setup := by
    rw [hv]
    rfl
  exact ⟨fs, .after_nil hcounted hsetup hdeals, fun f hf => (hfs f hf).1⟩

/-- A strategy that signals trades towards what it wants by its signals. -/
theorem wanted_runStrategy (d : Date) (n : String) (p : Portfolio) :
    ∃ fs, WantedDeals p (runStrategy d n p).1 fs ∧ ∀ f ∈ fs, f.strategy = n := by
  let P : Portfolio → Prop := fun q => ∃ fs, WantedDeals p q fs ∧ ∀ f ∈ fs, f.strategy = n
  have hnone : ∀ {q}, Deals p q [] → P q :=
    fun h => ⟨[], .of_nil h, fun f hf => absurd hf List.not_mem_nil⟩
  refine Action.of_bind (P := P) (fun hget => by simp [Action.get] at hget) fun {u p'} hget => ?_
  obtain ⟨rfl, rfl⟩ := Action.get_eq_ok.mp hget
  refine Action.of_bind (P := P) (fun {v e} hfound => hnone (deals_signals hfound).1) ?_
  intro v signals hfound
  obtain ⟨hkept, hsetup⟩ := deals_signals hfound
  split
  swap
  · exact hnone hkept
  obtain ⟨s, t, hs, hsignals, hv⟩ := signals_eq_ok hfound
  have ht : v.strategies.get? n = some t := by simp [hv]
  have hwants : ∀ {sizes}, t.sizesFor t.sizer d signals v.market v.fx = .ok sizes →
      ∀ e ∈ sizes.toList, t.Wants e.1 e.2 := by
    intro sizes hsizes e he
    have hmarket : v.market = p'.market := by rw [hv]
    rw [hmarket] at hsizes
    refine (Strategy.wants_of_sizesFor hsignals hsizes he).of_setup_eq
      (Strategy.setup_signals hsignals).symm ?_
    rw [← positionOf_of_get? hs, ← positionOf_of_get? ht, hkept.positionOf_of_nil]
  obtain ⟨fs, hdeals, hfs⟩ := wanted_handleSignal ht hwants
  exact ⟨fs, .after_nil hkept hsetup hdeals, hfs⟩

/-- The strategies trade one after the other; one that fails is the last. -/
theorem wanted_runStrategies {ns : List String} (hns : ns.Nodup) (p : Portfolio) :
    ∃ fs, WantedDeals p (Action.forEach ns (runStrategy d) p).1 fs ∧ ∀ f ∈ fs, f.strategy ∈ ns := by
  induction ns generalizing p with
  | nil => exact ⟨[], .of_nil (.refl p), fun f hf => absurd hf List.not_mem_nil⟩
  | cons n ns ih =>
    obtain ⟨hfresh, hns⟩ := List.nodup_cons.mp hns
    obtain ⟨fs, hfirst, hfs⟩ := wanted_runStrategy d n p
    have hsetup := (allowsEvents_setup.actions.trading n).runStrategy d p
    rw [Action.forEach_cons]
    refine Action.of_bind
      (P := fun q => ∃ fs, WantedDeals p q fs ∧ ∀ f ∈ fs, f.strategy ∈ n :: ns)
      (fun {u _} hu => ?_) fun {u _} hu => ?_
    · rw [hu] at hfirst
      exact ⟨fs, hfirst, fun f hf => by simp [hfs f hf]⟩
    rw [hu] at hfirst hsetup
    obtain ⟨gs, hsecond, hgs⟩ := ih hns u
    refine ⟨fs ++ gs, hfirst.trans hsecond hsetup fun f hf g hg hsame => ?_, fun f hf => ?_⟩
    · rw [hfs f hf] at hsame
      exact hfresh (hsame.1 ▸ hgs g hg)
    · rcases List.mem_append.mp hf with hf | hf
      · simp [hfs f hf]
      · exact List.mem_cons_of_mem n (hgs f hf)

/-- From the splits of a day to its end, wherever it ends. -/
theorem wanted_handleMarket (day : MarketDay) (p : Portfolio) :
    ∃ fs, WantedDeals (beforeTrading day p) (handleMarket day p).1 fs := by
  unfold beforeTrading handleMarket
  rcases htake : takeIn day p with ⟨p₁, e | _⟩
  · rw [Action.bind_error htake, Action.bind_error htake]
    exact ⟨[], .of_nil (.refl p₁)⟩
  rw [Action.bind_ok htake, Action.bind_ok htake]
  rcases hact : applyCorporateActions day p₁ with ⟨p₂, e | _⟩
  · rw [Action.bind_error hact]
    exact ⟨[], .of_nil (.refl p₂)⟩
  rw [Action.bind_ok hact]
  let P : Portfolio → Prop := fun q => ∃ fs, WantedDeals p₂ q fs
  have hcapital := deals_allocateCapital day.date p₂
  have hsetup := AllowsFunding.allocateCapital allowsEvents_setup.trading day.date p₂
  refine Action.of_bind (P := P) (fun {u e} hallocate => ?_) fun {u _} hallocate => ?_
  · rw [hallocate] at hcapital
    exact ⟨[], .of_nil hcapital⟩
  rw [hallocate] at hcapital hsetup
  refine Action.of_bind (P := P) (fun hget => by simp [Action.get] at hget) fun {v u'} hget => ?_
  obtain ⟨rfl, rfl⟩ := Action.get_eq_ok.mp hget
  have hnames : u'.strategies.keys.Nodup := u'.strategies.nodup
  obtain ⟨fs, hdeals, -⟩ := wanted_runStrategies (d := day.date) hnames u'
  have htraded := WantedDeals.after_nil hcapital hsetup hdeals
  refine Action.of_bind (P := P) (fun {w e} hrun => ?_) fun {w _} hrun => ?_
  · rw [hrun] at htraded
    exact ⟨fs, htraded⟩
  rw [hrun] at htraded
  have hrecorded : Keeps (fun p q => Deals p q []) (do let _ ← recordEquity day.date) :=
    Keeps.bind Deals.isPath_nil (deals_recordEquity day.date) fun _ => Keeps.pure Deals.isPath_nil ()
  exact ⟨fs, htraded.before_nil (hrecorded w)⟩

end Portfolio
end Backtesting
