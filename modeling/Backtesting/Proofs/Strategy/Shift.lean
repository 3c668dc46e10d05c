import Backtesting.Proofs.Chronicle
import Backtesting.Proofs.Decimal.Extended
import Backtesting.Proofs.Market.Rates
import Backtesting.Proofs.Strategy.Worth

/-!
Two days with the same closes and the same rates. What a book is worth is the same number on both of
them, written the same way. A size is computed from the capital, the weight, the close and the rate,
and it comes out the same where the capital is only the same number: however many zeros stand behind
it, all of sums, products, quotients and whole parts come out alike. Errors name the day, so they may
differ.
-/
namespace Backtesting

open Backtesting.Except (Agree Matches)

/-- Errors of two days, of which nothing more is asked. -/
def AnyError (_ _ : Error) : Prop := True

instance : Std.Refl AnyError := ⟨fun _ => trivial⟩

namespace Decimal

/-- What agrees still matches when its faults are errors. -/
theorem matches_lift {α β : Type} {S : α → β → Prop} {x : Except Fault α} {y : Except Fault β}
    (h : Agree S x y) : Matches AnyError S (lift x) (lift y) := by
  cases h with
  | ok h => exact .ok h
  | error f => exact .error trivial

/-- Relations that products and quotients do not break. -/
structure Scales (S : Decimal → Decimal → Prop) : Prop where
  mul : ∀ {a a'} b, S a a' → Agree S (a.mul b) (a'.mul b)
  div : ∀ {a a'} b, S a a' → Agree S (a.div b) (a'.div b)

theorem scales_eq : Scales Eq where
  mul b h := .of_eq (by rw [h])
  div b h := .of_eq (by rw [h])

theorem scales_sameNumber : Scales SameNumber where
  mul b h := agree_mul h b
  div b h := agree_div h b

/-- Whole parts do not depend on how a number is written. -/
theorem SameNumber.floorInt_eq {a a' : Decimal} (h : SameNumber a a') : a.floorInt = a'.floorInt := by
  rcases h with rfl | ⟨ha, ha', hvalue⟩
  · rfl
  · rw [floorInt_of_isFinite ha, floorInt_of_isFinite ha', hvalue]

end Decimal

/-- Two days of two histories with the same closes and the same rates. -/
structure SameQuotes (d d' : Date) (market market' : MarketHistory) (fx fx' : FxHistory) : Prop where
  base : fx'.base = fx.base
  close : ∀ a, (market'.bar? d' a).map (·.close) = (market.bar? d a).map (·.close)
  rate : ∀ c, Matches AnyError Eq (fx.rate d c) (fx'.rate d' c)

namespace SameQuotes

variable {d d' : Date} {market market' : MarketHistory} {fx fx' : FxHistory} {b b' : Book}
  {l : Listings}

theorem matches_requireBar (h : SameQuotes d d' market market' fx fx') (a : Asset) :
    Matches AnyError (fun bar bar' => bar.close = bar'.close) (market.requireBar d a)
      (market'.requireBar d' a) := by
  have hclose := h.close a
  unfold MarketHistory.requireBar
  cases hbar : market.bar? d a with
  | none =>
    rw [hbar, Option.map_none, Option.map_eq_none_iff] at hclose
    rw [hclose]
    exact .error trivial
  | some bar =>
    rw [hbar, Option.map_some, Option.map_eq_some_iff] at hclose
    obtain ⟨bar', hbar', hsame⟩ := hclose
    rw [hbar']
    exact .ok hsame.symm

/-- Amounts are converted at the same rates. -/
theorem matches_convert (h : SameQuotes d d' market market' fx fx')
    {S : Decimal → Decimal → Prop} (hS : Decimal.Scales S) {x x' : Decimal} (hx : S x x')
    (source target : Currency) :
    Matches AnyError S (fx.convert d x source target) (fx'.convert d' x' source target) := by
  unfold FxHistory.convert
  split
  · exact .ok hx
  · refine (h.rate source).bind ?_
    rintro r _ rfl
    refine (Decimal.matches_lift (hS.mul r hx)).bind fun y y' hy => ?_
    rw [h.base]
    split
    · exact .ok hy
    · refine (h.rate target).bind ?_
      rintro r' _ rfl
      exact Decimal.matches_lift (hS.div r' hy)

theorem matches_positionValue (h : SameQuotes d d' market market' fx fx') (base : Currency)
    (total : Decimal) (e : Asset × Int) :
    Matches AnyError Eq (Book.positionValue l d base market fx total e)
      (Book.positionValue l d' base market' fx' total e) := by
  unfold Book.positionValue
  split
  · exact .ok rfl
  · refine (h.matches_requireBar e.1).bind fun bar bar' hclose => ?_
    rw [← hclose]
    refine Matches.bind (.of_eq rfl) ?_
    rintro worth _ rfl
    refine Matches.bind (.of_eq rfl) ?_
    rintro c _ rfl
    refine (h.matches_convert Decimal.scales_eq rfl c base).bind ?_
    rintro converted _ rfl
    exact .of_eq rfl

theorem matches_balanceValue (h : SameQuotes d d' market market' fx fx') (base : Currency)
    (total : Decimal) (e : Currency × Decimal) :
    Matches AnyError Eq (Book.balanceValue d base fx total e)
      (Book.balanceValue d' base fx' total e) := by
  unfold Book.balanceValue
  refine Matches.bind (.of_eq rfl) ?_
  rintro zero _ rfl
  cases zero with
  | true => exact .ok rfl
  | false =>
    refine (h.matches_convert Decimal.scales_eq rfl e.1 base).bind ?_
    rintro converted _ rfl
    exact .of_eq rfl

/-- A book is worth the same on both days. -/
theorem matches_totalValue (h : SameQuotes d d' market market' fx fx') (base : Currency) :
    Matches AnyError Eq (b.totalValue l d base market fx) (b.totalValue l d' base market' fx') := by
  unfold Book.totalValue
  refine Matches.bind (Matches.foldlM (fun total e _ => h.matches_positionValue base total e) _) ?_
  rintro total _ rfl
  exact Matches.foldlM (fun total e _ => h.matches_balanceValue base total e) _

/-- What the same capital pays for at the same close and the same rate is of the same size. -/
theorem matches_size (h : SameQuotes d d' market market' fx fx') {x x' : Decimal}
    (hx : Decimal.SameNumber x x') (weights : Weights) (a : Asset) (s : Signal) :
    Matches AnyError Eq (Sizer.size l d x weights market fx a s)
      (Sizer.size l d' x' weights market' fx' a s) := by
  unfold Sizer.size
  split
  · exact .ok rfl
  refine (h.matches_requireBar a).bind fun bar bar' hclose => ?_
  dsimp only
  rw [← hclose]
  refine Matches.bind (.of_eq rfl) ?_
  rintro low _ rfl
  cases low with
  | true => exact .error trivial
  | false =>
    simp only [Bool.false_eq_true, if_false]
    cases weights.get? a with
    | none => exact .error trivial
    | some weight =>
      simp only [Except.ok_bind]
      refine (Decimal.matches_lift (Decimal.agree_mul hx weight)).bind fun y y' hy => ?_
      refine Matches.bind (.of_eq rfl) ?_
      rintro c _ rfl
      rw [h.base]
      refine (h.matches_convert Decimal.scales_sameNumber hy fx.base c).bind fun z z' hz => ?_
      have hwhole : Agree Eq (z.div bar.close >>= Decimal.floorInt)
          (z'.div bar.close >>= Decimal.floorInt) := by
        have hquotient := Decimal.agree_div hz bar.close
        generalize z.div bar.close = quotient at hquotient
        generalize z'.div bar.close = quotient' at hquotient
        cases hquotient with
        | error f => exact .error f
        | ok hsame => exact .of_eq hsame.floorInt_eq
      refine (Decimal.matches_lift hwhole).bind ?_
      rintro quantity _ rfl
      exact .ok rfl

/-- Sizes by fixed weights are the same where the capital is the same number. -/
theorem matches_sizesFor (h : SameQuotes d d' market market' fx fx')
    (hcapital : Matches AnyError Decimal.SameNumber (Sizer.capital b l d market fx)
      (Sizer.capital b' l d' market' fx'))
    (weights : Weights) (signals : Signals) :
    Matches AnyError Eq ((Sizer.fixedWeight weights).sizesFor b l d signals market fx)
      ((Sizer.fixedWeight weights).sizesFor b' l d' signals market' fx') := by
  unfold Sizer.sizesFor
  split
  · exact .ok rfl
  refine Matches.bind (.of_eq rfl) ?_
  rintro chosen _ rfl
  refine hcapital.bind fun x x' hx => ?_
  refine Matches.bind (Matches.mapM fun e _ => ?_) ?_
  · refine (h.matches_size hx chosen e.1 e.2).bind ?_
    rintro size _ rfl
    exact .ok rfl
  · rintro sizes _ rfl
    exact .ok rfl

end SameQuotes

/-- Rates that could be read on one day can be read on any other. -/
theorem FxHistory.readRate_of_ok {d d' : Date} {e : String × Amount} {c : Currency × Decimal}
    (h : readRate d e = .ok c) : readRate d' e = .ok c := by
  obtain ⟨rate, hrate, h⟩ := Except.bind_eq_ok.mp h
  obtain ⟨low, hlow, h⟩ := Except.bind_eq_ok.mp h
  cases low with
  | true => exact absurd h Except.throw_ne_ok
  | false => exact Except.bind_eq_ok.mpr ⟨rate, hrate, Except.bind_eq_ok.mpr ⟨false, hlow, h⟩⟩

/-- The rates of a day once more. -/
theorem FxHistory.exists_append_again {h g : FxHistory} {d d' : Date}
    {rates : List (String × Amount)} (hg : h.append d rates = .ok g) (hd : d < d') :
    ∃ g', g.append d' rates = .ok g' ∧ g'.base = g.base ∧ g'.rates.get? d' = g.rates.get? d := by
  obtain ⟨read, hread, -, rfl⟩ := append_eq_ok hg
  have hagain : rates.mapM (readRate d') = .ok read :=
    Except.mapM_eq_ok.mpr ((Except.mapM_eq_ok.mp hread).imp fun _ _ => readRate_of_ok)
  have hlater : (h.rates.put d (OrderedMap.ofList read)).later? d' = none :=
    Chronicle.later?_put _ _ fun hd' => Date.lt_irrefl d (Date.lt_trans hd hd')
  refine ⟨⟨h.base, (h.rates.put d (OrderedMap.ofList read)).put d' (OrderedMap.ofList read)⟩, ?_,
    rfl, ?_⟩
  · unfold append
    rw [hlater]
    exact Except.bind_eq_ok.mpr ⟨read, hagain, rfl⟩
  · rw [Chronicle.get?_put_self, Chronicle.get?_put_self]

/-- The closes and the rates of a day once more. -/
theorem SameQuotes.of_append {h g : FxHistory} {d d' : Date} {rates : List (String × Amount)}
    {market : MarketHistory} {bars : Bars} (hg : h.append d rates = .ok g) (hd : d < d')
    (hclose : ∀ a, (bars.get? a).map (·.close) = (market.bar? d a).map (·.close)) :
    ∃ g', g.append d' rates = .ok g' ∧ SameQuotes d d' market ⟨market.bars.put d' bars⟩ g g' := by
  obtain ⟨g', hg', hbase, hrates⟩ := FxHistory.exists_append_again hg hd
  refine ⟨g', hg', hbase, fun a => ?_, fun c => ?_⟩
  · rw [← hclose, MarketHistory.bar?, Chronicle.get?_put_self]
    rfl
  · unfold FxHistory.rate
    rw [hbase, hrates]
    split
    · exact .ok rfl
    · cases g.rates.get? d with
      | none => exact .error trivial
      | some found =>
        cases hfound : found.get? c with
        | none =>
          simp only [hfound]
          exact .error trivial
        | some r =>
          simp only [hfound]
          exact .ok rfl

/-- A target in the base currency is the capital. -/
theorem Sizer.capital_of_target {b : Book} {fx : FxHistory} {x : Decimal}
    (h : b.target = OrderedMap.empty.put fx.base x) (l : Listings) (d : Date)
    (market : MarketHistory) : capital b l d market fx = Decimal.lift (Decimal.zero.add x) := by
  have hlist : b.target.toList = [(fx.base, x)] := by
    rw [h]
    rfl
  unfold capital OrderedMap.isEmpty
  simp only [hlist, List.isEmpty_cons, Bool.false_eq_true, if_false, List.foldlM_cons,
    List.foldlM_nil, FxHistory.convert, if_true, Except.ok_bind, bind_pure]

end Backtesting
