import Backtesting.Metrics
import Backtesting.Proofs.Chronicle
import Backtesting.Proofs.Decimal.Domain
import Backtesting.Proofs.Decimal.Text
import Backtesting.Proofs.Document.JsonToken
import Backtesting.Proofs.Portfolio.Setup
import Backtesting.Proofs.Tearsheet
import Backtesting.Replay

/-!
A result beside the portfolio it comes from. Its curves make the tearsheet of the portfolio, since
the benchmark matters only on the days of the curve, and there the result has all of it. Its rows
are text, but every number in them is read back as it was, so the sums over the rows are the sums
over the fills.
-/
namespace Backtesting

section Curves

variable {α : Type} {read : α → Except Error Float} {equity : Curve α}

theorem Curve.beside_congr {b b' : Curve α} (h : ∀ d ∈ equity.keys, b.get? d = b'.get? d) :
    equity.beside b = equity.beside b' := by
  apply List.filterMap_congr
  intro e he
  rw [h e.1 (List.mem_map_of_mem he)]

theorem Relative.ofCurves_congr {b b' : Curve α} (h : ∀ d ∈ equity.keys, b.get? d = b'.get? d) :
    ofCurves read equity b = ofCurves read equity b' := by
  rw [ofCurves_eq, ofCurves_eq, Curve.beside_congr h]

/-- A tearsheet sees no more of the benchmark than the days of the curve. -/
theorem Tearsheet.ofCurves_congr {benchmark benchmark' : Option (Curve α)}
    (h : Option.Rel (fun b b' => ∀ d ∈ equity.keys, b.get? d = b'.get? d) benchmark benchmark') :
    ofCurves read equity benchmark = ofCurves read equity benchmark' := by
  cases h with
  | none => rfl
  | some hdays => rw [ofCurves, ofCurves, Option.mapM_some, Option.mapM_some,
      Relative.ofCurves_congr hdays]

end Curves

/-- Some keys with the values they have, if any. -/
theorem OrderedMap.get?_ofList_filterMap {κ ν : Type} [DecidableEq κ] {l : List κ} (hl : l.Nodup)
    (f : κ → Option ν) {k : κ} (hk : k ∈ l) :
    (ofList (l.filterMap fun k => (f k).map (k, ·))).get? k = f k := by
  have hkeys : ((l.filterMap fun k => (f k).map (k, ·)).map Prod.fst).Nodup := by
    have hfst : (fun k => ((f k).map (k, ·)).map Prod.fst) = Option.guard fun k => (f k).isSome := by
      funext k
      cases hf : f k <;> simp [Option.guard, hf]
    rw [List.map_filterMap, hfst, List.filterMap_eq_filter]
    exact hl.filter _
  ext v
  rw [get?_eq_some_iff, toList_ofList hkeys, List.mem_filterMap]
  constructor
  · rintro ⟨j, -, hj⟩
    obtain ⟨w, hw, heq⟩ := Option.map_eq_some_iff.mp hj
    obtain ⟨rfl, rfl⟩ := Prod.mk.inj heq
    exact hw
  · intro hv
    exact ⟨k, hk, by rw [hv]; rfl⟩

theorem Chronicle.get?_ofList_days {ν : Type} (c : Chronicle ν) (d : Date) :
    (OrderedMap.ofList c.days).get? d = c.get? d := by
  ext v
  rw [OrderedMap.get?_eq_some_iff, OrderedMap.toList_ofList (Date.nodup_of_ascending c.ascending),
    Chronicle.get?_eq_some_iff]

namespace Result

variable (p : Portfolio) (benchmark : Option Portfolio) (sheet : Option Tearsheet)

theorem equityCurve_ofPortfolio :
    (ofPortfolio p benchmark sheet).equityCurve = OrderedMap.ofList p.equity.points := by
  have hzip : p.equity.values.dates.zip p.equity.values.values = p.equity.points := by
    rw [Chronicle.dates, Chronicle.values, List.zip_map']
    exact List.map_id _
  exact congrArg OrderedMap.ofList hzip

theorem benchmarkCurve_ofPortfolio : (ofPortfolio p benchmark sheet).benchmarkCurve =
    benchmark.map fun b => OrderedMap.ofList
      (p.equity.values.dates.filterMap fun d => (b.equity.values.get? d).map (d, ·)) := by
  cases benchmark with
  | none => rfl
  | some b =>
    have hzip : p.equity.values.dates.zip (p.equity.values.dates.map b.equity.values.get?) =
        p.equity.values.dates.map fun d => (d, b.equity.values.get? d) := by
      simpa using List.zip_map' (f := id) (g := b.equity.values.get?) (l := p.equity.values.dates)
    show some (OrderedMap.ofList _) = some (OrderedMap.ofList _)
    rw [show (ofPortfolio p (some b) sheet).dates = p.equity.values.dates from rfl, hzip,
      List.filterMap_map]
    rfl

/-- The figures of a stored result are those of the curves of the portfolios. -/
theorem figures_agree (r : Replay) :
    Collector.tearsheet.compute (ofPortfolio r.portfolio r.benchmark none) =
      r.tearsheet.map Metrics.ofTearsheet := by
  have hdays : Tearsheet.ofCurves Tearsheet.readDecimal
      (ofPortfolio r.portfolio r.benchmark none).equityCurve
      (ofPortfolio r.portfolio r.benchmark none).benchmarkCurve = r.tearsheet := by
    rw [equityCurve_ofPortfolio, benchmarkCurve_ofPortfolio, Replay.tearsheet]
    apply Tearsheet.ofCurves_congr
    cases r.benchmark with
    | none => exact Option.Rel.none
    | some b =>
      have hnodup := Date.nodup_of_ascending r.portfolio.equity.values.ascending
      refine Option.Rel.some fun d hd => ?_
      exact (OrderedMap.get?_ofList_filterMap hnodup b.equity.values.get?
        (OrderedMap.mem_keys_ofList.mp hd)).trans (Chronicle.get?_ofList_days b.equity.values d).symm
  show (do pure (Metrics.ofTearsheet (← Tearsheet.ofCurves _ _ _))) = _
  rw [hdays]
  rfl

end Result

namespace Binary64

theorem withoutSeparators?_eq_self {cs : List Char} (h : ∀ c ∈ cs, c ≠ '_') :
    withoutSeparators? cs = some cs := by
  fun_induction withoutSeparators? cs <;> simp_all

theorem asciiDigit_of_isDigit {c : Char} (h : c.isDigit = true) : asciiDigit c = c := by
  obtain ⟨hlow, -⟩ := Text.isDigit_iff.mp h
  have hcode : '0'.toNat + (c.toNat - '0'.toNat) = c.toNat := Nat.add_sub_of_le hlow
  rw [asciiDigit, Text.digitValue?_of_isDigit h]
  show Char.ofNat ('0'.toNat + (c.toNat - '0'.toNat)) = c
  rw [hcode, Char.ofNat_toNat]

end Binary64

/-- A whole number is read back from its text. -/
theorem Document.intOfText_toString (i : Int) : intOfText (toString i) = .ok i := by
  have hchar : ∀ c ∈ Json.integerChars i,
      Text.isBlank c = false ∧ Binary64.asciiDigit c = c ∧ c ≠ '_' := by
    intro c hc
    rcases Json.isDigit_or_minus_of_mem hc with hdigit | rfl
    · refine ⟨Text.isBlank_of_isDigit hdigit, Binary64.asciiDigit_of_isDigit hdigit, ?_⟩
      rintro rfl
      exact absurd hdigit (by decide)
    · decide
  have hself : (Json.integerChars i).map Binary64.asciiDigit = Json.integerChars i := by
    rw [List.map_congr_left fun c hc => (hchar c hc).2.1, List.map_id']
  have hread : (Binary64.withoutSeparators? ((Text.trimList (toString i).toList).map
      Binary64.asciiDigit)).bind Binary64.signedInt? = some i := by
    rw [Json.toList_toString_int, Text.trimList_of_forall fun c hc => (hchar c hc).1, hself,
      Binary64.withoutSeparators?_eq_self fun c hc => (hchar c hc).2.2, Option.bind_some,
      Json.signedInt?_integerChars]
  rw [intOfText, hread]

namespace FillRow

variable {f : Fill}

theorem decimal_price (h : f.price.IsWritable) : (ofFill f).decimal "fill_price" = .ok f.price := by
  have hfield : (ofFill f).field "fill_price" = .ok f.price.toText := rfl
  rw [decimal, hfield, Except.ok_bind, Decimal.ofText_toText h, Decimal.lift_ok]

theorem decimal_commission (h : f.commission.IsWritable) :
    (ofFill f).decimal "commission" = .ok f.commission := by
  have hfield : (ofFill f).field "commission" = .ok f.commission.toText := rfl
  rw [decimal, hfield, Except.ok_bind, Decimal.ofText_toText h, Decimal.lift_ok]

theorem quantity_ofFill (f : Fill) : (ofFill f).quantity = .ok f.quantity := by
  have hfield : (ofFill f).field "quantity" = .ok (toString f.quantity) := rfl
  rw [quantity, hfield, Except.ok_bind, Document.intOfText_toString]

end FillRow

theorem Decimal.lift_bind {α β : Type} (x : Except Fault α) (f : α → Except Fault β) :
    lift (x >>= f) = lift x >>= fun a => lift (f a) := by
  cases x <;> rfl

namespace Fill

open Backtesting.Except (Gives)

variable {fills : List Fill}

/-- Finite commissions have a finite sum, or one that is too large. -/
theorem gives_paid (h : ∀ f ∈ fills, f.commission.IsFinite) :
    Gives Decimal.Domain.finite.Faults Decimal.IsFinite
      (fills.foldlM (fun sum f => sum.add f.commission) Decimal.zero) :=
  Gives.foldlM (fun _ hsum f hf => Decimal.Domain.finite.add hsum (h f hf)) trivial

theorem gives_traded (h : ∀ f ∈ fills, f.price.IsFinite) :
    Gives Decimal.Domain.finite.Faults Decimal.IsFinite (fills.foldlM
      (fun sum f => do sum.add (← f.price.mul (Decimal.ofInt f.quantity))) Decimal.zero) :=
  Gives.foldlM (fun _ hsum f hf =>
    Gives.bind (Decimal.Domain.finite.mul (h f hf) (Decimal.Domain.finite.ofInt f.quantity))
      fun _ hworth => Decimal.Domain.finite.add hsum hworth) trivial

end Fill

namespace Metrics

variable {fills : List Fill}

/-- Amounts that are read back from the rows have the sum that they have without the rows. -/
theorem total_rows {amount : FillRow → Except Error Decimal}
    (worth : Fill → Except Decimal.Fault Decimal)
    (h : ∀ f ∈ fills, amount (.ofFill f) = Decimal.lift (worth f)) :
    total amount (fills.map FillRow.ofFill) =
      Decimal.lift (fills.foldlM (fun sum f => do sum.add (← worth f)) Decimal.zero) := by
  rw [total]
  generalize Decimal.zero = start
  induction fills generalizing start with
  | nil => rfl
  | cons f fills ih =>
    have hsum : (do Decimal.lift (start.add (← amount (.ofFill f)))) =
        Decimal.lift (do start.add (← worth f)) := by
      rw [h f List.mem_cons_self, Decimal.lift_bind]
    rw [List.map_cons, List.foldlM_cons, List.foldlM_cons, hsum]
    have hrest := ih fun g hg => h g (List.mem_cons_of_mem f hg)
    exact (bind_congr hrest).trans (Decimal.lift_bind _ _).symm

variable {r : Result} {m : Metrics}

/-- The figures of trades show the sums over the rows. -/
theorem sums_of_ofTrades (h : ofTrades r = .ok m) :
    ∃ commission worth x y, total (·.decimal "commission") r.fills = .ok commission ∧
      total turnover r.fills = .ok worth ∧ commission.toFloat = .ok x ∧ worth.toFloat = .ok y ∧
      m.get? "total_commission" = some (.real x) ∧ m.get? "turnover" = some (.real y) := by
  obtain ⟨commission, hcommission, h⟩ := Except.bind_eq_ok.mp h
  obtain ⟨worth, hworth, h⟩ := Except.bind_eq_ok.mp h
  obtain ⟨x, hx, h⟩ := Except.bind_eq_ok.mp h
  obtain ⟨y, hy, h⟩ := Except.bind_eq_ok.mp h
  obtain ⟨first, -, h⟩ := Except.bind_eq_ok.mp h
  obtain ⟨last, -, h⟩ := Except.bind_eq_ok.mp h
  obtain rfl := Except.pure_eq_ok.mp h
  exact ⟨commission, worth, x, y, hcommission, hworth, Decimal.lift_eq_ok.mp hx,
    Decimal.lift_eq_ok.mp hy, rfl, rfl⟩

theorem exists_readEquity {o : Option Decimal} (h : ∀ x ∈ o, x.IsFinite) :
    ∃ y, readEquity o = .ok y := by
  cases o with
  | none => exact ⟨0, rfl⟩
  | some x =>
    obtain ⟨n, c, e, rfl⟩ := Decimal.isFinite_iff.mp (h x rfl)
    exact ⟨_, rfl⟩

/-- There are figures of trades where there are finite sums and finite values. -/
theorem exists_ofTrades {commission worth : Decimal}
    (hcommission : total (·.decimal "commission") r.fills = .ok commission)
    (hworth : total turnover r.fills = .ok worth) (hfinite : commission.IsFinite ∧ worth.IsFinite)
    (hequity : ∀ x ∈ r.equity, x.IsFinite) : ∃ m, ofTrades r = .ok m := by
  obtain ⟨n, c, e, rfl⟩ := Decimal.isFinite_iff.mp hfinite.1
  obtain ⟨n', c', e', rfl⟩ := Decimal.isFinite_iff.mp hfinite.2
  obtain ⟨first, hfirst⟩ :=
    exists_readEquity fun x hx => hequity x (List.mem_of_mem_head? hx)
  obtain ⟨last, hlast⟩ :=
    exists_readEquity fun x hx => hequity x (List.mem_of_mem_getLast? hx)
  exact ⟨_, Except.bind_eq_ok.mpr ⟨_, hcommission, Except.bind_eq_ok.mpr ⟨_, hworth,
    Except.bind_eq_ok.mpr ⟨_, rfl, Except.bind_eq_ok.mpr ⟨_, rfl, Except.bind_eq_ok.mpr
      ⟨first, hfirst, Except.bind_eq_ok.mpr ⟨last, hlast, rfl⟩⟩⟩⟩⟩⟩⟩

end Metrics

namespace Result

/-- Every number of a fill is read back from its row as it was, to the last zero and with its sign.
So the figures of trades show, as floats, the sums of commissions and of prices times quantities over
the fills themselves; where these sums are not too large, and the values of the curve are finite,
there are such figures. -/
theorem rows_read_back {p : Portfolio}
    (h : ∀ f ∈ p.fills, f.price.IsWritable ∧ f.commission.IsWritable)
    (benchmark : Option Portfolio) (sheet : Option Tearsheet) :
    let r := ofPortfolio p benchmark sheet
    let paid := p.fills.foldlM (fun sum f => sum.add f.commission) Decimal.zero
    let traded := p.fills.foldlM
      (fun sum f => do sum.add (← f.price.mul (Decimal.ofInt f.quantity))) Decimal.zero
    List.Forall₂ (fun row f => row.decimal "fill_price" = .ok f.price ∧
        row.decimal "commission" = .ok f.commission ∧ row.quantity = .ok f.quantity)
      r.fills p.fills ∧
    Metrics.total (·.decimal "commission") r.fills = Decimal.lift paid ∧
    Metrics.total Metrics.turnover r.fills = Decimal.lift traded ∧
    (∀ m, Collector.trades.compute r = .ok m → ∃ commission turnover x y,
      paid = .ok commission ∧ commission.toFloat = .ok x ∧
        m.get? "total_commission" = some (.real x) ∧
      traded = .ok turnover ∧ turnover.toFloat = .ok y ∧ m.get? "turnover" = some (.real y)) ∧
    ((∃ commission, paid = .ok commission) → (∃ turnover, traded = .ok turnover) →
      (∀ x ∈ r.equity, x.IsFinite) → ∃ m, Collector.trades.compute r = .ok m) ∧
    (∀ x : Decimal, x.IsWritable → (Document.text x.toText).toDecimal = .ok x) ∧
    ∀ x : Decimal, x.IsWritable ↔ x.IsFinite ∧ ∃ s, Decimal.ofText s = .ok x := by
  intro r paid traded
  have hpaid : Metrics.total (·.decimal "commission") r.fills = Decimal.lift paid :=
    Metrics.total_rows (fun f => .ok f.commission) fun f hf =>
      FillRow.decimal_commission (h f hf).2
  have htraded : Metrics.total Metrics.turnover r.fills = Decimal.lift traded := by
    refine Metrics.total_rows (fun f => f.price.mul (Decimal.ofInt f.quantity)) ?_
    intro f hf
    rw [Metrics.turnover, FillRow.decimal_price (h f hf).1, FillRow.quantity_ofFill]
    rfl
  refine ⟨?_, hpaid, htraded, fun m hm => ?_, ?_, ?_, fun _ => Decimal.isWritable_iff⟩
  · show List.Forall₂ _ (p.fills.map FillRow.ofFill) p.fills
    rw [List.forall₂_map_left_iff, List.forall₂_same]
    intro f hf
    exact ⟨FillRow.decimal_price (h f hf).1, FillRow.decimal_commission (h f hf).2,
      FillRow.quantity_ofFill f⟩
  · obtain ⟨commission, turnover, x, y, hcommission, hturnover, hx, hy, hfirst, hsecond⟩ :=
      Metrics.sums_of_ofTrades hm
    rw [hpaid, Decimal.lift_eq_ok] at hcommission
    rw [htraded, Decimal.lift_eq_ok] at hturnover
    exact ⟨commission, turnover, x, y, hcommission, hx, hfirst, hturnover, hy, hsecond⟩
  · rintro ⟨commission, hcommission⟩ ⟨turnover, hturnover⟩ hequity
    refine Metrics.exists_ofTrades (hpaid.trans (Decimal.lift_eq_ok.mpr hcommission))
      (htraded.trans (Decimal.lift_eq_ok.mpr hturnover)) ⟨?_, ?_⟩ hequity
    · exact (Fill.gives_paid fun f hf => (h f hf).2.isFinite).value commission hcommission
    · exact (Fill.gives_traded fun f hf => (h f hf).1.isFinite).value turnover hturnover
  · intro x hx
    show Decimal.lift (Decimal.ofText x.toText) = .ok x
    rw [Decimal.ofText_toText hx, Decimal.lift_ok]

/-- A price in scientific notation with a zero at its end, and a commission that is a negative zero. -/
theorem rows_read_back_scientific :
    let price : Decimal := .finite false 1230 4
    let commission : Decimal := .finite true 0 (-9)
    let fill : Fill := ⟨⟨2024, 1, 2, by decide, by decide, by decide⟩, "A", "A", .buy, price, 7,
      commission⟩
    let r := ofPortfolio { Portfolio.holding ["A"] with fills := [fill] } none none
    price.toText = "1.230E+7" ∧ commission.toText = "-0E-9" ∧
      r.fills.map (·.decimal "fill_price") = [.ok price] ∧
      r.fills.map (·.decimal "commission") = [.ok commission] ∧
      r.fills.map (·.quantity) = [.ok 7] ∧
      ∃ m x y, Collector.trades.compute r = .ok m ∧
        (Decimal.finite false 0 (-9)).toFloat = .ok x ∧
        m.get? "total_commission" = some (.real x) ∧
        (Decimal.finite false 86100000 0).toFloat = .ok y ∧ m.get? "turnover" = some (.real y) := by
  intro price commission fill r
  have hfills : ∀ f ∈ [fill], f.price.IsWritable ∧ f.commission.IsWritable := by decide
  obtain ⟨hrows, -, -, hsums, hexists, -⟩ :=
    rows_read_back (p := { Portfolio.holding ["A"] with fills := [fill] }) hfills none none
  obtain ⟨⟨hprice, hcommission, hquantity⟩, -⟩ := List.forall₂_cons.mp hrows
  have hpaid : [fill].foldlM (fun sum f => sum.add f.commission) Decimal.zero =
      .ok (.finite false 0 (-9)) := rfl
  have htraded : [fill].foldlM (fun sum f => do
      sum.add (← f.price.mul (Decimal.ofInt f.quantity))) Decimal.zero =
        .ok (.finite false 86100000 0) := by decide +kernel
  obtain ⟨m, hm⟩ := hexists ⟨_, hpaid⟩ ⟨_, htraded⟩ fun x hx => absurd hx List.not_mem_nil
  obtain ⟨paid, traded, x, y, hpaid', hx, hfirst, htraded', hy, hsecond⟩ := hsums m hm
  obtain rfl := Except.ok.inj (hpaid.symm.trans hpaid')
  obtain rfl := Except.ok.inj (htraded.symm.trans htraded')
  refine ⟨by decide +kernel, by decide +kernel, ?_, ?_, ?_, m, x, y, hm, hx, hfirst, hy, hsecond⟩
  · exact congrArg (fun x => [x]) hprice
  · exact congrArg (fun x => [x]) hcommission
  · exact congrArg (fun x => [x]) hquantity

end Result
end Backtesting
