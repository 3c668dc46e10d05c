import Backtesting.Proofs.Document.Json
import Backtesting.Proofs.Document.Schema
import Backtesting.Proofs.OrderedMap
import Backtesting.Snapshot
import Mathlib.Data.List.Nodup

/-!
Snapshots written and read back. A snapshot is sound when no key occurs twice where its text has an
object, and all its decimals can be written; then its text holds all there is to it.
-/
namespace Backtesting

theorem StrategySnapshot.byKey_of_nodup {κ ν : Type} [DecidableEq κ] {l : List (κ × ν)}
    (h : (l.map Prod.fst).Nodup) : StrategySnapshot.byKey l = l := OrderedMap.toList_ofList h

/-- Decimals under distinct keys, all of which can be written. -/
structure IsSoundTable {κ : Type} (l : List (κ × Decimal)) : Prop where
  nodup : (l.map Prod.fst).Nodup
  writable : ∀ e ∈ l, e.2.IsWritable

theorem IsSoundTable.finite {κ : Type} {l : List (κ × Decimal)} (h : IsSoundTable l) :
    ∀ e ∈ l, e.2.IsFinite := fun e he => (h.writable e he).isFinite

def Quote.IsWritable (q : Quote) : Prop :=
  q.opening.IsWritable ∧ q.high.IsWritable ∧ q.low.IsWritable ∧ q.close.IsWritable ∧
    q.adjustedClose.IsWritable ∧ q.dividend.IsWritable ∧ q.split.IsWritable

instance (q : Quote) : Decidable q.IsWritable := by
  unfold Quote.IsWritable
  infer_instance

namespace StrategySnapshot

structure IsSound (s : StrategySnapshot) : Prop where
  positions : (s.positions.map Prod.fst).Nodup
  cash : IsSoundTable s.cash
  target : IsSoundTable s.target
  state : (s.state.map Prod.fst).Nodup
  plain : ∀ f ∈ s.state, f.2.IsPlain

theorem mapping_decimals {l : List (String × Decimal)} (h : IsSoundTable l) (at_ : List String) :
    Schema.mapping some Schema.decimal at_ (decimals l) = .valid l := by
  have hvalid := Schema.mapping_valid (fun e : String × Decimal => (e.1, .text e.2.toText)) id
    (fun e he => ⟨rfl, Schema.decimal_valid (h.writable e he)⟩) at_
  rwa [List.map_id] at hvalid

theorem mapping_positions (l : List (Asset × Int)) (at_ : List String) :
    Schema.mapping some Schema.integer at_ (.object (l.map fun (a, q) => (a, .integer q))) =
      .valid l := by
  have hvalid := Schema.mapping_valid (fun e : Asset × Int => (e.1, .integer e.2)) id
    (fun (e : Asset × Int) (_ : e ∈ l) => ⟨rfl, fun at_ => Schema.integer_valid at_ e.2⟩) at_
  rwa [List.map_id] at hvalid

theorem schema_toDocument {s : StrategySnapshot} (h : s.IsSound) (at_ : List String) :
    schema at_ s.toDocument = .valid s := by
  have hname : s.toDocument.get? "name" = some (.text s.name) := rfl
  have hpositions : s.toDocument.get? "positions" =
      some (.object (s.positions.map fun (a, q) => (a, .integer q))) := rfl
  have hcash : s.toDocument.get? "cash" = some (decimals s.cash) := rfl
  have htarget : s.toDocument.get? "target_capital" = some (decimals s.target) := rfl
  have hstate : s.toDocument.get? "state" = some (.object s.state) := rfl
  show ofFields at_ s.toDocument = .valid s
  rw [ofFields, Schema.required_of_get? hname, Schema.withDefault_of_get? hpositions,
    Schema.withDefault_of_get? hcash, Schema.withDefault_of_get? htarget,
    Schema.withDefault_of_get? hstate, Schema.text_valid, mapping_positions,
    mapping_decimals h.cash, mapping_decimals h.target, Schema.object_valid]
  rfl

theorem isPlain_decimals {l : List (String × Decimal)} (h : IsSoundTable l) :
    (decimals l).IsPlain := by
  rw [decimals, Document.isPlain_object]
  constructor
  · simpa [List.map_map, Function.comp_def] using h.nodup
  · intro f hf
    obtain ⟨e, -, rfl⟩ := List.mem_map.mp hf
    exact Document.isPlain_text _

theorem isPlain_toDocument {s : StrategySnapshot} (h : s.IsSound) : s.toDocument.IsPlain := by
  have hpositions : (Document.object (s.positions.map fun (a, q) => (a, .integer q))).IsPlain := by
    rw [Document.isPlain_object]
    constructor
    · simpa [List.map_map, Function.comp_def] using h.positions
    · intro f hf
      obtain ⟨e, -, rfl⟩ := List.mem_map.mp hf
      exact Document.isPlain_integer _
  have hstate : (Document.object s.state).IsPlain :=
    Document.isPlain_object.mpr ⟨h.state, h.plain⟩
  rw [toDocument, Document.isPlain_object]
  constructor
  · simp only [List.map_cons, List.map_nil]
    decide
  · simp [hpositions, hstate, isPlain_decimals h.cash, isPlain_decimals h.target]

end StrategySnapshot

namespace Snapshot

structure IsSound (s : Snapshot) : Prop where
  strategies : ∀ t ∈ s.strategies, t.IsSound
  equity : IsSoundTable s.equity
  marketDays : (s.market.map Prod.fst).Nodup
  assets : ∀ e ∈ s.market, (e.2.map Prod.fst).Nodup
  quotes : ∀ e ∈ s.market, ∀ b ∈ e.2, b.2.IsWritable
  rateDays : (s.rates.map Prod.fst).Nodup
  rates : ∀ e ∈ s.rates, IsSoundTable e.2

theorem quoteSchema_toDocument {q : Quote} (h : q.IsWritable) (at_ : List String) :
    quoteSchema at_ q.toDocument = .valid q := by
  obtain ⟨hopening, hhigh, hlow, hclose, hadjusted, hdividend, hsplit⟩ := h
  have hget (key : String) (x : Document) (hx : q.fields.lookup key = some x) :
      q.toDocument.get? key = some x := hx
  show quoteFields at_ q.toDocument = .valid q
  rw [quoteFields, Schema.required_of_get? (hget "open" _ rfl),
    Schema.required_of_get? (hget "high" _ rfl), Schema.required_of_get? (hget "low" _ rfl),
    Schema.required_of_get? (hget "close" _ rfl),
    Schema.required_of_get? (hget "adjusted_close" _ rfl),
    Schema.required_of_get? (hget "volume" _ rfl),
    Schema.withDefault_of_get? (hget "dividend_per_share" _ rfl),
    Schema.withDefault_of_get? (hget "split_coefficient" _ rfl)]
  simp only [Decimal.toDocument, Schema.decimal_valid, hopening, hhigh, hlow, hclose, hadjusted,
    hdividend, hsplit, Schema.integer_valid]
  rfl

theorem isPlain_quote (q : Quote) : q.toDocument.IsPlain := by
  rw [Quote.toDocument, Document.isPlain_object]
  constructor
  · simp only [Quote.fields, List.map_cons, List.map_nil]
    decide
  · simp [Quote.fields, Decimal.toDocument]

theorem mapping_equity {l : List (Date × Decimal)} (h : IsSoundTable l) (at_ : List String) :
    Schema.mapping Schema.dateText? Schema.decimal at_
      (.object (l.map fun (d, v) => (d.toText, .text v.toText))) = .valid l := by
  have hvalid := Schema.mapping_valid
    (fun e : Date × Decimal => (e.1.toText, .text e.2.toText)) id
    (fun e he => ⟨Date.dateText?_toText e.1, Schema.decimal_valid (h.writable e he)⟩) at_
  rwa [List.map_id] at hvalid

theorem mapping_quotes {l : List (Asset × Quote)} (h : ∀ b ∈ l, b.2.IsWritable)
    (at_ : List String) :
    Schema.mapping some quoteSchema at_ (.object (l.map fun (a, q) => (a, q.toDocument))) =
      .valid l := by
  have hvalid := Schema.mapping_valid (fun e : Asset × Quote => (e.1, e.2.toDocument)) id
    (fun e he => ⟨rfl, quoteSchema_toDocument (h e he)⟩) at_
  rwa [List.map_id] at hvalid

theorem mapping_market {l : List (Date × List (Asset × Quote))}
    (h : ∀ e ∈ l, ∀ b ∈ e.2, b.2.IsWritable) (at_ : List String) :
    Schema.mapping Schema.dateText? (Schema.mapping some quoteSchema) at_
      (.object (l.map fun (d, bars) =>
        (d.toText, .object (bars.map fun (a, q) => (a, q.toDocument))))) = .valid l := by
  have hvalid := Schema.mapping_valid
    (fun e : Date × List (Asset × Quote) =>
      (e.1.toText, .object (e.2.map fun (a, q) => (a, q.toDocument)))) id
    (fun e he => ⟨Date.dateText?_toText e.1, mapping_quotes (h e he)⟩) at_
  rwa [List.map_id] at hvalid

theorem mapping_rates {l : List (Date × List (String × Decimal))}
    (h : ∀ e ∈ l, IsSoundTable e.2) (at_ : List String) :
    Schema.mapping Schema.dateText? (Schema.mapping some Schema.decimal) at_
      (.object (l.map fun (d, rates) => (d.toText, StrategySnapshot.decimals rates))) =
        .valid l := by
  have hvalid := Schema.mapping_valid
    (fun e : Date × List (String × Decimal) => (e.1.toText, StrategySnapshot.decimals e.2)) id
    (fun e he => ⟨Date.dateText?_toText e.1, StrategySnapshot.mapping_decimals (h e he)⟩) at_
  rwa [List.map_id] at hvalid

theorem list_strategies {l : List StrategySnapshot} (h : ∀ t ∈ l, t.IsSound)
    (at_ : List String) :
    Schema.list StrategySnapshot.schema at_ (.list (l.map StrategySnapshot.toDocument)) =
      .valid l := by
  have hvalid := Schema.list_valid (f := StrategySnapshot.toDocument) (g := id)
    (fun t ht => StrategySnapshot.schema_toDocument (h t ht)) at_
  rwa [List.map_id] at hvalid

theorem ofDocument_toDocument {s : Snapshot} (h : s.IsSound) :
    ofDocument s.toDocument = .ok s := by
  have hname : s.toDocument.get? "name" = some (.text s.name) := rfl
  have hbase : s.toDocument.get? "base_currency" = some (.text s.base) := rfl
  have hstrategies : s.toDocument.get? "strategies" =
      some (.list (s.strategies.map StrategySnapshot.toDocument)) := rfl
  have hequity : s.toDocument.get? "equity_curve" =
      some (.object (s.equity.map fun (d, v) => (d.toText, .text v.toText))) := rfl
  have hmarket : s.toDocument.get? "market_data" = some (.object (s.market.map fun (d, bars) =>
      (d.toText, .object (bars.map fun (a, q) => (a, q.toDocument))))) := rfl
  have hrates : s.toDocument.get? "fx_rates" = some (.object (s.rates.map fun (d, rates) =>
      (d.toText, StrategySnapshot.decimals rates))) := rfl
  have hvalid : schema [] s.toDocument = .valid s := by
    show ofFields [] s.toDocument = .valid s
    rw [ofFields, Schema.required_of_get? hname, Schema.required_of_get? hbase,
      Schema.required_of_get? hstrategies, Schema.withDefault_of_get? hequity,
      Schema.withDefault_of_get? hmarket, Schema.withDefault_of_get? hrates, Schema.text_valid,
      Schema.text_valid, list_strategies h.strategies, mapping_equity h.equity,
      mapping_market h.quotes, mapping_rates h.rates]
    simp only [Checked.map_valid, Checked.seq_valid,
      StrategySnapshot.byKey_of_nodup h.equity.nodup,
      StrategySnapshot.byKey_of_nodup h.marketDays, StrategySnapshot.byKey_of_nodup h.rateDays]
  rw [ofDocument, hvalid, Checked.toExcept]

private theorem nodup_toText {α : Type} {l : List (Date × α)} (h : (l.map Prod.fst).Nodup)
    (f : Date × α → Document) : ((l.map fun e => (e.1.toText, f e)).map Prod.fst).Nodup := by
  have hmap : (l.map fun e => (e.1.toText, f e)).map Prod.fst =
      (l.map Prod.fst).map Date.toText := by
    simp [List.map_map, Function.comp_def]
  rw [hmap]
  exact h.map fun _ _ => Date.toText_injective

theorem isPlain_toDocument {s : Snapshot} (h : s.IsSound) : s.toDocument.IsPlain := by
  have hstrategies : (Document.list (s.strategies.map StrategySnapshot.toDocument)).IsPlain := by
    rw [Document.isPlain_list]
    intro x hx
    obtain ⟨t, ht, rfl⟩ := List.mem_map.mp hx
    exact StrategySnapshot.isPlain_toDocument (h.strategies t ht)
  have hequity : (Document.object
      (s.equity.map fun (d, v) => (d.toText, .text v.toText))).IsPlain := by
    rw [Document.isPlain_object]
    refine ⟨nodup_toText h.equity.nodup fun e => .text e.2.toText, ?_⟩
    intro f hf
    obtain ⟨e, -, rfl⟩ := List.mem_map.mp hf
    exact Document.isPlain_text _
  have hmarket : (Document.object (s.market.map fun (d, bars) =>
      (d.toText, .object (bars.map fun (a, q) => (a, q.toDocument))))).IsPlain := by
    rw [Document.isPlain_object]
    refine ⟨nodup_toText h.marketDays fun e =>
      .object (e.2.map fun (a, q) => (a, q.toDocument)), ?_⟩
    intro f hf
    obtain ⟨e, he, rfl⟩ := List.mem_map.mp hf
    rw [Document.isPlain_object]
    constructor
    · simpa [List.map_map, Function.comp_def] using h.assets e he
    · intro g hg
      obtain ⟨b, -, rfl⟩ := List.mem_map.mp hg
      exact isPlain_quote b.2
  have hrates : (Document.object (s.rates.map fun (d, rates) =>
      (d.toText, StrategySnapshot.decimals rates))).IsPlain := by
    rw [Document.isPlain_object]
    refine ⟨nodup_toText h.rateDays fun e => StrategySnapshot.decimals e.2, ?_⟩
    intro f hf
    obtain ⟨e, he, rfl⟩ := List.mem_map.mp hf
    exact StrategySnapshot.isPlain_decimals (h.rates e he)
  rw [toDocument, Document.isPlain_object]
  constructor
  · simp only [List.map_cons, List.map_nil]
    decide
  · simp [hstrategies, hequity, hmarket, hrates]

/-- The text of a sound snapshot is read back as the snapshot. -/
theorem ofJson_toJson {s : Snapshot} (h : s.IsSound) : ofJson s.toJson = .ok s := by
  have hlayout : layout.asciiOnly = false := rfl
  rw [ofJson, toJson, Document.Json.parse?_render hlayout (isPlain_toDocument h)]
  exact ofDocument_toDocument h

end Snapshot
end Backtesting
