import Backtesting.Proofs.Market.Report

/-!
What is fetched from tables. A feed says what the rows of what is wanted say: its days ascend, a day
is there if it has a row and no row up to it is unreadable, and of several rows for one key the last
one of the table counts. So the order of the rows matters only where a day has two of them for one
key, and rows of nothing wanted do not matter once their dates are read.
-/
namespace Backtesting

namespace MarketTables

section Bars

variable (t : MarketTables) (assets : List Asset)

/-- The rows of wanted assets. -/
def barRows : List DatedRow := t.bars.filter fun r => assets.contains r.asset

/-- The last of some rows, apart from those that another one of them comes after by its cell. A number
and the text of that number are cells of one asset. -/
def lastRow (rows : List DatedRow) : Option DatedRow :=
  (rows.filter fun r => rows.all fun s => s.precedes r).getLast?

/-- Where no row comes after another one by its cell, the last row of the table counts. -/
theorem lastRow_of_alike {rows : List DatedRow}
    (h : ∀ r ∈ rows, ∀ s ∈ rows, r.standing = s.standing) : lastRow rows = rows.getLast? := by
  have hall : rows.filter (fun r => rows.all fun s => s.precedes r) = rows := by
    refine List.filter_eq_self.mpr fun r hr => List.all_eq_true.mpr fun s hs => ?_
    exact DatedRow.precedes_iff.mpr (le_of_eq (h s hs r hr))
  rw [lastRow, hall]

variable {rows : List DatedRow} {d : Date} {a : Asset}

theorem getLast?_rowsOn (rows : List DatedRow) (d : Date) (a : Asset) :
    ((rowsOn rows d).filter (·.asset = a)).getLast? =
      lastRow (rowsFor rows (fun r a => r.asset = a) d a) := by
  have hrows : (rows.filter (·.asset = a)).filter (·.date = d) =
      rowsFor rows (fun r a => r.asset = a) d a := by
    simp [List.filter_filter, rowsFor]
  rw [filter_rowsOn, rowsOn, hrows,
    getLast?_mergeSort DatedRow.precedes_trans DatedRow.precedes_total, lastRow]

theorem pairwise_rowsOn (rows : List DatedRow) (d : Date) :
    (rowsOn rows d).Pairwise fun r s => r.standing ≤ s.standing := by
  have hsorted := List.pairwise_mergeSort DatedRow.precedes_trans DatedRow.precedes_total
    (rows.filter (·.date = d))
  exact hsorted.imp DatedRow.precedes_iff.mp

/-- An entry of a day: the asset of a row with its bar. -/
def barEntry (r : DatedRow) : Except Error (Asset × Bar) := do
  let bar ← r.bar
  pure (r.asset, bar)

theorem barEntry_eq_ok {r : DatedRow} {a : Asset} {b : Bar} :
    barEntry r = .ok (a, b) ↔ r.asset = a ∧ r.Describes b.toQuote := by
  unfold barEntry
  rw [Except.bind_eq_ok, ← DatedRow.bar_eq_ok]
  constructor
  · intro h
    obtain ⟨b', hb', h⟩ := h
    obtain ⟨rfl, rfl⟩ := Prod.mk.inj (Except.pure_eq_ok.mp h)
    exact ⟨rfl, hb'⟩
  · intro h
    obtain ⟨rfl, hb⟩ := h
    exact ⟨b, hb, rfl⟩

theorem label_of_barEntry {r : DatedRow} {e : Error} (h : barEntry r = .error e) :
    e.label? = some "MarketDataRetrievalError" := by
  rcases Except.bind_eq_error.mp h with h | ⟨b, -, h⟩
  · unfold DatedRow.bar at h
    cases hread : r.readQuote >>= Bar.ofQuote with
    | ok b =>
      rw [hread] at h
      cases h
    | error e' =>
      rw [hread] at h
      cases h
      rfl
  · cases h

theorem reports_barFeed :
    Reports (t.barRows assets) (fun r a => r.asset = a) (fun r b => r.Describes b.toQuote)
      lastRow (t.barFeed assets) :=
  reports_mapUntil barEntry_eq_ok (fun h h' => h.symm.trans h') (fun r _ => ⟨r.asset, rfl⟩)
    (fun _ _ _ => label_of_barEntry) mem_rowsOn (getLast?_rowsOn _)

/-- Some row of the first asset on a day stands no later than all rows of the second one. -/
def StandsBefore (rows : List DatedRow) (d : Date) (a b : Asset) : Prop :=
  ∃ r ∈ rows, r.date = d ∧ r.asset = a ∧
    ∀ s ∈ rows, s.date = d → s.asset = b → r.standing ≤ s.standing

theorem standsBefore_of_comesFirst {b : Asset}
    (h : ComesFirst (rowsOn rows d) (fun r a => r.asset = a) a b) : StandsBefore rows d a b := by
  obtain ⟨before, r, after, hrows, hr, hbefore⟩ := h
  have hsorted := pairwise_rowsOn rows d
  have hmem : r ∈ rowsOn rows d := by simp [hrows]
  obtain ⟨hr', hd⟩ := mem_rowsOn.mp hmem
  refine ⟨r, hr', hd, hr, ?_⟩
  intro s hs hsd hsb
  have hs' : s ∈ rowsOn rows d := mem_rowsOn.mpr ⟨hs, hsd⟩
  rw [hrows] at hs' hsorted
  rcases List.mem_append.mp hs' with hearly | hlate
  · exact absurd hsb (hbefore s hearly)
  · rcases List.mem_cons.mp hlate with rfl | hlate
    · exact le_refl _
    · exact (List.pairwise_cons.mp (List.pairwise_append.mp hsorted).2.1).1 s hlate

variable {t : MarketTables} {assets : List Asset} {bars : Bars}

/-- The assets of a day come in the order of their cells. -/
theorem pairwise_assets (hbars : (d, bars) ∈ (t.barFeed assets).items) :
    bars.keys.Pairwise (StandsBefore (t.barRows assets) d) := by
  have hfirst : bars.keys.Pairwise
      (ComesFirst (rowsOn (t.barRows assets) d) fun r a => r.asset = a) :=
    pairwise_keys_readDay barEntry_eq_ok (fun h h' => h.symm.trans h')
      (barsOn_of_mem_barFeed hbars)
  exact hfirst.imp standsBefore_of_comesFirst

theorem standing_of_text {r : DatedRow} {s : String} (h : r.cell "asset" = .text s) :
    r.standing = toLex (3, toLex (0, r.asset)) := by
  simp [DatedRow.asset, DatedRow.standing, DatedRow.rank, h, Document.plainText]

/-- Where the cells of the assets are texts, the assets of a day ascend. -/
theorem ascending_assets
    (htexts : ∀ r ∈ t.barRows assets, r.date = d → ∃ s, r.cell "asset" = .text s)
    (hbars : (d, bars) ∈ (t.barFeed assets).items) : bars.keys.Pairwise (· < ·) := by
  have hsorted := (pairwise_assets hbars).and bars.nodup
  refine hsorted.imp_of_mem ?_
  intro a b _ hb hab
  obtain ⟨r, hr, hrd, rfl, hbefore⟩ := hab.1
  obtain ⟨s, hs, hsd, rfl⟩ := ((reports_barFeed t assets).keys d bars hbars b).mp hb
  obtain ⟨x, hx⟩ := htexts r hr hrd
  obtain ⟨y, hy⟩ := htexts s hs hsd
  have hle := hbefore s hs hsd rfl
  rw [standing_of_text hx, standing_of_text hy] at hle
  have hassets : r.asset ≤ s.asset := by simpa [Prod.Lex.toLex_le_toLex] using hle
  exact lt_of_le_of_ne hassets hab.2

end Bars

section Rates

variable {t : MarketTables} {currencies : List Currency} {d : Date}

theorem rateFeed_eq : t.rateFeed (currencies.map fun c => .text c.code) =
    Feed.mapUntil (ratesOn (t.rateRows currencies))
      (Date.sortedSet ((t.rateRows currencies).map DatedRow.date)) := by
  rw [rateFeed_codes, rateRows]
  cases t.fx with
  | none => rfl
  | some rows => rfl

theorem exists_currency {r : DatedRow} (h : r ∈ t.rateRows currencies) :
    ∃ c : Currency, r.currencyCode = c.code := by
  obtain ⟨c, -, hc⟩ := List.any_eq_true.mp (List.mem_filter.mp h).2
  exact ⟨c, (of_decide_eq_true hc).symm⟩

theorem currency_unique {r : DatedRow} {b c : Currency} (h : r.currencyCode = b.code)
    (h' : r.currencyCode = c.code) : b = c := Currency.code_inj.mp (h.symm.trans h')

theorem label_of_rate {r : DatedRow} (h : r ∈ t.rateRows currencies) {e : Error}
    (he : r.rate = .error e) : e.label? = some "MarketDataRetrievalError" := by
  obtain ⟨c, hc⟩ := exists_currency h
  unfold DatedRow.rate at he
  rw [hc, Currency.ofCode_code, Except.ok_bind] at he
  cases hread : (r.cell "rate").toDecimal with
  | ok x =>
    rw [hread] at he
    cases he
  | error e' =>
    rw [hread] at he
    cases he
    rfl

theorem reports_rateFeed :
    Reports (t.rateRows currencies) (fun r (c : Currency) => r.currencyCode = c.code)
      (fun r x => (r.cell "rate").toDecimal = .ok x) List.getLast?
      (t.rateFeed (currencies.map fun c => .text c.code)) := by
  rw [rateFeed_eq]
  refine reports_mapUntil DatedRow.rate_eq_ok currency_unique (fun _ => exists_currency)
    (fun _ hr _ => label_of_rate hr) (by simp) fun d c => ?_
  rw [List.filter_filter, rowsFor]
  simp only [Bool.decide_and, Bool.and_comm]

/-- The currencies of a day come in the order of their first rows. -/
theorem pairwise_currencies {rates : OrderedMap Currency Decimal}
    (h : (d, rates) ∈ (t.rateFeed (currencies.map fun c => .text c.code)).items) :
    rates.keys.Pairwise (ComesFirst ((t.rateRows currencies).filter (·.date = d))
      fun r c => r.currencyCode = c.code) := by
  rw [rateFeed_eq] at h
  obtain ⟨d', -, hd'⟩ := Feed.exists_of_mem_mapUntil h
  obtain rfl : d = d' := (ratesOn_eq_ok hd').1
  exact pairwise_keys_readDay DatedRow.rate_eq_ok currency_unique hd'

end Rates

section Tables

variable {bars : Table} {fx : Option Table} {e : Error}

/-- The cell of a row with its date. -/
def dateCell (columns : List String) (row : List Document) : Document :=
  ((columns.zip row).lookup "date").getD .null

/-- A table with the columns it needs and a date in every row. -/
structure IsDated (required : List String) (t : Table) : Prop where
  columns : t.missing required = []
  dates : ∀ row ∈ t.rows, ∃ d, Date.read (dateCell t.columns row) = .ok d

theorem exists_readRows (what : String) {t : Table} :
    (∃ rows, readRows what t = .ok rows) ↔
      ∀ row ∈ t.rows, ∃ d, Date.read (dateCell t.columns row) = .ok d := by
  constructor
  · intro h row hrow
    obtain ⟨rows, hrows⟩ := h
    obtain ⟨r, -, hr⟩ := Except.exists_mem_of_mapM hrows hrow
    obtain ⟨d, hd, -⟩ := Except.bind_eq_ok.mp hr
    exact ⟨d, Except.mapError_eq_ok.mp hd⟩
  · intro h
    apply Except.exists_mapM
    intro row hrow
    obtain ⟨d, hd⟩ := h row hrow
    exact ⟨_, Except.bind_eq_ok.mpr ⟨d, Except.mapError_eq_ok.mpr hd, rfl⟩⟩

theorem requireColumns_eq_ok {what : String} {required : List String} {t : Table} :
    requireColumns what required t = .ok () ↔ t.missing required = [] := by
  simp [requireColumns]

theorem ofTables_eq_ok {t : MarketTables} : ofTables bars fx = .ok t ↔
    (bars.missing barColumns = [] ∧ readRows "market data" bars = .ok t.bars) ∧
      Option.Rel (fun x rows => x.missing fxColumns = [] ∧ readRows "fx rate" x = .ok rows) fx t.fx := by
  obtain ⟨rows, rates⟩ := t
  cases fx with
  | none =>
    simp only [ofTables, Except.bind_eq_ok]
    constructor
    · intro h
      obtain ⟨_, hcolumns, rows, hrows, rates, hrates, ht⟩ := h
      cases ht
      cases hrates
      exact ⟨⟨requireColumns_eq_ok.mp hcolumns, hrows⟩, .none⟩
    · intro h
      obtain ⟨⟨hcolumns, hrows⟩, hrates⟩ := h
      cases hrates
      exact ⟨(), requireColumns_eq_ok.mpr hcolumns, rows, hrows, none, rfl, rfl⟩
  | some x =>
    simp only [ofTables, Except.bind_eq_ok]
    constructor
    · intro h
      obtain ⟨_, hcolumns, _, hcolumns', rows, hrows, rates, hrates, ht⟩ := h
      obtain ⟨rates', hrates', hsome⟩ := Except.bind_eq_ok.mp hrates
      cases ht
      cases hsome
      exact ⟨⟨requireColumns_eq_ok.mp hcolumns, hrows⟩,
        .some ⟨requireColumns_eq_ok.mp hcolumns', hrates'⟩⟩
    · intro h
      obtain ⟨⟨hcolumns, hrows⟩, hrates⟩ := h
      cases hrates with
      | @some _ rates hrates =>
        exact ⟨(), requireColumns_eq_ok.mpr hcolumns, (), requireColumns_eq_ok.mpr hrates.1, rows,
          hrows, some rates, Except.bind_eq_ok.mpr ⟨rates, hrates.2, rfl⟩, rfl⟩

/-- Tables are read if they have their columns and a date in every row. -/
theorem exists_ofTables : (∃ t, ofTables bars fx = .ok t) ↔
    IsDated barColumns bars ∧ ∀ x ∈ fx, IsDated fxColumns x := by
  constructor
  · intro h
    obtain ⟨t, h⟩ := h
    obtain ⟨⟨hcolumns, hrows⟩, hrates⟩ := ofTables_eq_ok.mp h
    refine ⟨⟨hcolumns, (exists_readRows _).mp ⟨_, hrows⟩⟩, fun x hx => ?_⟩
    subst hx
    generalize t.fx = rates at hrates
    cases hrates with
    | some hrates => exact ⟨hrates.1, (exists_readRows _).mp ⟨_, hrates.2⟩⟩
  · intro h
    obtain ⟨hbars, hfx⟩ := h
    obtain ⟨rows, hrows⟩ := (exists_readRows "market data").mpr hbars.dates
    cases fx with
    | none => exact ⟨⟨rows, none⟩, ofTables_eq_ok.mpr ⟨⟨hbars.columns, hrows⟩, .none⟩⟩
    | some x =>
      obtain ⟨rates, hrates⟩ := (exists_readRows "fx rate").mpr (hfx x rfl).dates
      exact ⟨⟨rows, some rates⟩,
        ofTables_eq_ok.mpr ⟨⟨hbars.columns, hrows⟩, .some ⟨(hfx x rfl).columns, hrates⟩⟩⟩

/-- Tables with the same rows in another order. -/
structure Reorders (t t' : Table) : Prop where
  columns : t'.columns = t.columns
  rows : t.rows.Perm t'.rows

theorem Reorders.exists_readRows {t t' : Table} {what : String} {rows : List DatedRow}
    (h : Reorders t t') (hrows : readRows what t = .ok rows) :
    ∃ rows', readRows what t' = .ok rows' ∧ rows.Perm rows' := by
  obtain ⟨rows', hrows', hperm⟩ := List.perm_comp_forall₂ h.rows.symm (Except.mapM_eq_ok.mp hrows)
  rw [readRows, h.columns]
  exact ⟨rows', Except.mapM_eq_ok.mpr hrows', hperm.symm⟩

theorem Reorders.missing {t t' : Table} (h : Reorders t t') (required : List String) :
    t'.missing required = t.missing required := by
  rw [Table.missing, Table.missing, h.columns]

/-- Tables with rows in another order are read as well, and their rows are in another order. -/
theorem exists_reordered {bars' : Table} {fx' : Option Table} {t : MarketTables}
    (hbars : Reorders bars bars') (hfx : Option.Rel Reorders fx fx') (h : ofTables bars fx = .ok t) :
    ∃ t', ofTables bars' fx' = .ok t' ∧ t.bars.Perm t'.bars ∧
      (t.fx.getD []).Perm (t'.fx.getD []) := by
  obtain ⟨⟨hcolumns, hrows⟩, hrates⟩ := ofTables_eq_ok.mp h
  obtain ⟨rows', hrows', hperm⟩ := hbars.exists_readRows hrows
  rw [← hbars.missing] at hcolumns
  obtain ⟨rows, rates⟩ := t
  cases hfx with
  | none =>
    cases hrates
    exact ⟨⟨rows', none⟩, ofTables_eq_ok.mpr ⟨⟨hcolumns, hrows'⟩, .none⟩, hperm, .refl _⟩
  | some hfx =>
    cases hrates with
    | some hread =>
      obtain ⟨rates', hrates', hperm'⟩ := hfx.exists_readRows hread.2
      have hcolumns' := hread.1
      rw [← hfx.missing] at hcolumns'
      exact ⟨⟨rows', some rates'⟩, ofTables_eq_ok.mpr ⟨⟨hcolumns, hrows'⟩, .some ⟨hcolumns', hrates'⟩⟩,
        hperm, hperm'⟩

theorem label_of_ofTables (h : ofTables bars fx = .error e) :
    e.label? = some "MarketDataRetrievalError" := by
  have hcolumns : ∀ what required t, Except.FailsOnly
      (fun e => e.label? = some "MarketDataRetrievalError") (requireColumns what required t) := by
    intro what required t
    simp [requireColumns, Error.label?]
  have hrow : ∀ what columns row, Except.FailsOnly
      (fun e => e.label? = some "MarketDataRetrievalError") (readRow what columns row) := by
    intro what columns row
    simp [readRow, Error.label?]
  have hrows : ∀ what t, Except.FailsOnly
      (fun e => e.label? = some "MarketDataRetrievalError") (readRows what t) :=
    fun what t => Except.FailsOnly.mapM fun row _ => hrow what t.columns row
  have hall : Except.FailsOnly (fun e => e.label? = some "MarketDataRetrievalError")
      (ofTables bars fx) := by
    cases fx with
    | none => simp [ofTables, hcolumns, hrows]
    | some fx => simp [ofTables, hcolumns, hrows]
  exact hall e h

end Tables

/-- What is fetched of bars. Which row of an asset counts and the order of the assets of a day depend on
how cells sort, and for a day on which all cells are texts these are the last row and the order of the
texts. -/
structure FetchesBars (t : MarketTables) (assets : List Asset) : Prop where
  reports : Reports (t.barRows assets) (fun r a => r.asset = a) (fun r b => r.Describes b.toQuote)
    lastRow (t.barFeed assets)
  order : ∀ d bars, (d, bars) ∈ (t.barFeed assets).items →
    bars.keys.Pairwise (StandsBefore (t.barRows assets) d)
  texts : ∀ d, (∀ r ∈ t.barRows assets, r.date = d → ∃ s, r.cell "asset" = .text s) →
    (∀ a, lastRow (rowsFor (t.barRows assets) (fun r a => r.asset = a) d a) =
      (rowsFor (t.barRows assets) (fun r a => r.asset = a) d a).getLast?) ∧
    ∀ bars, (d, bars) ∈ (t.barFeed assets).items → bars.keys.Pairwise (· < ·)
  foreign : ∀ t' : MarketTables, t'.barRows assets = t.barRows assets →
    t'.barFeed assets = t.barFeed assets

theorem fetchesBars (t : MarketTables) (assets : List Asset) : t.FetchesBars assets where
  reports := reports_barFeed t assets
  order _ _ := pairwise_assets
  texts := by
    intro d htexts
    refine ⟨fun a => lastRow_of_alike fun r hr s hs => ?_, fun _ => ascending_assets htexts⟩
    simp only [rowsFor, List.mem_filter, decide_eq_true_eq] at hr hs
    obtain ⟨x, hx⟩ := htexts r hr.1 hr.2.1
    obtain ⟨y, hy⟩ := htexts s hs.1 hs.2.1
    rw [standing_of_text hx, standing_of_text hy, hr.2.2, hs.2.2]
  foreign := by
    intro t' h
    unfold barRows at h
    simp only [barFeed, h]

/-- What is fetched of rates. -/
structure FetchesRates (t : MarketTables) (currencies : List Currency) : Prop where
  reports : Reports (t.rateRows currencies) (fun r (c : Currency) => r.currencyCode = c.code)
    (fun r x => (r.cell "rate").toDecimal = .ok x) List.getLast?
    (t.rateFeed (currencies.map fun c => .text c.code))
  order : ∀ d rates, (d, rates) ∈ (t.rateFeed (currencies.map fun c => .text c.code)).items →
    rates.keys.Pairwise (ComesFirst ((t.rateRows currencies).filter (·.date = d))
      fun r c => r.currencyCode = c.code)
  foreign : ∀ t' : MarketTables, t'.rateRows currencies = t.rateRows currencies →
    t'.rateFeed (currencies.map fun c => .text c.code) =
      t.rateFeed (currencies.map fun c => .text c.code)

theorem fetchesRates (t : MarketTables) (currencies : List Currency) :
    t.FetchesRates currencies where
  reports := reports_rateFeed
  order _ _ := pairwise_currencies
  foreign := by
    intro t' h
    rw [rateFeed_eq, rateFeed_eq, h]

theorem sameDays_bars {t t' : MarketTables} {assets : List Asset} (hperm : t.bars.Perm t'.bars)
    (hdistinct : ((t.barRows assets).map fun r => (r.date, r.asset)).Nodup) :
    SameDays (t.barFeed assets) (t'.barFeed assets) := by
  refine (reports_barFeed t assets).sameDays (hperm.filter _) ?_ (reports_barFeed t' assets)
  apply (List.pairwise_map.mp hdistinct).imp
  intro r s hne d a h
  obtain ⟨⟨hrd, hra⟩, hsd, hsa⟩ := h
  exact hne (Prod.ext (hrd.trans hsd.symm) (hra.trans hsa.symm))

theorem sameDays_rates {t t' : MarketTables} {currencies : List Currency}
    (hperm : (t.fx.getD []).Perm (t'.fx.getD []))
    (hdistinct : ((t.rateRows currencies).map fun r => (r.date, r.currencyCode)).Nodup) :
    SameDays (t.rateFeed (currencies.map fun c => .text c.code))
      (t'.rateFeed (currencies.map fun c => .text c.code)) := by
  refine reports_rateFeed.sameDays (hperm.filter _) ?_ reports_rateFeed
  apply (List.pairwise_map.mp hdistinct).imp
  intro r s hne d c h
  obtain ⟨⟨hrd, hrc⟩, hsd, hsc⟩ := h
  exact hne (Prod.ext (hrd.trans hsd.symm) (hrc.trans hsc.symm))

/-- Fetching is a function of what the tables say. Tables without a required column or with a date that
cannot be read are refused, in whatever row it stands. From all other ones the days are those that the
wanted rows say, and in another order of the rows these are the same days, unless two rows of a day are
for one key. -/
theorem fetches_content (bars : Table) (fx : Option Table) (assets : List Asset)
    (currencies : List Currency) :
    (∀ e, ofTables bars fx = .error e → e.label? = some "MarketDataRetrievalError") ∧
    ((∃ t, ofTables bars fx = .ok t) ↔
      IsDated barColumns bars ∧ ∀ x ∈ fx, IsDated fxColumns x) ∧
    ∀ t, ofTables bars fx = .ok t →
      t.FetchesBars assets ∧ t.FetchesRates currencies ∧
      ∀ bars' fx', Reorders bars bars' → Option.Rel Reorders fx fx' →
        ∃ t', ofTables bars' fx' = .ok t' ∧
          (((t.barRows assets).map fun r => (r.date, r.asset)).Nodup →
            SameDays (t.barFeed assets) (t'.barFeed assets)) ∧
          (((t.rateRows currencies).map fun r => (r.date, r.currencyCode)).Nodup →
            SameDays (t.rateFeed (currencies.map fun c => .text c.code))
              (t'.rateFeed (currencies.map fun c => .text c.code))) := by
  refine ⟨fun _ => label_of_ofTables, exists_ofTables, fun t ht => ?_⟩
  refine ⟨t.fetchesBars assets, t.fetchesRates currencies, fun bars' fx' hbars hfx => ?_⟩
  obtain ⟨t', ht', hperm, hperm'⟩ := exists_reordered hbars hfx ht
  exact ⟨t', ht', sameDays_bars hperm, sameDays_rates hperm'⟩

/-- A row of bars that opens, trades and closes at one price. -/
def levelRow (date asset : Document) (price : Int) : List Document :=
  [date, asset, .integer price, .integer price, .integer price, .integer price]

/-- Rows in the opposite order, with one of an asset that nobody wants and that has no bar. -/
theorem fetches_content_reversed :
    let rows := [levelRow (.text "2024-01-03") (.text "A") 11,
      levelRow (.text "2024-01-02") (.text "C") (-1), levelRow (.text "2024-01-02") (.text "B") 20]
    ∃ t t', ofTables ⟨barColumns, rows⟩ none = .ok t ∧
      ofTables ⟨barColumns, rows.reverse⟩ none = .ok t' ∧
      (t.barFeed ["A", "B"]).items.map (fun x => x.2.keys) = [["B"], ["A"]] ∧
      SameDays (t.barFeed ["A", "B"]) (t'.barFeed ["A", "B"]) := by
  intro rows
  have hread : (ofTables ⟨barColumns, rows⟩ none).toOption.any fun t =>
      ((t.barRows ["A", "B"]).map fun r => (r.date, r.asset)).Nodup ∧
        (t.barFeed ["A", "B"]).items.map (fun x => x.2.keys) = [["B"], ["A"]] := by
    decide +kernel
  obtain ⟨t, ht, hdays⟩ := (Option.any_eq_true _ _).mp hread
  obtain ⟨hdistinct, hkeys⟩ := of_decide_eq_true hdays
  have ht := Except.eq_ok_of_toOption ht
  obtain ⟨-, -, hcontent⟩ := fetches_content ⟨barColumns, rows⟩ none ["A", "B"] []
  obtain ⟨-, -, hreorder⟩ := hcontent t ht
  obtain ⟨t', ht', hsame, -⟩ := hreorder ⟨barColumns, rows.reverse⟩ none
    ⟨rfl, (List.reverse_perm rows).symm⟩ .none
  exact ⟨t, t', ht, ht', hkeys, hsame hdistinct⟩

/-- A date that cannot be read in a row of an asset that nobody wants is enough for nothing to be
fetched; of a text and the number that it spells the number is read first, wherever it stands; and the
euro comes after the yen if its row does. -/
theorem fetches_beyond_content :
    let d : Date := ⟨2024, 1, 2, by decide, by decide, by decide⟩
    let row := levelRow (.text "2024-01-02") (.text "A") 10
    let never := levelRow (.text "never") (.text "B") 10
    let numbered := [levelRow (.text "2024-01-02") (.text "1") 10,
      levelRow (.text "2024-01-02") (.integer 1) 20]
    let yen : List Document := [.text "2024-01-02", .text "JPY", .text "0.0068"]
    let euro : List Document := [.text "2024-01-02", .text "EUR", .text "1.1"]
    (ofTables ⟨barColumns, [row]⟩ none).toBool = true ∧
      (ofTables ⟨barColumns, [row, never]⟩ none).toBool = false ∧
      (∃ t bars, ofTables ⟨barColumns, numbered⟩ none = .ok t ∧
        (d, bars) ∈ (t.barFeed ["1"]).items ∧ (bars.get? "1").map (·.close) = some 10) ∧
      ((ofTables ⟨barColumns, [row]⟩ (some ⟨fxColumns, [yen, euro]⟩)).toOption.map fun t =>
        (t.rateFeed ([.eur, .jpy].map fun c : Currency => .text c.code)).items.map fun x => x.2.keys) =
          some [[.jpy, .eur]] := by
  intro d row never numbered yen euro
  refine ⟨by decide +kernel, by decide +kernel, ?_, by decide +kernel⟩
  have hread : (ofTables ⟨barColumns, numbered⟩ none).toOption.any fun t =>
      (t.barRows ["1"]).any (·.date = d) && (t.barRows ["1"]).all (·.bar.toBool) &&
        (lastRow (rowsFor (t.barRows ["1"]) (fun r a => r.asset = a) d "1")).any
          (fun r => r.bar.toOption.any (·.close = 10)) := by
    decide +kernel
  obtain ⟨t, ht, hrows⟩ := (Option.any_eq_true _ _).mp hread
  simp only [Bool.and_eq_true] at hrows
  obtain ⟨⟨hday, hall⟩, hlast⟩ := hrows
  obtain ⟨r, hr, hbar⟩ := (Option.any_eq_true _ _).mp hlast
  obtain ⟨b, hb, hclose⟩ := (Option.any_eq_true _ _).mp hbar
  have hreports := reports_barFeed t ["1"]
  have hdate : d ∈ (t.barFeed ["1"]).dates := by
    refine (hreports.mem_dates d).mpr ⟨by simpa using hday, fun s hs _ => ?_⟩
    have hreadable := List.all_eq_true.mp hall s hs
    cases hb : s.bar with
    | ok b => exact ⟨b, DatedRow.bar_eq_ok.mp hb⟩
    | error e =>
      rw [hb] at hreadable
      cases hreadable
  obtain ⟨⟨_, bars⟩, hbars, rfl⟩ := List.mem_map.mp hdate
  refine ⟨t, bars, Except.eq_ok_of_toOption ht, hbars, ?_⟩
  have hfound := (hreports.entries d bars hbars "1" b).mpr
    ⟨r, hr, DatedRow.bar_eq_ok.mp (Except.eq_ok_of_toOption hb)⟩
  rw [hfound]
  simpa using hclose

end MarketTables
end Backtesting
