import Backtesting.Proofs.Chronicle
import Backtesting.Proofs.Gapless
import Backtesting.Proofs.OrderedMap

/-!
What is looked up on a day. A rate that was taken in with a day is found on it, and so is what is
converted by it; all rates are positive, since no other rate is ever taken in.
-/
namespace Backtesting

open Backtesting.Except (FailsOnly)

theorem Currency.read_code (c : Currency) : Currency.read (.text c.code) = .ok c := by
  have hread : ∀ c : Currency, Text.upper (Text.trim (Document.text c.code).plainText) = c.code := by
    intro c
    cases c <;> rfl
  rw [Currency.read, hread, Currency.ofCode?_code]

theorem Currency.ofCode_code (c : Currency) : Currency.ofCode c.code = .ok c := by
  rw [Currency.ofCode, Currency.ofCode?_code]

theorem Currency.code_of_ofCode {s : String} {c : Currency} (h : ofCode s = .ok c) : c.code = s := by
  unfold ofCode at h
  split at h
  · next c' hfound =>
    obtain rfl := Except.ok.inj h
    simpa using List.find?_some hfound
  · simp at h

namespace FxHistory

def HasPositiveRates (h : FxHistory) : Prop :=
  ∀ e ∈ h.rates.days, ∀ c ∈ e.2.toList, c.2.isAtMost 0 = .ok false

/-- A rate that is read belongs to the currency of the code and is positive. -/
theorem readRate_eq_ok {d : Date} {e : String × Amount} {c : Currency × Decimal}
    (h : readRate d e = .ok c) : c.1.code = e.1 ∧ c.2.isAtMost 0 = .ok false := by
  obtain ⟨rate, -, h⟩ := Except.bind_eq_ok.mp h
  obtain ⟨low, hlow, h⟩ := Except.bind_eq_ok.mp h
  cases low with
  | true => exact absurd h Except.throw_ne_ok
  | false =>
    obtain ⟨currency, hcode, h⟩ := Except.bind_eq_ok.mp h
    obtain rfl := Except.pure_eq_ok.mp h
    exact ⟨Currency.code_of_ofCode hcode, Decimal.lift_eq_ok.mp hlow⟩

theorem read_of_readRate {d : Date} {e : String × Amount} {c : Currency × Decimal}
    (h : readRate d e = .ok c) : e.2.read = .ok c.2 := by
  obtain ⟨rate, hread, h⟩ := Except.bind_eq_ok.mp h
  obtain ⟨low, -, h⟩ := Except.bind_eq_ok.mp h
  cases low with
  | true => exact absurd h Except.throw_ne_ok
  | false =>
    obtain ⟨currency, -, h⟩ := Except.bind_eq_ok.mp h
    obtain rfl := Except.pure_eq_ok.mp h
    exact hread

theorem append_eq_ok {h g : FxHistory} {d : Date} {rates : List (String × Amount)}
    (hg : h.append d rates = .ok g) :
    ∃ read, rates.mapM (readRate d) = .ok read ∧ h.rates.later? d = none ∧
      g = { h with rates := h.rates.put d (OrderedMap.ofList read) } := by
  unfold append at hg
  split at hg
  · simp at hg
  · next hlater =>
    obtain ⟨read, hread, hg⟩ := Except.bind_eq_ok.mp hg
    exact ⟨read, hread, hlater, (Except.pure_eq_ok.mp hg).symm⟩

theorem hasPositiveRates_append {h g : FxHistory} {d : Date} {rates : List (String × Amount)}
    (hpositive : h.HasPositiveRates) (hg : h.append d rates = .ok g) : g.HasPositiveRates := by
  obtain ⟨read, hread, -, rfl⟩ := append_eq_ok hg
  intro e he c hc
  rcases List.mem_append.mp he with he | he
  · exact hpositive e ((List.takeWhile_sublist _).subset he) c hc
  · obtain rfl := List.mem_singleton.mp he
    have hmem : c ∈ read := OrderedMap.mem_ofList hc
    obtain ⟨x, -, hx⟩ := Except.mem_of_mapM hread hmem
    exact (readRate_eq_ok hx).2

theorem base_append {h g : FxHistory} {d : Date} {rates : List (String × Amount)}
    (hg : h.append d rates = .ok g) : g.base = h.base := by
  obtain ⟨read, -, -, rfl⟩ := append_eq_ok hg
  rfl

/-- A day that is not too early is refused only for what its rates are. -/
theorem gapless_append {h : FxHistory} {d : Date} (hlater : h.rates.later? d = none)
    (rates : List (String × Amount)) : Gapless (h.append d rates) := by
  have hrate : ∀ e, Gapless (readRate d e) := by
    simp [readRate]
  unfold append
  rw [hlater]
  exact FailsOnly.bind (FailsOnly.mapM fun e _ => hrate e) fun _ _ => FailsOnly.ok _

/-- A rate that a day was taken in with is there on that day. -/
theorem exists_rate_append {h g : FxHistory} {d : Date} {rates : List (String × Amount)}
    (hg : h.append d rates = .ok g) {c : Currency} {x : Amount} (hc : (c.code, x) ∈ rates) :
    ∃ r, g.rate d c = .ok r := by
  obtain ⟨read, hread, -, rfl⟩ := append_eq_ok hg
  obtain ⟨⟨c', r⟩, hmem, hrate⟩ := Except.exists_mem_of_mapM hread hc
  obtain rfl : c = c' := (Currency.code_inj.mp (readRate_eq_ok hrate).1).symm
  have hkey : c ∈ (OrderedMap.ofList read).keys :=
    OrderedMap.mem_keys_ofList.mpr (List.mem_map.mpr ⟨(c, r), hmem, rfl⟩)
  obtain ⟨v, hv⟩ := OrderedMap.mem_keys_iff.mp hkey
  unfold rate
  split
  · exact ⟨1, rfl⟩
  · exact ⟨v, by simp [Chronicle.get?_put_self, hv]⟩

theorem rate_base (h : FxHistory) (d : Date) : h.rate d h.base = .ok 1 := if_pos rfl

/-- Between currencies that have rates nothing is missing. -/
theorem gapless_convert {h : FxHistory} {d : Date} {source target : Currency}
    (hsource : ∃ r, h.rate d source = .ok r) (htarget : ∃ r, h.rate d target = .ok r)
    (amount : Decimal) : Gapless (h.convert d amount source target) := by
  obtain ⟨r, hr⟩ := hsource
  obtain ⟨r', hr'⟩ := htarget
  simp [convert, hr, hr']

end FxHistory

/-- A bar that is there is found. -/
theorem MarketHistory.gapless_requireBar {h : MarketHistory} {d : Date} {a : Asset}
    (hbar : ∃ b, h.bar? d a = some b) : Gapless (h.requireBar d a) := by
  obtain ⟨b, hb⟩ := hbar
  simp [requireBar, hb]

end Backtesting

