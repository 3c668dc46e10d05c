/-!
The currencies of cash balances, listings and rates, by their ISO 4217 codes.
-/
namespace Backtesting

inductive Currency
  | usd | eur | gbp | jpy | chf | cad | aud | nzd | cny | hkd
  | sgd | sek | nok | dkk | krw | inr | brl | mxn | zar
deriving DecidableEq, Repr, Inhabited

namespace Currency

def code : Currency → String
  | usd => "USD" | eur => "EUR" | gbp => "GBP" | jpy => "JPY" | chf => "CHF"
  | cad => "CAD" | aud => "AUD" | nzd => "NZD" | cny => "CNY" | hkd => "HKD"
  | sgd => "SGD" | sek => "SEK" | nok => "NOK" | dkk => "DKK" | krw => "KRW"
  | inr => "INR" | brl => "BRL" | mxn => "MXN" | zar => "ZAR"

instance : ToString Currency := ⟨code⟩

def all : List Currency :=
  [usd, eur, gbp, jpy, chf, cad, aud, nzd, cny, hkd, sgd, sek, nok, dkk, krw, inr, brl, mxn, zar]

/-- The currency of an exact code. -/
def ofCode? (s : String) : Option Currency := all.find? (·.code == s)

theorem mem_all (c : Currency) : c ∈ all := by cases c <;> decide

theorem ofCode?_code (c : Currency) : ofCode? c.code = some c := by cases c <;> decide

theorem code_inj {c c' : Currency} : c.code = c'.code ↔ c = c' := by
  refine ⟨fun h => ?_, congrArg code⟩
  have hc := ofCode?_code c
  rw [h, ofCode?_code] at hc
  exact (Option.some.inj hc).symm

end Currency
end Backtesting
