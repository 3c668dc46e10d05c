import Backtesting.Document.Schema
import Backtesting.Proofs.Calendar.Text
import Backtesting.Proofs.Decimal.Text

/-!
Checks that succeed. A check of a list or an object made from values succeeds with the values when
the check of each entry does, wherever the entry stands.
-/
namespace Backtesting

namespace Checked

@[simp] theorem map_valid (f : α → β) (a : α) : (f <$> valid a) = valid (f a) := rfl

@[simp] theorem seq_valid (f : α → β) (a : α) : (valid f <*> valid a) = valid (f a) := rfl

@[simp] theorem both_valid (a : α) (b : β) : both (valid a) (valid b) = valid (a, b) := rfl

theorem all_valid (as : List α) : all (as.map valid) = valid as := by
  induction as with
  | nil => rfl
  | cons a as ih => simp [all, ih, map]

end Checked

namespace Schema

variable {α β κ : Type}

theorem indexed_eq {s : Schema α} {f : β → Document} {g : β → α} {l : List β}
    (h : ∀ e ∈ l, ∀ at_, s at_ (f e) = .valid (g e)) (at_ : List String) (i : Nat) :
    indexed s at_ i (l.map f) = (l.map g).map .valid := by
  induction l generalizing i with
  | nil => rfl
  | cons e l ih =>
    have hrest := ih (fun d hd => h d (by simp [hd])) (i + 1)
    simp [indexed, h e (by simp), hrest]

theorem list_valid {s : Schema α} {f : β → Document} {g : β → α} {l : List β}
    (h : ∀ e ∈ l, ∀ at_, s at_ (f e) = .valid (g e)) (at_ : List String) :
    list s at_ (.list (l.map f)) = .valid (l.map g) := by
  simp only [list, indexed_eq h, Checked.all_valid]

theorem mapping_object (key : String → Option κ) (value : Schema α) (at_ : List String)
    (fs : List (String × Document)) :
    mapping key value at_ (.object fs) = Checked.all (fs.map fun e => Checked.both
      (Checked.ofOption (at_ ++ [e.1, "[key]"]) (key e.1)) (value (at_ ++ [e.1]) e.2)) := rfl

theorem mapping_valid {key : String → Option κ} {value : Schema α} (f : β → String × Document)
    (g : β → κ × α) {l : List β}
    (h : ∀ e ∈ l, key (f e).1 = some (g e).1 ∧ ∀ at_, value at_ (f e).2 = .valid (g e).2)
    (at_ : List String) : mapping key value at_ (.object (l.map f)) = .valid (l.map g) := by
  have hentries : (l.map f).map (fun e => Checked.both
      (Checked.ofOption (at_ ++ [e.1, "[key]"]) (key e.1)) (value (at_ ++ [e.1]) e.2)) =
        (l.map g).map .valid := by
    rw [List.map_map, List.map_map]
    apply List.map_congr_left
    intro e he
    obtain ⟨hkey, hvalue⟩ := h e he
    simp [hkey, hvalue, Checked.ofOption]
  rw [mapping_object, hentries, Checked.all_valid]

theorem text_valid (at_ : List String) (s : String) : text at_ (.text s) = .valid s := rfl

theorem integer_valid (at_ : List String) (i : Int) : integer at_ (.integer i) = .valid i := rfl

theorem object_valid (at_ : List String) (fs : List (String × Document)) :
    object at_ (.object fs) = .valid fs := rfl

theorem decimal_valid {x : Decimal} (h : x.IsWritable) (at_ : List String) :
    decimal at_ (.text x.toText) = .valid x := by
  have hread : (Document.text x.toText).toDecimal = .ok x := by
    simp [Document.toDecimal, Document.plainText, Decimal.lift, Decimal.ofText_toText h,
      Except.mapError]
  simp [decimal, ofPartial, hread, Except.toOption, finite?, h.isFinite, Checked.ofOption]

/-- A field that is there is checked, whether it has to be there or not. -/
theorem required_of_get? {s : Schema α} {x y : Document} {key : String} (h : x.get? key = some y)
    (at_ : List String) : required s at_ x key = s (at_ ++ [key]) y := by
  rw [required, h]

theorem withDefault_of_get? {s : Schema α} {x y : Document} {key : String}
    (h : x.get? key = some y) (a : α) (at_ : List String) :
    withDefault s a at_ x key = s (at_ ++ [key]) y := by
  rw [withDefault, h]

end Schema
end Backtesting
