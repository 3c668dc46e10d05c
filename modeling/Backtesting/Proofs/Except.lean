import Backtesting.Document.Number
import Mathlib.Data.List.Perm.Basic

/-!
Results that may be errors, taken apart where they are values: what a chain of computations gives
was given by its links.
-/
namespace Backtesting

namespace Except

variable {ε ε' α β : Type}

theorem bind_eq_ok {x : Except ε α} {f : α → Except ε β} {b : β} :
    (x >>= f) = .ok b ↔ ∃ a, x = .ok a ∧ f a = .ok b := by
  cases x <;> simp [bind, Except.bind]

theorem bind_eq_error {x : Except ε α} {f : α → Except ε β} {e : ε} :
    (x >>= f) = .error e ↔ x = .error e ∨ ∃ a, x = .ok a ∧ f a = .error e := by
  cases x <;> simp [bind, Except.bind]

theorem bind_unit_eq_ok {x : Except ε Unit} {y : Except ε β} {b : β} :
    (x >>= fun _ => y) = .ok b ↔ x = .ok () ∧ y = .ok b := by
  cases x <;> simp [bind, Except.bind]

@[simp] theorem ok_bind (a : α) (f : α → Except ε β) : (Except.ok a >>= f) = f a := rfl

@[simp] theorem pure_eq_ok {a b : α} : (pure a : Except ε α) = .ok b ↔ a = b := by
  simp [pure, Except.pure]

theorem throw_ne_ok {e : ε} {a : α} : (throw e : Except ε α) ≠ .ok a := by
  simp [throw, throwThe, MonadExceptOf.throw]

@[simp] theorem mapError_eq_ok {α : Type*} {x : Except ε α} {g : ε → ε'} {a : α} :
    x.mapError g = .ok a ↔ x = .ok a := by
  cases x <;> simp [Except.mapError]

theorem mapM_eq_ok {f : α → Except ε β} {l : List α} {bs : List β} :
    l.mapM f = .ok bs ↔ List.Forall₂ (fun a b => f a = .ok b) l bs := by
  induction l generalizing bs with
  | nil => rw [List.mapM_nil, pure_eq_ok, List.forall₂_nil_left_iff, eq_comm]
  | cons a l ih =>
    rw [List.mapM_cons, bind_eq_ok, List.forall₂_cons_left_iff]
    constructor
    · rintro ⟨b, hb, h⟩
      obtain ⟨cs, hcs, h⟩ := bind_eq_ok.mp h
      exact ⟨b, cs, hb, ih.mp hcs, (pure_eq_ok.mp h).symm⟩
    · rintro ⟨b, cs, hb, hcs, rfl⟩
      exact ⟨b, hb, bind_eq_ok.mpr ⟨cs, ih.mpr hcs, rfl⟩⟩

theorem mapM_congr {f g : α → Except ε β} {l : List α} (h : ∀ a ∈ l, f a = g a) :
    l.mapM f = l.mapM g := by
  induction l with
  | nil => rfl
  | cons a l ih =>
    rw [List.mapM_cons, List.mapM_cons, h a (by simp), ih fun b hb => h b (by simp [hb])]

theorem mem_of_mapM {f : α → Except ε β} {l : List α} {bs : List β} (h : l.mapM f = .ok bs)
    {b : β} (hb : b ∈ bs) : ∃ a ∈ l, f a = .ok b := by
  have hall := mapM_eq_ok.mp h
  clear h
  induction hall with
  | nil => exact absurd hb List.not_mem_nil
  | cons hx _ ih =>
    rcases List.mem_cons.mp hb with rfl | hb
    · exact ⟨_, List.mem_cons_self, hx⟩
    · obtain ⟨a, ha, hab⟩ := ih hb
      exact ⟨a, List.mem_cons_of_mem _ ha, hab⟩

theorem exists_mem_of_mapM {f : α → Except ε β} {l : List α} {bs : List β}
    (h : l.mapM f = .ok bs) {a : α} (ha : a ∈ l) : ∃ b ∈ bs, f a = .ok b := by
  have hall := mapM_eq_ok.mp h
  clear h
  induction hall with
  | nil => exact absurd ha List.not_mem_nil
  | cons hx _ ih =>
    rcases List.mem_cons.mp ha with rfl | ha
    · exact ⟨_, List.mem_cons_self, hx⟩
    · obtain ⟨b, hb, hab⟩ := ih ha
      exact ⟨b, List.mem_cons_of_mem _ hb, hab⟩

theorem exists_mapM {f : α → Except ε β} {l : List α} (h : ∀ a ∈ l, ∃ b, f a = .ok b) :
    ∃ bs, l.mapM f = .ok bs := by
  induction l with
  | nil => exact ⟨[], rfl⟩
  | cons a l ih =>
    obtain ⟨b, hb⟩ := h a (by simp)
    obtain ⟨bs, hbs⟩ := ih fun c hc => h c (by simp [hc])
    exact ⟨b :: bs, mapM_eq_ok.mpr (.cons hb (mapM_eq_ok.mp hbs))⟩

theorem exists_mapM_forall {P : β → Prop} {f : α → Except ε β} {l : List α}
    (h : ∀ a ∈ l, ∃ b, f a = .ok b ∧ P b) :
    ∃ bs, l.mapM f = .ok bs ∧ bs.length = l.length ∧ ∀ b ∈ bs, P b := by
  obtain ⟨bs, hbs⟩ := exists_mapM fun a ha => (h a ha).imp fun _ => And.left
  refine ⟨bs, hbs, (mapM_eq_ok.mp hbs).length_eq.symm, ?_⟩
  intro b hb
  obtain ⟨a, ha, hab⟩ := mem_of_mapM hbs hb
  obtain ⟨c, hac, hc⟩ := h a ha
  rwa [Except.ok.inj (hab.symm.trans hac)]

theorem mapM_ok {f : α → Except ε β} {g : α → β} {l : List α} (h : ∀ a ∈ l, f a = .ok (g a)) :
    l.mapM f = .ok (l.map g) := by
  induction l with
  | nil => rfl
  | cons a l ih =>
    rw [List.mapM_cons, h a (by simp), ih fun b hb => h b (by simp [hb])]
    rfl

/-- What is computed of a list in another order is the same in another order. -/
theorem perm_of_mapM {f : α → Except ε β} {l l' : List α} {bs bs' : List β}
    (h : l.Perm l') (hbs : l.mapM f = .ok bs) (hbs' : l'.mapM f = .ok bs') : bs.Perm bs' := by
  obtain ⟨cs, hcs, hperm⟩ := List.perm_comp_forall₂ h (mapM_eq_ok.mp hbs')
  obtain rfl : bs = cs := Except.ok.inj (hbs.symm.trans (mapM_eq_ok.mpr hcs))
  exact hperm

/-- What every value is read back from is read back as a list. -/
theorem mapM_map_eq_ok {f : α → β} {g : β → Except ε α} {l : List α}
    (h : ∀ a ∈ l, g (f a) = .ok a) : (l.map f).mapM g = .ok l := by
  rw [List.mapM_map]
  have hread := mapM_ok (f := g ∘ f) (g := id) h
  rwa [List.map_id] at hread

theorem foldlM_cons_eq_ok {f : β → α → Except ε β} {a : α} {l : List α} {b c : β} :
    (a :: l).foldlM f b = .ok c ↔ ∃ d, f b a = .ok d ∧ l.foldlM f d = .ok c := by
  rw [List.foldlM_cons, bind_eq_ok]

theorem foldlM_nil_eq_ok {f : β → α → Except ε β} {b c : β} :
    [].foldlM f b = .ok c ↔ b = c := by
  rw [List.foldlM_nil, pure_eq_ok]

/-- A chain of computations that succeeds has gone through every element. -/
theorem exists_step_of_mem {f : β → α → Except ε β} {l : List α} {b c : β}
    (h : l.foldlM f b = .ok c) {a : α} (ha : a ∈ l) : ∃ d e, f d a = .ok e := by
  induction l generalizing b with
  | nil => exact absurd ha List.not_mem_nil
  | cons x l ih =>
    obtain ⟨d, hd, hrest⟩ := foldlM_cons_eq_ok.mp h
    rcases List.mem_cons.mp ha with rfl | ha
    · exact ⟨b, d, hd⟩
    · exact ih hrest ha

/-- If there is an error, it is one of `E`. -/
def FailsOnly (E : ε → Prop) (x : Except ε α) : Prop := ∀ e, x = .error e → E e

namespace FailsOnly

variable {E : ε → Prop} {x : Except ε α} {f : α → Except ε β}

@[simp] theorem ok (a : α) : FailsOnly E (.ok a : Except ε α) := nofun

theorem error {e : ε} (h : E e) : FailsOnly E (.error e : Except ε α) := by
  rintro _ ⟨⟩
  exact h

@[simp] theorem error_iff {e : ε} : FailsOnly E (.error e : Except ε α) ↔ E e :=
  ⟨fun h => h e rfl, error⟩

@[simp] theorem pure (a : α) : FailsOnly E (Pure.pure a : Except ε α) := ok a

@[simp] theorem throw_iff {e : ε} : FailsOnly E (throw e : Except ε α) ↔ E e := error_iff

theorem imp {E' : ε → Prop} (hx : FailsOnly E x) (h : ∀ e, E e → E' e) : FailsOnly E' x :=
  fun e he => h e (hx e he)

theorem bind (hx : FailsOnly E x) (hf : ∀ a, x = .ok a → FailsOnly E (f a)) :
    FailsOnly E (x >>= f) := by
  cases x with
  | error e => exact error (hx e rfl)
  | ok a => exact hf a rfl

/-- A chain of computations fails as its links do. -/
@[simp] theorem bind_iff :
    FailsOnly E (x >>= f) ↔ FailsOnly E x ∧ ∀ a, x = .ok a → FailsOnly E (f a) := by
  refine ⟨fun h => ⟨?_, ?_⟩, fun h => bind h.1 h.2⟩
  · rintro e rfl
    exact h e rfl
  · rintro a rfl
    exact h

@[simp] theorem ite_iff {c : Prop} [Decidable c] {y : Except ε α} :
    FailsOnly E (if c then x else y) ↔ (c → FailsOnly E x) ∧ (¬ c → FailsOnly E y) := by
  by_cases h : c <;> simp [h]

@[simp] theorem map_iff {g : α → β} : FailsOnly E (x.map g) ↔ FailsOnly E x := by
  cases x <;> simp [Except.map]

@[simp] theorem functor_map_iff {g : α → β} : FailsOnly E (g <$> x) ↔ FailsOnly E x := map_iff

@[simp] theorem any (x : Except ε α) : FailsOnly (fun _ => True) x := fun _ _ => trivial

@[simp] theorem mapError_iff {E : ε' → Prop} {g : ε → ε'} :
    FailsOnly E (x.mapError g) ↔ FailsOnly (fun e => E (g e)) x := by
  cases x <;> simp [Except.mapError]

theorem mapM {l : List α} (h : ∀ a ∈ l, FailsOnly E (f a)) : FailsOnly E (l.mapM f) := by
  induction l with
  | nil => exact ok []
  | cons a l ih =>
    rw [List.mapM_cons]
    refine bind (h a (by simp)) fun b _ => bind (ih fun c hc => h c (by simp [hc])) fun bs _ => ?_
    exact ok (b :: bs)

theorem foldlM {g : β → α → Except ε β} {l : List α} (h : ∀ b, ∀ a ∈ l, FailsOnly E (g b a))
    (b : β) : FailsOnly E (l.foldlM g b) := by
  induction l generalizing b with
  | nil => exact ok b
  | cons a l ih =>
    rw [List.foldlM_cons]
    exact bind (h b a (by simp)) fun c _ => ih (fun c x hx => h c x (by simp [hx])) c

end FailsOnly

/-- A list is refused for one of its elements. -/
theorem exists_error_of_mapM {f : α → Except ε β} {l : List α} {e : ε} (h : l.mapM f = .error e) :
    ∃ a ∈ l, f a = .error e := by
  have hfails : FailsOnly (fun e => ∃ a ∈ l, f a = .error e) (l.mapM f) :=
    FailsOnly.mapM fun a ha e he => ⟨a, ha, he⟩
  exact hfails e h

/-- There is an error, and it is one of `E`. -/
def Fails (E : ε → Prop) (x : Except ε α) : Prop := ∃ e, x = .error e ∧ E e

namespace Fails

variable {E : ε → Prop} {x : Except ε α}

theorem bind (h : Fails E x) (f : α → Except ε β) : Fails E (x >>= f) := by
  obtain ⟨e, rfl, he⟩ := h
  exact ⟨e, rfl, he⟩

theorem not_iff : ¬ Fails E x ↔ FailsOnly (fun e => ¬ E e) x := by
  simp only [Fails, FailsOnly, not_exists, not_and]

instance decidable [DecidablePred E] : ∀ x : Except ε α, Decidable (Fails E x)
  | .ok _ => isFalse fun ⟨_, h, _⟩ => nomatch h
  | .error e => decidable_of_iff (E e)
      ⟨fun h => ⟨e, rfl, h⟩, fun ⟨_, h, he⟩ => Except.error.inj h ▸ he⟩

end Fails

/-- A value of `P`, or an error of `E`. -/
structure Gives (E : ε → Prop) (P : α → Prop) (x : Except ε α) : Prop where
  fails : FailsOnly E x
  value : ∀ a, x = .ok a → P a

namespace Gives

variable {E : ε → Prop} {P : α → Prop} {Q : β → Prop} {x : Except ε α} {f : α → Except ε β}

theorem ok {a : α} (h : P a) : Gives E P (.ok a : Except ε α) :=
  ⟨FailsOnly.ok a, fun _ ha => Except.ok.inj ha ▸ h⟩

theorem error {e : ε} (h : E e) : Gives E P (.error e : Except ε α) :=
  ⟨FailsOnly.error h, fun a ha => by simp at ha⟩

theorem bind (hx : Gives E P x) (hf : ∀ a, P a → Gives E Q (f a)) : Gives E Q (x >>= f) := by
  cases x with
  | error e => exact error (hx.fails e rfl)
  | ok a => exact hf a (hx.value a rfl)

/-- Where it is of no interest what comes in between. -/
theorem bind_of_fails (hx : FailsOnly E x) (hf : ∀ a, Gives E Q (f a)) : Gives E Q (x >>= f) :=
  bind (P := fun _ => True) ⟨hx, fun _ _ => trivial⟩ fun a _ => hf a

/-- Where it is of no interest what comes out in the end. -/
theorem failsOnly_bind (hx : Gives E P x) (hf : ∀ a, P a → FailsOnly E (f a)) :
    FailsOnly E (x >>= f) := FailsOnly.bind hx.fails fun a ha => hf a (hx.value a ha)

theorem mapM {l : List α} (h : ∀ a ∈ l, Gives E Q (f a)) :
    Gives E (fun bs => ∀ b ∈ bs, Q b) (l.mapM f) := by
  refine ⟨FailsOnly.mapM fun a ha => (h a ha).fails, fun bs hbs b hb => ?_⟩
  obtain ⟨a, ha, hfa⟩ := mem_of_mapM hbs hb
  exact (h a ha).value b hfa

theorem foldlM {g : β → α → Except ε β} {l : List α}
    (h : ∀ b, Q b → ∀ a ∈ l, Gives E Q (g b a)) {b : β} (hb : Q b) : Gives E Q (l.foldlM g b) := by
  induction l generalizing b with
  | nil => exact ok hb
  | cons a l ih =>
    rw [List.foldlM_cons]
    exact bind (h b hb a (by simp)) fun c hc => ih (fun c hc x hx => h c hc x (by simp [hx])) hc

end Gives

/-- Results that agree: related values, or the same error. -/
inductive Agree (S : α → β → Prop) : Except ε α → Except ε β → Prop
  | ok {a : α} {b : β} (h : S a b) : Agree S (.ok a) (.ok b)
  | error (e : ε) : Agree S (.error e) (.error e)

theorem Agree.of_eq {x y : Except ε α} (h : x = y) : Agree Eq x y := by
  subst h
  cases x with
  | error e => exact .error e
  | ok a => exact .ok rfl

theorem Agree.eq {x y : Except ε α} (h : Agree Eq x y) : x = y := by
  cases h with
  | ok h => rw [h]
  | error e => rfl

theorem Agree.exists_ok {S : α → β → Prop} {x : Except ε α} {y : Except ε β} {a : α}
    (h : Agree S x y) (hx : x = .ok a) : ∃ b, y = .ok b ∧ S a b := by
  subst hx
  cases h with
  | ok h => exact ⟨_, rfl, h⟩

/-- Results that match: related values, or errors that are related. -/
inductive Matches (E : ε → ε → Prop) (S : α → β → Prop) : Except ε α → Except ε β → Prop
  | ok {a : α} {b : β} (h : S a b) : Matches E S (.ok a) (.ok b)
  | error {e f : ε} (h : E e f) : Matches E S (.error e) (.error f)

namespace Matches

variable {γ δ : Type} {E : ε → ε → Prop} {S : α → β → Prop} {T : γ → δ → Prop}

theorem of_eq [Std.Refl E] {x y : Except ε α} (h : x = y) : Matches E Eq x y := by
  subst h
  cases x with
  | error e => exact .error (Std.Refl.refl e)
  | ok a => exact .ok rfl

theorem exists_ok {x : Except ε α} {y : Except ε β} {a : α} (h : Matches E S x y)
    (hx : x = .ok a) : ∃ b, y = .ok b ∧ S a b := by
  subst hx
  cases h with
  | ok h => exact ⟨_, rfl, h⟩

/-- More is known of the values that there are. -/
theorem imp {S' : α → β → Prop} {x : Except ε α} {y : Except ε β} (h : Matches E S x y)
    (hS : ∀ a b, x = .ok a → y = .ok b → S a b → S' a b) : Matches E S' x y := by
  cases h with
  | ok h => exact .ok (hS _ _ rfl rfl h)
  | error h => exact .error h

theorem bind {x : Except ε α} {y : Except ε β} {f : α → Except ε γ} {g : β → Except ε δ}
    (h : Matches E S x y) (hf : ∀ a b, S a b → Matches E T (f a) (g b)) :
    Matches E T (x >>= f) (y >>= g) := by
  cases h with
  | ok h => exact hf _ _ h
  | error h => exact .error h

/-- Chains over lists whose elements are related one by one. -/
theorem foldlM_forall₂ {R : γ → δ → Prop} {f : α → γ → Except ε α} {g : β → δ → Except ε β}
    {l : List γ} {m : List δ} (hl : List.Forall₂ R l m)
    (h : ∀ a b c d, S a b → R c d → Matches E S (f a c) (g b d)) {a : α} {b : β} (hab : S a b) :
    Matches E S (l.foldlM f a) (m.foldlM g b) := by
  induction hl generalizing a b with
  | nil => exact .ok hab
  | cons hcd _ ih =>
    rw [List.foldlM_cons, List.foldlM_cons]
    exact bind (h a b _ _ hab hcd) fun _ _ => ih

theorem foldlM {f g : β → α → Except ε β} {l : List α} (h : ∀ b, ∀ a ∈ l, Matches E Eq (f b a) (g b a))
    (b : β) : Matches E Eq (l.foldlM f b) (l.foldlM g b) := by
  have hsame : List.Forall₂ (fun x y => x = y ∧ x ∈ l) l l := List.forall₂_same.mpr fun _ hx => ⟨rfl, hx⟩
  refine foldlM_forall₂ hsame ?_ rfl
  rintro b _ x _ rfl ⟨rfl, hx⟩
  exact h b x hx

theorem mapM {f g : α → Except ε β} {l : List α} (h : ∀ a ∈ l, Matches E Eq (f a) (g a)) :
    Matches E Eq (l.mapM f) (l.mapM g) := by
  induction l with
  | nil => exact .ok rfl
  | cons a l ih =>
    rw [List.mapM_cons, List.mapM_cons]
    refine bind (h a (by simp)) ?_
    rintro b _ rfl
    refine bind (ih fun b hb => h b (by simp [hb])) ?_
    rintro bs _ rfl
    exact .ok rfl

end Matches

/-- Results that meet: where there are values on both sides, they are related. -/
def Meets (S : α → β → Prop) (x : Except ε α) (y : Except ε β) : Prop :=
  ∀ a b, x = .ok a → y = .ok b → S a b

namespace Meets

variable {γ δ : Type} {S : α → β → Prop} {T : γ → δ → Prop} {x : Except ε α} {y : Except ε β}

theorem ok {a : α} {b : β} (h : S a b) : Meets S (.ok a : Except ε α) (.ok b) := by
  rintro _ _ ⟨⟩ ⟨⟩
  exact h

theorem of_eq {x y : Except ε α} (h : x = y) : Meets Eq x y :=
  fun _ _ ha hb => Except.ok.inj (ha.symm.trans (h.trans hb))

theorem bind {f : α → Except ε γ} {g : β → Except ε δ} (h : Meets S x y)
    (hf : ∀ a b, S a b → Meets T (f a) (g b)) : Meets T (x >>= f) (y >>= g) := by
  intro c d hc hd
  obtain ⟨a, ha, hc⟩ := bind_eq_ok.mp hc
  obtain ⟨b, hb, hd⟩ := bind_eq_ok.mp hd
  exact hf a b (h a b ha hb) c d hc hd

theorem mapM {f g : α → Except ε β} {l : List α} (h : ∀ a ∈ l, Meets Eq (f a) (g a)) :
    Meets Eq (l.mapM f) (l.mapM g) := by
  induction l with
  | nil => exact ok rfl
  | cons a l ih =>
    rw [List.mapM_cons, List.mapM_cons]
    refine bind (h a (by simp)) ?_
    rintro b _ rfl
    refine bind (ih fun b hb => h b (by simp [hb])) ?_
    rintro bs _ rfl
    exact ok rfl

theorem foldlM {R : γ → δ → Prop} {f : α → γ → Except ε α} {g : β → δ → Except ε β} {l : List γ}
    {m : List δ} (hl : List.Forall₂ R l m)
    (h : ∀ a b c d, S a b → R c d → Meets S (f a c) (g b d)) {a : α} {b : β} (hab : S a b) :
    Meets S (l.foldlM f a) (m.foldlM g b) := by
  induction hl generalizing a b with
  | nil => exact ok hab
  | cons hcd _ ih =>
    rw [List.foldlM_cons, List.foldlM_cons]
    exact bind (h a b _ _ hab hcd) fun _ _ => ih

end Meets

theorem eq_ok_of_toOption {r : Except ε α} {a : α} (h : r.toOption = some a) : r = .ok a := by
  cases r with
  | error e => simp [Except.toOption] at h
  | ok b => rw [Option.some.inj h]

theorem toOption_of_eq_ok {r : Except ε α} {a : α} (h : r = .ok a) : r.toOption = some a := by
  rw [h]
  rfl

/-- What is asked of a value that may not be there can be decided by looking. -/
instance decidableOk {P : α → Prop} [DecidablePred P] :
    ∀ r : Except ε α, Decidable (∀ a, r = .ok a → P a)
  | .ok a => decidable_of_iff (P a) ⟨fun h _ hb => Except.ok.inj hb ▸ h, fun h => h a rfl⟩
  | .error _ => isTrue fun _ h => nomatch h

end Except

instance Option.decidableSome {α : Type} {P : α → Prop} [DecidablePred P] :
    ∀ o : Option α, Decidable (∀ a, o = some a → P a)
  | some a => decidable_of_iff (P a) ⟨fun h _ hb => Option.some.inj hb ▸ h, fun h => h a rfl⟩
  | none => isTrue fun _ h => nomatch h

theorem Decimal.lift_eq_ok {r : Except Decimal.Fault α} {a : α} :
    Decimal.lift r = .ok a ↔ r = .ok a := Except.mapError_eq_ok

theorem Decimal.lift_eq_error {r : Except Decimal.Fault α} {e : Error} :
    Decimal.lift r = .error e ↔ ∃ fault, r = .error fault ∧ e = .decimal fault := by
  cases r <;> simp [Decimal.lift, Except.mapError, eq_comm]

/-- What is lifted fails as before. -/
theorem Decimal.failsOnly_lift {E : Error → Prop} {r : Except Decimal.Fault α}
    (h : ∀ f, r = .error f → E (.decimal f)) : Except.FailsOnly E (Decimal.lift r) := by
  cases r with
  | error f => exact .error (h f rfl)
  | ok a => exact .ok a

@[simp] theorem Decimal.lift_ok (a : α) : Decimal.lift (.ok a) = .ok a := rfl

end Backtesting
