import Backtesting.Action
import Backtesting.Proofs.Except

/-!
Reasoning about steps that may fail. A step keeps a relation when the states before and after it
are always related, and moves along it when they are related after success. Two steps mirror each
other when related states stay related and the answers agree, the errors included; they meet when that
is so where both succeed. There is one rule for each way of putting steps together, so a handler is
never unfolded further than its parts.
-/
namespace Backtesting.Action

open Backtesting.Except (Agree FailsOnly Matches)

variable {σ τ α β γ δ : Type}

theorem bind_eq_ok {x : Action σ α} {f : α → Action σ β} {s t : σ} {b : β} :
    (x >>= f) s = (t, .ok b) ↔ ∃ u a, x s = (u, .ok a) ∧ f a u = (t, .ok b) := by
  constructor
  · intro h
    rcases hx : x s with ⟨u, a | a⟩
    · rw [bind_error hx] at h
      simp at h
    · rw [bind_ok hx] at h
      exact ⟨u, a, rfl, h⟩
  · rintro ⟨u, a, hx, hf⟩
    rw [bind_ok hx, hf]

/-- One step after another fails where the first one does, or the second one after the first. -/
theorem bind_eq_error {x : Action σ α} {f : α → Action σ β} {s t : σ} {e : Error} :
    (x >>= f) s = (t, .error e) ↔
      x s = (t, .error e) ∨ ∃ u a, x s = (u, .ok a) ∧ f a u = (t, .error e) := by
  rcases hx : x s with ⟨u, e' | a⟩
  · simp [bind_error hx]
  · simp [bind_ok hx]

instance decidableOk {P : σ → Prop} [DecidablePred P] :
    ∀ r : σ × Except Error Unit, Decidable (∀ t, r = (t, .ok ()) → P t)
  | (t, .ok ()) => decidable_of_iff (P t)
      ⟨fun h _ hu => (Prod.mk.inj hu).1 ▸ h, fun h => h t rfl⟩
  | (_, .error _) => isTrue fun _ h => nomatch h

theorem pure_eq_ok {a b : α} {s t : σ} :
    (pure a : Action σ α) s = (t, .ok b) ↔ s = t ∧ a = b := by
  simp [pure_run]

theorem get_eq_ok {s t a : σ} : (get : Action σ σ) s = (t, .ok a) ↔ t = s ∧ a = s := by
  simp [get, eq_comm]

theorem modify_eq_ok {f : σ → σ} {s t : σ} {u : Unit} :
    modify f s = (t, .ok u) ↔ t = f s := by
  simp [modify, eq_comm]

theorem read_eq_ok {f : σ → Except Error α} {s t : σ} {a : α} :
    read f s = (t, .ok a) ↔ t = s ∧ f s = .ok a := by
  simp [read, eq_comm]

theorem ofExcept_eq_ok {r : Except Error α} {s t : σ} {a : α} :
    ofExcept r s = (t, .ok a) ↔ t = s ∧ r = .ok a := by
  simp [ofExcept, eq_comm]

theorem update_eq_ok {f : σ → Except Error σ} {s t : σ} {u : Unit} :
    update f s = (t, .ok u) ↔ f s = .ok t := by
  cases h : f s <;> simp [update, h]

theorem failsOnly_update {E : Error → Prop} {f : σ → Except Error σ} {s : σ}
    (h : FailsOnly E (f s)) : FailsOnly E (update f s).2 := by
  cases hs : f s with
  | error e => simpa [update, hs] using h e hs
  | ok t => simp [update, hs]

theorem modify_ne_error {f : σ → σ} {s t : σ} {e : Error} : modify f s ≠ (t, .error e) := by
  simp [modify]

theorem read_eq_error {f : σ → Except Error α} {s t : σ} {e : Error} :
    read f s = (t, .error e) ↔ t = s ∧ f s = .error e := by
  simp [read, eq_comm]

theorem ofExcept_eq_error {r : Except Error α} {s t : σ} {e : Error} :
    (ofExcept r : Action σ α) s = (t, .error e) ↔ t = s ∧ r = .error e := by
  simp [ofExcept, eq_comm]

theorem update_eq_error {f : σ → Except Error σ} {s t : σ} {e : Error} :
    update f s = (t, .error e) ↔ t = s ∧ f s = .error e := by
  cases h : f s <;> simp [update, h, eq_comm]

/-- One step after another fails as the first one does, or as the second one after the first. -/
theorem failsOnly_bind {E : Error → Prop} {x : Action σ α} {f : α → Action σ β} {s : σ}
    (hx : FailsOnly E (x s).2) (hf : ∀ t a, x s = (t, .ok a) → FailsOnly E (f a t).2) :
    FailsOnly E ((x >>= f) s).2 := by
  rcases hs : x s with ⟨t, e | a⟩
  · rw [bind_error hs]
    rw [hs] at hx
    exact FailsOnly.error (hx e rfl)
  · rw [bind_ok hs]
    exact hf t a hs

theorem failsOnly_forEach {E : Error → Prop} {f : α → Action σ Unit} {as : List α}
    (h : ∀ a ∈ as, ∀ s, FailsOnly E (f a s).2) (s : σ) : FailsOnly E (forEach as f s).2 := by
  induction as generalizing s with
  | nil => exact FailsOnly.ok ()
  | cons a as ih =>
    exact failsOnly_bind (h a (by simp) s) fun t _ _ => ih (fun b hb => h b (by simp [hb])) t

theorem eq_ok_of_toBool {x : Action σ Unit} {s : σ} (h : (x s).2.toBool = true) :
    x s = ((x s).1, .ok ()) := by
  rcases hx : x s with ⟨t, e | u⟩
  · rw [hx] at h
    exact Bool.noConfusion h
  · rfl

theorem forEach_nil (f : α → Action σ Unit) : forEach [] f = pure () := rfl

theorem forEach_cons (a : α) (as : List α) (f : α → Action σ Unit) :
    forEach (a :: as) f = f a >>= fun _ => forEach as f := rfl

theorem forEach_nil_eq_ok {f : α → Action σ Unit} {s t : σ} {u : Unit} :
    forEach [] f s = (t, .ok u) ↔ t = s := by
  rw [forEach_nil, pure_eq_ok]
  exact ⟨fun h => h.1.symm, fun h => ⟨h.symm, rfl⟩⟩

theorem forEach_cons_eq_ok {a : α} {as : List α} {f : α → Action σ Unit} {s t : σ} {u : Unit} :
    forEach (a :: as) f s = (t, .ok u) ↔
      ∃ v, f a s = (v, .ok ()) ∧ forEach as f v = (t, .ok u) := by
  rw [forEach_cons, bind_eq_ok]
  constructor
  · rintro ⟨v, ⟨⟩, hv, ht⟩
    exact ⟨v, hv, ht⟩
  · rintro ⟨v, hv, ht⟩
    exact ⟨v, (), hv, ht⟩

theorem forEach_append_eq_ok {as bs : List α} {f : α → Action σ Unit} {s t : σ} {u : Unit} :
    forEach (as ++ bs) f s = (t, .ok u) ↔
      ∃ v, forEach as f s = (v, .ok ()) ∧ forEach bs f v = (t, .ok u) := by
  induction as generalizing s with
  | nil => simp [forEach_nil_eq_ok]
  | cons a as ih =>
    simp only [List.cons_append, forEach_cons_eq_ok, ih]
    constructor
    · rintro ⟨v, hv, w, hw, ht⟩
      exact ⟨w, ⟨v, hv, hw⟩, ht⟩
    · rintro ⟨w, ⟨v, hv, hw⟩, ht⟩
      exact ⟨v, hv, w, hw, ht⟩

/-- Where every step of a run is seen as a step of a fold, the run is seen as the fold. -/
theorem foldlM_of_forEach {as : List α} {f : α → Action σ Unit} {s t : σ} (view : σ → τ)
    (step : τ → α → Option τ)
    (hstep : ∀ a s t, f a s = (t, .ok ()) → step (view s) a = some (view t))
    (h : forEach as f s = (t, .ok ())) : as.foldlM step (view s) = some (view t) := by
  induction as generalizing s with
  | nil =>
    obtain rfl := forEach_nil_eq_ok.mp h
    rfl
  | cons a as ih =>
    obtain ⟨u, hu, hrest⟩ := forEach_cons_eq_ok.mp h
    rw [List.foldlM_cons, hstep a s u hu]
    exact ih hrest

theorem forEach_singleton (a : α) (f : α → Action σ Unit) : forEach [a] f = f a := by
  funext s
  rw [forEach_cons]
  rcases hs : f a s with ⟨t, e | u⟩
  · rw [bind_error hs]
  · rw [bind_ok hs]
    rfl

theorem forEach_of_id {f : α → Action σ Unit} {as : List α} {s : σ}
    (h : ∀ a ∈ as, f a s = (s, .ok ())) : forEach as f s = (s, .ok ()) := by
  induction as with
  | nil => rfl
  | cons a as ih =>
    rw [forEach_cons, bind_ok (h a (by simp))]
    exact ih fun b hb => h b (by simp [hb])

/-- Whatever becomes of the step, the states before and after it are related. -/
def Keeps (r : σ → σ → Prop) (x : Action σ α) : Prop := ∀ s, r s (x s).1

/-- A relation that holds over no step at all and over one step after another. -/
structure IsPath (r : σ → σ → Prop) : Prop where
  refl : ∀ s, r s s
  trans : ∀ {s t u}, r s t → r t u → r s u

/-- To keep a property of the state is such a relation. -/
theorem IsPath.implies (P : σ → Prop) : IsPath fun s t => P s → P t :=
  ⟨fun _ => id, fun h h' hs => h' (h hs)⟩

/-- From one state, the rest has to keep the relation only where it begins. -/
theorem IsPath.bind {r : σ → σ → Prop} {x : Action σ α} {f : α → Action σ β} {s : σ}
    (hr : IsPath r) (hx : r s (x s).1) (hf : ∀ {t a}, x s = (t, .ok a) → r t (f a t).1) :
    r s ((x >>= f) s).1 := by
  rcases hs : x s with ⟨t, e | a⟩
  · rw [bind_error hs]
    simpa [hs] using hx
  · rw [bind_ok hs]
    exact hr.trans (by simpa [hs] using hx) (hf hs)

/-- One step after another ends where the first one fails or where the second one ends. -/
theorem of_bind {P : σ → Prop} {x : Action σ α} {f : α → Action σ β} {s : σ}
    (herror : ∀ {t e}, x s = (t, .error e) → P t)
    (hok : ∀ {t a}, x s = (t, .ok a) → P (f a t).1) : P ((x >>= f) s).1 := by
  rcases hs : x s with ⟨t, e | a⟩
  · rw [bind_error hs]
    exact herror hs
  · rw [bind_ok hs]
    exact hok hs

namespace Keeps

variable {r : σ → σ → Prop} {x : Action σ α} {f : α → Action σ β}

protected theorem pure (hr : IsPath r) (a : α) : Keeps r (pure a : Action σ α) := hr.refl

protected theorem get (hr : IsPath r) : Keeps r (get : Action σ σ) := hr.refl

protected theorem read (hr : IsPath r) (g : σ → Except Error α) : Keeps r (read g) := hr.refl

protected theorem ofExcept (hr : IsPath r) (a : Except Error α) :
    Keeps r (ofExcept a : Action σ α) := hr.refl

protected theorem modify {g : σ → σ} (h : ∀ s, r s (g s)) : Keeps r (modify g) := h

protected theorem update (hr : IsPath r) {g : σ → Except Error σ}
    (h : ∀ s t, g s = .ok t → r s t) : Keeps r (update g) := by
  intro s
  cases hs : g s with
  | error e => simpa [update, hs] using hr.refl s
  | ok t => simpa [update, hs] using h s t hs

/-- The rest has to keep the relation for the answers that there are. -/
theorem bind_of_ok (hr : IsPath r) (hx : Keeps r x)
    (hf : ∀ {s t a}, x s = (t, .ok a) → Keeps r (f a)) : Keeps r (x >>= f) :=
  fun s => hr.bind (hx s) fun {t _} hs => hf hs t

protected theorem imp {r' : σ → σ → Prop} (hx : Keeps r x) (h : ∀ s t, r s t → r' s t) :
    Keeps r' x := fun s => h s _ (hx s)

protected theorem bind (hr : IsPath r) (hx : Keeps r x) (hf : ∀ a, Keeps r (f a)) :
    Keeps r (x >>= f) := bind_of_ok hr hx fun {_ _ a} _ => hf a

theorem forEach_of_mem (hr : IsPath r) {g : α → Action σ Unit} {as : List α}
    (h : ∀ a ∈ as, Keeps r (g a)) : Keeps r (forEach as g) := by
  induction as with
  | nil => exact hr.refl
  | cons a as ih =>
    exact Keeps.bind hr (h a (by simp)) fun _ => ih fun b hb => h b (by simp [hb])

protected theorem forEach (hr : IsPath r) {g : α → Action σ Unit} (h : ∀ a, Keeps r (g a))
    (as : List α) : Keeps r (forEach as g) := forEach_of_mem hr fun a _ => h a

end Keeps

/-- After success the states before and after the step are related. -/
def Moves (r : σ → σ → Prop) (x : Action σ α) : Prop := ∀ ⦃s t a⦄, x s = (t, .ok a) → r s t

namespace Moves

variable {r : σ → σ → Prop}

protected theorem forEach (hr : IsPath r) {g : α → Action σ Unit} {as : List α}
    (h : ∀ a ∈ as, Moves r (g a)) : Moves r (forEach as g) := by
  intro s t u hs
  induction as generalizing s with
  | nil => exact forEach_nil_eq_ok.mp hs ▸ hr.refl s
  | cons a as ih =>
    obtain ⟨v, hv, ht⟩ := forEach_cons_eq_ok.mp hs
    exact hr.trans (h a (by simp) hv) (ih (fun b hb => h b (by simp [hb])) ht)

end Moves

/-- Where `I` holds, it holds after the step, and the step fails only with `E`. -/
def Safe (E : Error → Prop) (I : σ → Prop) (x : Action σ α) : Prop :=
  ∀ s, I s → I (x s).1 ∧ FailsOnly E (x s).2

namespace Safe

variable {E : Error → Prop} {I : σ → Prop} {x : Action σ α} {f : α → Action σ β}

protected theorem pure (a : α) : Safe E I (pure a : Action σ α) := fun _ hs => ⟨hs, .ok a⟩

protected theorem get : Safe E I (get : Action σ σ) := fun s hs => ⟨hs, .ok s⟩

protected theorem modify {g : σ → σ} (h : ∀ s, I s → I (g s)) : Safe E I (modify g) :=
  fun s hs => ⟨h s hs, .ok ()⟩

protected theorem read {g : σ → Except Error α} (h : ∀ s, I s → FailsOnly E (g s)) :
    Safe E I (read g) := fun s hs => ⟨hs, h s hs⟩

protected theorem ofExcept {a : Except Error α} (h : FailsOnly E a) :
    Safe E I (ofExcept a : Action σ α) := fun _ hs => ⟨hs, h⟩

protected theorem update {g : σ → Except Error σ} (hg : ∀ s, I s → FailsOnly E (g s))
    (h : ∀ s t, I s → g s = .ok t → I t) : Safe E I (update g) := by
  refine fun s hs => ⟨?_, failsOnly_update (hg s hs)⟩
  cases hgs : g s with
  | error e => simpa [update, hgs] using hs
  | ok t => simpa [update, hgs] using h s t hs hgs

theorem update_of_gives {g : σ → Except Error σ} (h : ∀ s, I s → Except.Gives E I (g s)) :
    Safe E I (update g) :=
  Safe.update (fun s hs => (h s hs).fails) fun s t hs ht => (h s hs).value t ht

/-- The rest has to be safe for the answers that there are. -/
theorem bind_of_ok (hx : Safe E I x)
    (hf : ∀ {s t a}, I s → x s = (t, .ok a) → Safe E I (f a)) : Safe E I (x >>= f) := by
  intro s hs
  obtain ⟨hI, hE⟩ := hx s hs
  rcases hxs : x s with ⟨t, e | a⟩
  · rw [bind_error hxs]
    rw [hxs] at hI hE
    exact ⟨hI, .error (hE e rfl)⟩
  · rw [bind_ok hxs]
    rw [hxs] at hI
    exact hf hs hxs t hI

protected theorem bind (hx : Safe E I x) (hf : ∀ a, Safe E I (f a)) : Safe E I (x >>= f) :=
  bind_of_ok hx fun {_ _ a} _ _ => hf a

protected theorem forEach {g : α → Action σ Unit} {as : List α} (h : ∀ a ∈ as, Safe E I (g a)) :
    Safe E I (forEach as g) := by
  induction as with
  | nil => exact Safe.pure ()
  | cons a as ih => exact Safe.bind (h a (by simp)) fun _ => ih fun b hb => h b (by simp [hb])

theorem ok {s t : σ} {a : α} (hx : Safe E I x) (hs : I s) (h : x s = (t, .ok a)) : I t := by
  have hI := (hx s hs).1
  rwa [h] at hI

/-- What a relation keeps anyway only has to be shown not to fail otherwise. -/
theorem of_keeps (hx : Keeps (fun s t => I s → I t) x) (h : ∀ s, I s → FailsOnly E (x s).2) :
    Safe E I x := fun s hs => ⟨hx s hs, h s hs⟩

end Safe

/-- Related states stay related and the answers agree. -/
def Mirrors (R : σ → τ → Prop) (S : α → β → Prop) (x : Action σ α) (y : Action τ β) : Prop :=
  ∀ s t, R s t → R (x s).1 (y t).1 ∧ Agree S (x s).2 (y t).2

namespace Mirrors

variable {R : σ → τ → Prop} {S : α → β → Prop} {T : γ → δ → Prop}
  {x : Action σ α} {y : Action τ β}

protected theorem pure {a : α} {b : β} (h : S a b) :
    Mirrors R S (pure a : Action σ α) (pure b : Action τ β) := fun _ _ hR => ⟨hR, .ok h⟩

protected theorem get : Mirrors R R (get : Action σ σ) (get : Action τ τ) :=
  fun _ _ hR => ⟨hR, .ok hR⟩

protected theorem modify {f : σ → σ} {g : τ → τ} (h : ∀ s t, R s t → R (f s) (g t)) :
    Mirrors R Eq (modify f) (modify g) := fun s t hR => ⟨h s t hR, .ok rfl⟩

protected theorem ofExcept (r : Except Error α) :
    Mirrors R Eq (ofExcept r : Action σ α) (ofExcept r : Action τ α) :=
  fun _ _ hR => ⟨hR, .of_eq rfl⟩

protected theorem read {f : σ → Except Error α} {g : τ → Except Error α}
    (h : ∀ s t, R s t → f s = g t) : Mirrors R Eq (read f) (read g) :=
  fun s t hR => ⟨hR, .of_eq (h s t hR)⟩

protected theorem update {f : σ → Except Error σ} {g : τ → Except Error τ}
    (h : ∀ s t, R s t → Agree R (f s) (g t)) : Mirrors R Eq (update f) (update g) := by
  intro s t hR
  have hst := h s t hR
  generalize hf : f s = a at hst
  generalize hg : g t = b at hst
  cases hst with
  | ok h => simpa [update, hf, hg] using ⟨h, Agree.of_eq rfl⟩
  | error e => simpa [update, hf, hg] using ⟨hR, Agree.of_eq rfl⟩

protected theorem bind {f : α → Action σ γ} {g : β → Action τ δ} (hx : Mirrors R S x y)
    (hf : ∀ a b, S a b → Mirrors R T (f a) (g b)) : Mirrors R T (x >>= f) (y >>= g) := by
  intro s t hR
  obtain ⟨hR', hS⟩ := hx s t hR
  rcases hs : x s with ⟨s', a⟩
  rcases ht : y t with ⟨t', b⟩
  simp only [hs, ht] at hR' hS
  cases hS with
  | error e =>
    rw [bind_error hs, bind_error ht]
    exact ⟨hR', .error e⟩
  | ok h =>
    rw [bind_ok hs, bind_ok ht]
    exact hf _ _ h s' t' hR'

protected theorem forEach {f : α → Action σ Unit} {g : α → Action τ Unit} {as : List α}
    (h : ∀ a ∈ as, Mirrors R Eq (f a) (g a)) : Mirrors R Eq (forEach as f) (forEach as g) := by
  induction as with
  | nil => exact Mirrors.pure rfl
  | cons a as ih =>
    have htail : Mirrors R Eq (forEach as f) (forEach as g) :=
      ih fun b hb => h b (by simp [hb])
    exact Mirrors.bind (h a (by simp)) fun _ _ _ => htail

theorem ok {s s' : σ} {t : τ} {a : α} (h : Mirrors R S x y) (hR : R s t)
    (hs : x s = (s', .ok a)) : ∃ t' b, y t = (t', .ok b) ∧ R s' t' ∧ S a b := by
  obtain ⟨hR', hS⟩ := h s t hR
  rcases ht : y t with ⟨t', b⟩
  simp only [hs, ht] at hR' hS
  cases hS with
  | ok hab => exact ⟨t', _, rfl, hR', hab⟩

end Mirrors

/-- Related states lead to related states and related answers where both steps succeed. -/
def Meets (R : σ → τ → Prop) (S : α → β → Prop) (x : Action σ α) (y : Action τ β) : Prop :=
  ∀ ⦃s t s' t' a b⦄, R s t → x s = (s', .ok a) → y t = (t', .ok b) → R s' t' ∧ S a b

namespace Meets

variable {R : σ → τ → Prop} {S : α → β → Prop} {T : γ → δ → Prop}
  {x : Action σ α} {y : Action τ β}

protected theorem pure {a : α} {b : β} (h : S a b) :
    Meets R S (pure a : Action σ α) (pure b : Action τ β) := by
  intro s t s' t' a' b' hR hs ht
  obtain ⟨rfl, rfl⟩ := pure_eq_ok.mp hs
  obtain ⟨rfl, rfl⟩ := pure_eq_ok.mp ht
  exact ⟨hR, h⟩

protected theorem get : Meets R R (get : Action σ σ) (get : Action τ τ) := by
  intro s t s' t' a b hR hs ht
  obtain ⟨rfl, rfl⟩ := get_eq_ok.mp hs
  obtain ⟨rfl, rfl⟩ := get_eq_ok.mp ht
  exact ⟨hR, hR⟩

protected theorem modify {f : σ → σ} {g : τ → τ} (h : ∀ s t, R s t → R (f s) (g t)) :
    Meets R Eq (modify f) (modify g) := by
  intro s t s' t' a b hR hs ht
  obtain rfl := modify_eq_ok.mp hs
  obtain rfl := modify_eq_ok.mp ht
  exact ⟨h s t hR, rfl⟩

protected theorem read {f : σ → Except Error α} {g : τ → Except Error β}
    (h : ∀ s t, R s t → Except.Meets S (f s) (g t)) : Meets R S (read f) (read g) := by
  intro s t s' t' a b hR hs ht
  obtain ⟨rfl, ha⟩ := read_eq_ok.mp hs
  obtain ⟨rfl, hb⟩ := read_eq_ok.mp ht
  exact ⟨hR, h _ _ hR a b ha hb⟩

protected theorem ofExcept {r : Except Error α} {r' : Except Error β} (h : Except.Meets S r r') :
    Meets R S (ofExcept r : Action σ α) (ofExcept r' : Action τ β) := Meets.read fun _ _ _ => h

protected theorem update {f : σ → Except Error σ} {g : τ → Except Error τ}
    (h : ∀ s t, R s t → Except.Meets R (f s) (g t)) : Meets R Eq (update f) (update g) :=
  fun _ _ _ _ _ _ hR hs ht =>
    ⟨h _ _ hR _ _ (update_eq_ok.mp hs) (update_eq_ok.mp ht), rfl⟩

protected theorem bind {f : α → Action σ γ} {g : β → Action τ δ} (hx : Meets R S x y)
    (hf : ∀ a b, S a b → Meets R T (f a) (g b)) : Meets R T (x >>= f) (y >>= g) := by
  intro s t s' t' c d hR hs ht
  obtain ⟨u, a, hu, hs⟩ := bind_eq_ok.mp hs
  obtain ⟨v, b, hv, ht⟩ := bind_eq_ok.mp ht
  obtain ⟨hR, hS⟩ := hx hR hu hv
  exact hf a b hS hR hs ht

protected theorem forEach {f : α → Action σ Unit} {g : α → Action τ Unit} {as : List α}
    (h : ∀ a ∈ as, Meets R Eq (f a) (g a)) : Meets R Eq (forEach as f) (forEach as g) := by
  induction as with
  | nil => exact Meets.pure rfl
  | cons a as ih =>
    have htail : Meets R Eq (forEach as f) (forEach as g) := ih fun b hb => h b (by simp [hb])
    exact Meets.bind (h a (by simp)) fun _ _ _ => htail

end Meets

/-- From one pair of states, the states after the steps are related and the answers match: both steps
succeed, or both fail with related errors. -/
def ShadowsAt (E : Error → Error → Prop) (R : σ → τ → Prop) (S : α → β → Prop) (x : Action σ α)
    (y : Action τ β) (s : σ) (t : τ) : Prop := R (x s).1 (y t).1 ∧ Matches E S (x s).2 (y t).2

/-- From any related states. -/
def Shadows (E : Error → Error → Prop) (R : σ → τ → Prop) (S : α → β → Prop) (x : Action σ α)
    (y : Action τ β) : Prop := ∀ s t, R s t → ShadowsAt E R S x y s t

section Shadows

variable {E : Error → Error → Prop} {R : σ → τ → Prop} {S : α → β → Prop} {T : γ → δ → Prop}
  {x : Action σ α} {y : Action τ β}

theorem ShadowsAt.imp {R' : σ → τ → Prop} {s : σ} {t : τ} (h : ShadowsAt E R S x y s t)
    (hR : ∀ s t, R s t → R' s t) : ShadowsAt E R' S x y s t := ⟨hR _ _ h.1, h.2⟩

/-- The rest is taken up where both steps have succeeded. -/
theorem ShadowsAt.bind {f : α → Action σ γ} {g : β → Action τ δ} {s : σ} {t : τ}
    (hx : ShadowsAt E R S x y s t)
    (hf : ∀ {s' t' a b}, x s = (s', .ok a) → y t = (t', .ok b) → R s' t' → S a b →
      ShadowsAt E R T (f a) (g b) s' t') : ShadowsAt E R T (x >>= f) (y >>= g) s t := by
  obtain ⟨hR, hS⟩ := hx
  rcases hs : x s with ⟨s', a⟩
  rcases ht : y t with ⟨t', b⟩
  simp only [hs, ht] at hR hS
  unfold ShadowsAt
  cases hS with
  | error h =>
    rw [bind_error hs, bind_error ht]
    exact ⟨hR, .error h⟩
  | ok h =>
    rw [bind_ok hs, bind_ok ht]
    exact hf hs ht hR h

theorem ShadowsAt.update {f : σ → Except Error σ} {g : τ → Except Error τ} {s : σ} {t : τ}
    (hR : R s t) (h : Matches E R (f s) (g t)) : ShadowsAt E R Eq (update f) (update g) s t := by
  unfold ShadowsAt Action.update
  generalize f s = a at h
  generalize g t = b at h
  cases h with
  | ok h => exact ⟨h, .ok rfl⟩
  | error h => exact ⟨hR, .error h⟩

namespace Shadows

protected theorem pure {a : α} {b : β} (h : S a b) :
    Shadows E R S (pure a : Action σ α) (pure b : Action τ β) := fun _ _ hR => ⟨hR, .ok h⟩

protected theorem get : Shadows E R R (get : Action σ σ) (get : Action τ τ) :=
  fun _ _ hR => ⟨hR, .ok hR⟩

protected theorem modify {f : σ → σ} {g : τ → τ} (h : ∀ s t, R s t → R (f s) (g t)) :
    Shadows E R Eq (modify f) (modify g) := fun s t hR => ⟨h s t hR, .ok rfl⟩

protected theorem ofExcept [Std.Refl E] (r : Except Error α) :
    Shadows E R Eq (ofExcept r : Action σ α) (ofExcept r : Action τ α) :=
  fun _ _ hR => ⟨hR, .of_eq rfl⟩

protected theorem read {f : σ → Except Error α} {g : τ → Except Error β}
    (h : ∀ s t, R s t → Matches E S (f s) (g t)) : Shadows E R S (read f) (read g) :=
  fun s t hR => ⟨hR, h s t hR⟩

protected theorem update {f : σ → Except Error σ} {g : τ → Except Error τ}
    (h : ∀ s t, R s t → Matches E R (f s) (g t)) : Shadows E R Eq (update f) (update g) :=
  fun s t hR => .update hR (h s t hR)

protected theorem bind {f : α → Action σ γ} {g : β → Action τ δ} (hx : Shadows E R S x y)
    (hf : ∀ a b, S a b → Shadows E R T (f a) (g b)) : Shadows E R T (x >>= f) (y >>= g) :=
  fun s t hR => (hx s t hR).bind fun _ _ hR' hS => hf _ _ hS _ _ hR'

protected theorem forEach {f : α → Action σ Unit} {g : α → Action τ Unit} {as : List α}
    (h : ∀ a ∈ as, Shadows E R Eq (f a) (g a)) : Shadows E R Eq (forEach as f) (forEach as g) := by
  induction as with
  | nil => exact Shadows.pure rfl
  | cons a as ih =>
    have htail : Shadows E R Eq (forEach as f) (forEach as g) :=
      ih fun b hb => h b (by simp [hb])
    exact Shadows.bind (h a (by simp)) fun _ _ _ => htail

end Shadows
end Shadows
end Backtesting.Action
