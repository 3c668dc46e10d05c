import Backtesting.Error

/-!
Steps of a state that may fail. What a step did before it failed stays done: the state it leaves
behind is part of the outcome, whether it succeeded or not.
-/
namespace Backtesting

def Action (σ : Type) (α : Type) : Type := σ → σ × Except Error α

namespace Action

variable {σ τ α β : Type}

protected def pure (a : α) : Action σ α := fun s => (s, .ok a)

protected def bind (x : Action σ α) (f : α → Action σ β) : Action σ β := fun s =>
  match x s with
  | (s, .ok a) => f a s
  | (s, .error e) => (s, .error e)

instance : Monad (Action σ) where
  pure := Action.pure
  bind := Action.bind

def get : Action σ σ := fun s => (s, .ok s)

def modify (f : σ → σ) : Action σ Unit := fun s => (f s, .ok ())

def fail (e : Error) : Action σ α := fun s => (s, .error e)

/-- A result that depends on nothing but the state and leaves it as it is. -/
def read (f : σ → Except Error α) : Action σ α := fun s => (s, f s)

def ofExcept (r : Except Error α) : Action σ α := fun s => (s, r)

/-- A change that either succeeds as a whole or leaves the state as it was. -/
def update (f : σ → Except Error σ) : Action σ Unit := fun s =>
  match f s with
  | .ok s => (s, .ok ())
  | .error e => (s, .error e)

def forEach : List α → (α → Action σ Unit) → Action σ Unit
  | [], _ => Action.pure ()
  | a :: as, f => Action.bind (f a) fun _ => forEach as f

theorem pure_run (a : α) (s : σ) : (pure a : Action σ α) s = (s, .ok a) := rfl

theorem bind_ok {x : Action σ α} {f : α → Action σ β} {s t : σ} {a : α} (h : x s = (t, .ok a)) :
    (x >>= f) s = f a t := by
  show Action.bind x f s = _
  simp only [Action.bind, h]

theorem bind_error {x : Action σ α} {f : α → Action σ β} {s t : σ} {e : Error}
    (h : x s = (t, .error e)) : (x >>= f) s = (t, .error e) := by
  show Action.bind x f s = _
  simp only [Action.bind, h]

end Action
end Backtesting
