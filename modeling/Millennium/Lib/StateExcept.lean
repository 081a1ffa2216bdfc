import Mathlib.Logic.Basic

/-!
# Computations with a state that exceptions do not undo

A C++ function that throws has done what it did before. Such functions are computations
of `EStateM`; here is how their runs are taken apart.
-/

namespace Millennium.StateExcept

variable {ε σ α β : Type} {s : σ}

/-- What happens outside of the state: a value, or an exception. -/
def lift (outcome : Except ε α) : EStateM ε σ α :=
  match outcome with
  | .ok a => pure a
  | .error e => throw e

def final : EStateM.Result ε σ α → σ
  | .ok _ s => s
  | .error _ s => s

@[simp] lemma final_ok (a : α) (s : σ) : final (.ok a s : EStateM.Result ε σ α) = s := rfl

@[simp] lemma final_error (e : ε) (s : σ) : final (.error e s : EStateM.Result ε σ α) = s := rfl

lemma bind_run (x : EStateM ε σ α) (f : α → EStateM ε σ β) : (x >>= f) s = match x s with
      | .ok a s => f a s
      | .error e s => .error e s := by
  change EStateM.bind x f s = _
  unfold EStateM.bind
  cases x s <;> rfl

@[simp] lemma lift_ok_bind (a : α) (f : α → EStateM ε σ β) : (lift (.ok a) >>= f) s = f a s := rfl

@[simp] lemma lift_error_bind (e : ε) (f : α → EStateM ε σ β) :
    (lift (.error e) >>= f) s = .error e s := rfl

lemma tryCatch_run (x : EStateM ε σ α) (handler : ε → EStateM ε σ α) :
    (tryCatch x handler : EStateM ε σ α) s =
      match x s with
      | .ok a s => .ok a s
      | .error e s => handler e s := by
  change EStateM.tryCatch x handler s = _
  unfold EStateM.tryCatch
  cases x s <;> rfl

lemma bind_eq_ok {x : EStateM ε σ α} {f : α → EStateM ε σ β} {b : β} {s' : σ}
    (h : (x >>= f) s = .ok b s') : ∃ a s₁, x s = .ok a s₁ ∧ f a s₁ = .ok b s' := by
  rw [bind_run] at h
  cases hx : x s with
  | ok a s₁ =>
    rw [hx] at h
    exact ⟨a, s₁, rfl, h⟩
  | error e s₁ =>
    rw [hx] at h
    cases h

lemma lift_eq_ok {outcome : Except ε α} {a : α} {s' : σ}
    (h : (lift outcome : EStateM ε σ α) s = .ok a s') : outcome = .ok a ∧ s' = s := by
  cases outcome with
  | error e => cases h
  | ok a' =>
    cases h
    exact ⟨rfl, rfl⟩

end Millennium.StateExcept
