import Mathlib.Tactic.Common

/-!
# Computations that record events

A computation may fail, and it records events on the way. What was recorded before a failure is
kept, so that a statement about all events covers the runs that fail as well.
-/

namespace Millennium

structure Traced (ε γ α : Type) where
  events : List γ
  result : Except ε α

namespace Traced

variable {ε γ α β : Type}

def record (events : List γ) (a : α) : Traced ε γ α := ⟨events, .ok a⟩

def fail (e : ε) : Traced ε γ α := ⟨[], .error e⟩

def andThen (x : Traced ε γ α) (f : α → Traced ε γ β) : Traced ε γ β :=
  match x.result with
  | .error e => ⟨x.events, .error e⟩
  | .ok a => ⟨x.events ++ (f a).events, (f a).result⟩

instance : Monad (Traced ε γ) where
  pure := record []
  bind := andThen

section
variable {x : Traced ε γ α} {f : α → Traced ε γ β}

@[simp] lemma result_record (events : List γ) (a : α) :
    (record events a : Traced ε γ α).result = .ok a := rfl

@[simp] lemma events_record (events : List γ) (a : α) :
    (record events a : Traced ε γ α).events = events := rfl

@[simp] lemma result_fail (e : ε) : (fail e : Traced ε γ α).result = .error e := rfl

@[simp] lemma events_fail (e : ε) : (fail e : Traced ε γ α).events = [] := rfl

@[simp] lemma result_pure (a : α) : (pure a : Traced ε γ α).result = .ok a := rfl

@[simp] lemma events_pure (a : α) : (pure a : Traced ε γ α).events = [] := rfl

@[simp] lemma result_bind : (x >>= f).result = x.result >>= fun a => (f a).result := by
  change (andThen x f).result = _
  unfold andThen
  cases x.result <;> rfl

lemma mem_events_bind {e : γ} :
    e ∈ (x >>= f).events ↔ e ∈ x.events ∨ ∃ a, x.result = .ok a ∧ e ∈ (f a).events := by
  change e ∈ (andThen x f).events ↔ _
  unfold andThen
  cases x.result with
  | error e => simp
  | ok a => simp

def Only (P : γ → Prop) (x : Traced ε γ α) : Prop := ∀ e ∈ x.events, P e

variable {P : γ → Prop}

lemma only_pure (a : α) : (pure a : Traced ε γ α).Only P := List.forall_mem_nil P

lemma only_fail (e : ε) : (fail e : Traced ε γ α).Only P := List.forall_mem_nil P

lemma only_bind (hx : x.Only P) (hf : ∀ a, x.result = .ok a → (f a).Only P) : (x >>= f).Only P := by
  intro e he
  obtain he | ⟨a, ha, he⟩ := mem_events_bind.mp he
  · exact hx e he
  · exact hf a ha e he

lemma only_ite {c : Prop} [Decidable c] {y z : Traced ε γ α} (hy : c → y.Only P)
    (hz : ¬ c → z.Only P) : (if c then y else z).Only P := by
  split_ifs with h
  · exact hy h
  · exact hz h

end

end Traced

end Millennium
