import Mathlib.Logic.Relation

/-!
# Transition systems and waiting

The states that a relation reaches, the rule for invariants, and cycles of a
waits-for relation.
-/

namespace Millennium.Transitions

variable {σ τ : Type*}

def Reachable (step : σ → σ → Prop) (start : σ → Prop) (s : σ) : Prop :=
  ∃ s₀, start s₀ ∧ Relation.ReflTransGen step s₀ s

section
variable {step : σ → σ → Prop} {start : σ → Prop} {s s' : σ}

lemma Reachable.init (h : start s) : Reachable step start s :=
  ⟨s, h, .refl⟩

lemma Reachable.tail (h : Reachable step start s) (hs : step s s') : Reachable step start s' := by
  obtain ⟨s₀, hs₀, hrun⟩ := h
  exact ⟨s₀, hs₀, hrun.tail hs⟩

lemma Reachable.steps (h : Reachable step start s) (hs : Relation.ReflTransGen step s s') :
    Reachable step start s' := by
  obtain ⟨s₀, hs₀, hrun⟩ := h
  exact ⟨s₀, hs₀, hrun.trans hs⟩

lemma Reachable.invariant (inv : σ → Prop) (hstart : ∀ s, start s → inv s)
    (hstep : ∀ s s', inv s → step s s' → inv s') (h : Reachable step start s) : inv s := by
  obtain ⟨s₀, hs₀, hrun⟩ := h
  induction hrun with
  | refl => exact hstart s₀ hs₀
  | tail _ hlast ih => exact hstep _ _ ih hlast

end

structure Allowed (step allowed : σ → σ → Prop) (s s' : σ) : Prop where
  step : step s s'
  allowed : allowed s s'

lemma steps_of_allowed {step allowed : σ → σ → Prop} {s s' : σ}
    (h : Relation.ReflTransGen (Allowed step allowed) s s') : Relation.ReflTransGen step s s' :=
  h.lift id fun _ _ hstep => hstep.step

lemma Reachable.of_allowed {step allowed : σ → σ → Prop} {start : σ → Prop} {s : σ}
    (h : Reachable (Allowed step allowed) start s) : Reachable step start s := by
  obtain ⟨s₀, hs₀, hrun⟩ := h
  exact ⟨s₀, hs₀, steps_of_allowed hrun⟩

/-- Somebody waits, through others, for himself. -/
def Cyclic (waits : τ → τ → Prop) : Prop := ∃ t, Relation.TransGen waits t t

section
variable {waits : τ → τ → Prop}

lemma not_cyclic_of_rank (rank : τ → Nat)
    (h : ∀ t u, waits t u → rank u < rank t) : ¬ Cyclic waits := by
  intro hcycle
  obtain ⟨t, ht⟩ := hcycle
  have hdown : ∀ u, Relation.TransGen waits t u → rank u < rank t := by
    intro u hu
    induction hu with
    | single hw => exact h _ _ hw
    | tail _ hw ih => exact Nat.lt_trans (h _ _ hw) ih
  exact Nat.lt_irrefl _ (hdown t ht)

end

end Millennium.Transitions
