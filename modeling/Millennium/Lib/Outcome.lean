import Mathlib.Data.List.Forall2

/-!
# Computations that may fail

Peeling a successful `Except` computation apart, one bind at a time, and loops
whose turns succeed.
-/

namespace Millennium.Outcome

open List

universe u v

variable {ε : Type u} {α β : Type v}

lemma bind_eq_ok_iff {x : Except ε α} {f : α → Except ε β} {r : β} :
    (x >>= f) = .ok r ↔ ∃ a, x = .ok a ∧ f a = .ok r := by
  cases x with
  | error | ok => simp [bind, Except.bind]

lemma map_eq_ok_iff {x : Except ε α} {f : α → β} {r : β} :
    x.map f = .ok r ↔ ∃ a, x = .ok a ∧ f a = r := by
  cases x with
  | error | ok => simp [Except.map]

lemma mapError_eq_ok_iff {ε' : Type*} {x : Except ε α} {f : ε → ε'} {r : α} :
    x.mapError f = .ok r ↔ x = .ok r := by
  cases x with
  | error | ok => simp [Except.mapError]

lemma bind_ok (x : Except ε α) (f : α → β) : (x >>= fun a => .ok (f a)) = x.map f := rfl

@[simp] lemma ok_bind (a : α) (f : α → Except ε β) : (Except.ok a >>= f) = f a := rfl

lemma guard_eq_ok {c : Prop} [Decidable c] {e : ε} {x : Except ε α} {a : α}
    (h : (if c then .error e else x) = .ok a) : ¬ c ∧ x = .ok a := by
  by_cases hc : c
  · rw [if_pos hc] at h
    cases h
  · rw [if_neg hc] at h
    exact ⟨hc, h⟩

lemma foldlM_ok {f : β → α → Except ε β} (inv : β → Prop)
    (hstep : ∀ b a, inv b → ∃ b', f b a = .ok b' ∧ inv b') (l : List α) {b : β} (hb : inv b) :
    ∃ b', l.foldlM f b = .ok b' ∧ inv b' := by
  induction l generalizing b with
  | nil => exact ⟨b, rfl, hb⟩
  | cons a rest ih =>
    obtain ⟨b₁, hturn, hb₁⟩ := hstep b a hb
    rw [foldlM_cons, hturn]
    exact ih hb₁

def orError (e : ε) : Option α → Except ε α
  | some a => .ok a
  | none => .error e

lemma orError_eq_ok_iff {e : ε} {o : Option α} {a : α} : orError e o = .ok a ↔ o = some a := by
  cases o with
  | none | some => simp [orError]

lemma mapM_orError {f : α → Option β} {e : α → ε} {l : List α} {l' : List β}
    (h : l.map f = l'.map some) : l.mapM (fun a => orError (e a) (f a)) = .ok l' := by
  induction l generalizing l' with
  | nil =>
    rw [map_nil, eq_comm, map_eq_nil_iff] at h
    rw [h]
    rfl
  | cons a rest ih =>
    obtain ⟨b, bs, rfl, hb, hbs⟩ := map_eq_cons_iff.mp h.symm
    rw [mapM_cons, ← hb, ih hbs.symm]
    rfl

lemma mapM_eq_some_iff {f : α → Option β} {l : List α} {l' : List β} :
    l.mapM f = some l' ↔ List.Forall₂ (fun a b => f a = some b) l l' := by
  induction l generalizing l' with
  | nil =>
    rw [forall₂_nil_left_iff]
    exact ⟨fun h => (Option.some.inj h).symm, fun h => congrArg some h.symm⟩
  | cons a rest ih =>
    rw [mapM_cons, forall₂_cons_left_iff]
    constructor
    · intro h
      obtain ⟨b, hb, h⟩ := Option.bind_eq_some_iff.mp h
      obtain ⟨bs, hbs, h⟩ := Option.bind_eq_some_iff.mp h
      exact ⟨b, bs, hb, ih.mp hbs, (Option.some.inj h).symm⟩
    · rintro ⟨b, bs, hb, hbs, rfl⟩
      rw [hb, ih.mpr hbs]
      rfl

lemma mapM_isSome_iff {f : α → Option β} {l : List α} :
    (l.mapM f).isSome ↔ ∀ a ∈ l, (f a).isSome := by
  induction l with
  | nil => simp
  | cons a rest ih =>
    rw [mapM_cons, forall_mem_cons, ← ih]
    cases hf : f a with
    | none => simp
    | some => cases hr : rest.mapM f <;> simp

end Millennium.Outcome
