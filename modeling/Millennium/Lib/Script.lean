import Mathlib.Data.List.Basic

/-!
# Programs that act on a world they do not control

A script logs what it does, asks the world how things stand, and may throw. Every question moves the
world's clock on. What a script does in every world is read off its text by the rules for `Only`;
that it does something where the answers are known, by the rules for `Does`.
-/

namespace Millennium

open List

/-- How a script went: what it did, when it ended, and what it returned or threw. -/
structure Run (E α : Type) where
  log : List E
  clock : Nat
  result : Except String α

def Script (E α : Type) := Nat → Run E α

namespace Script

variable {E α β : Type}

def andThen (x : Script E α) (f : α → Script E β) : Script E β := fun t =>
  match (x t).result with
  | .error e => ⟨(x t).log, (x t).clock, .error e⟩
  | .ok a => ⟨(x t).log ++ (f a (x t).clock).log, (f a (x t).clock).clock, (f a (x t).clock).result⟩

instance : Monad (Script E) where
  pure a := fun t => ⟨[], t, .ok a⟩
  bind := andThen

def act (e : E) : Script E Unit := fun t => ⟨[e], t, .ok ()⟩

def ask (answer : Nat → Except String α) : Script E α := fun t => ⟨[], t + 1, answer t⟩

def raise (message : String) : Script E α := fun t => ⟨[], t, .error message⟩

def rescue (x : Script E α) (handler : String → Script E α) : Script E α := fun t =>
  match (x t).result with
  | .ok _ => x t
  | .error e => ⟨(x t).log ++ (handler e (x t).clock).log, (handler e (x t).clock).clock,
      (handler e (x t).clock).result⟩

def each (l : List α) (f : α → Script E Unit) : Script E Unit :=
  match l with
  | [] => pure ()
  | a :: rest => do
      f a
      each rest f

def Only (P : E → Prop) (x : Script E α) : Prop := ∀ t, ∀ e ∈ (x t).log, P e

section
variable {P : E → Prop} {x : Script E α} {f : α → Script E β}

lemma only_pure (a : α) : Only P (pure a : Script E α) := by
  rintro t e ⟨⟩

lemma only_act {e : E} (h : P e) : Only P (act e) := by
  intro t e' he'
  rw [mem_singleton.mp he']
  exact h

lemma only_ask (answer : Nat → Except String α) : Only P (ask answer) := by
  rintro t e ⟨⟩

lemma only_raise (message : String) : Only P (raise message : Script E α) := by
  rintro t e ⟨⟩

lemma only_bind (hx : Only P x)
    (hf : ∀ a, (∃ t, (x t).result = .ok a) → Only P (f a)) : Only P (x >>= f) := by
  intro t e he
  change e ∈ (andThen x f t).log at he
  unfold andThen at he
  cases hres : (x t).result with
  | error =>
    rw [hres] at he
    exact hx t e he
  | ok a =>
    rw [hres] at he
    rcases mem_append.mp he with he | he
    · exact hx t e he
    · exact hf a ⟨t, hres⟩ _ e he

lemma only_seq (hx : Only P x) (hf : ∀ a, Only P (f a)) : Only P (x >>= f) :=
  only_bind hx fun a _ => hf a

lemma only_rescue {handler : String → Script E α} (hx : Only P x)
    (hh : ∀ e, Only P (handler e)) : Only P (rescue x handler) := by
  intro t e he
  unfold rescue at he
  cases hres : (x t).result with
  | ok =>
    rw [hres] at he
    exact hx t e he
  | error message =>
    rw [hres] at he
    rcases mem_append.mp he with he | he
    · exact hx t e he
    · exact hh message _ e he

lemma only_each {l : List α} {f : α → Script E Unit} (h : ∀ a ∈ l, Only P (f a)) :
    Only P (each l f) := by
  induction l with
  | nil => exact only_pure ()
  | cons a rest ih =>
    refine only_seq (h a mem_cons_self) fun _ => ?_
    exact ih fun b hb => h b (mem_cons_of_mem _ hb)

end

def Does (x : Script E α) (e : E) : Prop := ∀ t, e ∈ (x t).log

def Returns (x : Script E α) (a : α) : Prop := ∀ t, (x t).result = .ok a

section
variable {x : Script E α} {f : α → Script E β} {e : E} {a : α} {b : β}

lemma does_act (e : E) : Does (act e) e := fun _ => mem_singleton.mpr rfl

lemma returns_pure (a : α) : Returns (pure a : Script E α) a := fun _ => rfl

lemma returns_act (e : E) : Returns (act e) () := fun _ => rfl

lemma returns_ask {answer : Nat → Except String α} (h : ∀ t, answer t = .ok a) :
    Returns (ask answer : Script E α) a := h

lemma Does.first (h : Does x e) : Does (x >>= f) e := by
  intro t
  change e ∈ (andThen x f t).log
  unfold andThen
  cases (x t).result with
  | error => exact h t
  | ok => exact mem_append_left _ (h t)

lemma Does.then (hx : Returns x a) (h : Does (f a) e) : Does (x >>= f) e := by
  intro t
  change e ∈ (andThen x f t).log
  unfold andThen
  rw [hx t]
  exact mem_append_right _ (h _)

lemma Returns.then (hx : Returns x a) (h : Returns (f a) b) : Returns (x >>= f) b := by
  intro t
  change (andThen x f t).result = .ok b
  unfold andThen
  rw [hx t]
  exact h _

lemma Does.rescue {handler : String → Script E α} (h : Does x e) : Does (rescue x handler) e := by
  intro t
  unfold Script.rescue
  cases (x t).result with
  | ok => exact h t
  | error => exact mem_append_left _ (h t)

lemma Returns.rescue {handler : String → Script E α} (h : Returns x a) :
    Returns (rescue x handler) a := by
  intro t
  unfold Script.rescue
  rw [h t]
  exact h t

lemma does_each {l : List α} {f : α → Script E Unit} (hend : ∀ c ∈ l, Returns (f c) ())
    (ha : a ∈ l) (h : Does (f a) e) : Does (each l f) e := by
  induction l with
  | nil => cases ha
  | cons c rest ih =>
    rcases mem_cons.mp ha with rfl | ha
    · exact Does.first h
    · exact Does.then (hend c mem_cons_self)
        (ih (fun d hd => hend d (mem_cons_of_mem _ hd)) ha)

lemma returns_each {l : List α} {f : α → Script E Unit} (hend : ∀ c ∈ l, Returns (f c) ()) :
    Returns (each l f) () := by
  induction l with
  | nil => exact returns_pure ()
  | cons c rest ih =>
    exact Returns.then (hend c mem_cons_self)
      (ih fun d hd => hend d (mem_cons_of_mem _ hd))

end

end Script

end Millennium
