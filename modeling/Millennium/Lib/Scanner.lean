import Mathlib.Data.List.Basic

/-!
# Partial step functions over lists

A step function that may refuse an item takes the longest run from the front of a list. A transducer
also writes; where it writes one item for each of a class, a text with such items doubled gives a
longer result.
-/

namespace Millennium.Scanner

open List Option

variable {σ α β : Type*}

section
variable (step : σ → α → Option σ)

def run : σ → List α → Option σ
  | s, [] => some s
  | s, a :: rest => (step s a).bind fun s' => run s' rest

/-- The items that are taken, the state after them, and the rest. -/
def munch : σ → List α → List α × σ × List α
  | s, [] => ([], s, [])
  | s, a :: rest =>
    match step s a with
    | none => ([], s, a :: rest)
    | some s' => (a :: (munch s' rest).1, (munch s' rest).2)

def Stops (s : σ) (rest : List α) : Prop := ∀ a ∈ rest.head?, step s a = none

variable {step} {s s' s'' : σ} {a : α} {text rest : List α}

@[simp] lemma run_nil : run step s [] = some s := rfl

lemma run_cons_iff :
    run step s (a :: text) = some s'' ↔ ∃ s', step s a = some s' ∧ run step s' text = some s'' :=
  bind_eq_some_iff

lemma run_append (step : σ → α → Option σ) (s : σ) (text more : List α) :
    run step s (text ++ more) = (run step s text).bind fun s' => run step s' more := by
  induction text generalizing s with
  | nil => rfl
  | cons a text ih =>
    rw [cons_append, run, run, bind_assoc]
    exact congrArg _ (funext ih)

lemma munch_cons_of_some (h : step s a = some s') :
    munch step s (a :: rest) = (a :: (munch step s' rest).1, (munch step s' rest).2) := by
  simp only [munch, h]

lemma stops_nil : Stops step s [] := fun _ h => by cases h

@[simp] lemma stops_cons_iff : Stops step s (a :: rest) ↔ step s a = none := by
  simp [Stops]

lemma munch_spec (step : σ → α → Option σ) (s : σ) (input : List α) :
    run step s (munch step s input).1 = some (munch step s input).2.1 ∧
    Stops step (munch step s input).2.1 (munch step s input).2.2 ∧
    (munch step s input).1 ++ (munch step s input).2.2 = input := by
  induction input generalizing s with
  | nil => exact ⟨rfl, stops_nil, rfl⟩
  | cons a rest ih =>
    cases h : step s a with
    | none =>
      simp only [munch, h]
      exact ⟨rfl, stops_cons_iff.mpr h, rfl⟩
    | some s' =>
      obtain ⟨hrun, hstops, happend⟩ := ih s'
      rw [munch_cons_of_some h]
      exact ⟨run_cons_iff.mpr ⟨s', h, hrun⟩, hstops, congrArg (a :: ·) happend⟩

lemma munch_of_run (h : run step s text = some s') :
    munch step s (text ++ rest) = (text ++ (munch step s' rest).1, (munch step s' rest).2) := by
  induction text generalizing s with
  | nil =>
    obtain rfl := some.inj h
    rfl
  | cons a text ih =>
    obtain ⟨s₁, hstep, hrun⟩ := run_cons_iff.mp h
    rw [cons_append, munch_cons_of_some hstep, ih hrun]
    rfl

lemma munch_of_stops (hrun : run step s text = some s') (hstops : Stops step s' rest) :
    munch step s (text ++ rest) = (text, s', rest) := by
  rw [munch_of_run hrun]
  cases rest with
  | nil => simp [munch]
  | cons a rest => simp [munch, stops_cons_iff.mp hstops]

end

section
variable (step : σ → α → Option (σ × List β)) (finish : σ → Option (List β))

def transduce : σ → List α → Option (List β)
  | s, [] => finish s
  | s, a :: rest => (step s a).bind fun next => (transduce next.1 rest).map (next.2 ++ ·)

lemma isSome_transduce (hstep : ∀ s a, (step s a).isSome) (hfinish : ∀ s, (finish s).isSome)
    (s : σ) (text : List α) : (transduce step finish s text).isSome := by
  induction text generalizing s with
  | nil => exact hfinish s
  | cons a text ih =>
    obtain ⟨next, hnext⟩ := isSome_iff_exists.mp (hstep s a)
    rw [transduce, hnext, bind_some, isSome_map]
    exact ih next.1

variable {step finish} {wide : α → Bool} {widen : α → List α} {write : α → β}
  {flush : σ → Option (List β)} {plain : σ}

lemma transduce_wide {s : σ} {a : α} (hstep : step s a =
    (flush s).map fun written => (plain, written ++ [write a])) (rest : List α) :
    transduce step finish s (a :: rest) = (flush s).bind fun written =>
      (transduce step finish plain rest).map (written ++ [write a] ++ ·) := by
  rw [transduce, hstep, bind_map]
  rfl

/-- If a wide item only ends what is open, and becomes two wide items, the result grows by their
number. -/
lemma length_transduce_widen (hnarrow : ∀ a, wide a = false → widen a = [a])
    (hwide : ∀ a, wide a = true → ∃ x y, widen a = [x, y] ∧ wide x = true ∧ wide y = true)
    (hstep : ∀ s a, wide a = true →
    step s a = (flush s).map fun written => (plain, written ++ [write a]))
    (hplain : flush plain = some []) (s : σ) (text : List α) :
    (transduce step finish s (text.flatMap widen)).map List.length =
    (transduce step finish s text).map fun written => written.length + text.countP wide := by
  induction text generalizing s with
  | nil => simp
  | cons a text ih =>
    rw [flatMap_cons]
    cases ha : wide a with
    | false =>
      rw [hnarrow a ha, singleton_append, countP_cons_of_neg (by simp [ha])]
      simp only [transduce]
      cases step s a with
      | none => rfl
      | some next =>
        have hrest := congrArg (Option.map (next.2.length + ·)) (ih next.1)
        simpa [Function.comp_def, Nat.add_assoc] using hrest
    | true =>
      obtain ⟨x, y, hxy, hx, hy⟩ := hwide a ha
      rw [hxy, countP_cons_of_pos (by simp [ha])]
      rw [cons_append, singleton_append, transduce_wide (hstep s x hx),
        transduce_wide (hstep s a ha), transduce_wide (hstep plain y hy), hplain]
      cases flush s with
      | none => rfl
      | some written =>
        have hrest := congrArg (Option.map (written.length + 2 + ·)) (ih plain)
        simp only [bind_some, Option.map_map, Function.comp_def, length_append,
          length_singleton, nil_append] at hrest ⊢
        have hleft : ∀ n, written.length + 1 + (1 + n) = written.length + 2 + n := fun n => by omega
        have hright : ∀ n k, written.length + 1 + n + (k + 1) = written.length + 2 + (n + k) :=
          fun n k => by omega
        simpa only [hleft, hright] using hrest

end

end Millennium.Scanner
