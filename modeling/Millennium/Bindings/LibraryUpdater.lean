import Mathlib.Data.List.Induction

/-!
# The cache of updates

`fetch_updates_from_network` reads the installed versions, asks the network and stores what it got.
A successful download empties the cache when it returns.
-/

namespace Millennium.Bindings

open List

inductive UpdaterTurn where
  | read (fetch : Nat)
  /-- A fetch stores its result. One that fails stores nothing. -/
  | store (fetch : Nat)
  | install (download : Nat)
  | reset (download : Nat)

structure LibraryUpdater where
  installed : List Nat := []
  returned : List Nat := []
  seen : Nat → Option (List Nat) := fun _ => none
  /-- `cached_updates`: the downloads that its fetch has seen. -/
  cached : Option (List Nat) := none

namespace LibraryUpdater

def step (s : LibraryUpdater) : UpdaterTurn → LibraryUpdater
  | .read i => { s with seen := Function.update s.seen i ((s.seen i).or (some s.installed)) }
  | .store i => { s with cached := (s.seen i).or s.cached }
  | .install j => { s with installed := j :: s.installed }
  | .reset j =>
    if j ∈ s.installed then { s with cached := none, returned := j :: s.returned } else s

def run (turns : List UpdaterTurn) : LibraryUpdater := turns.foldl step {}

/-- What `get_cached_updates` returns was fetched after every download that has returned. -/
def Fresh (s : LibraryUpdater) : Prop := ∀ seen ∈ s.cached, s.returned ⊆ seen

def NeverStale (turns : List UpdaterTurn) : Prop := ∀ before, before <+: turns → Fresh (run before)

lemma run_concat (turns : List UpdaterTurn) (turn : UpdaterTurn) :
    run (turns ++ [turn]) = (run turns).step turn := by
  rw [run, foldl_append]
  rfl

lemma Fresh.step {s : LibraryUpdater} {turn : UpdaterTurn} (h : Fresh s)
    (hstore : ∀ i seen, turn = .store i → s.seen i = some seen → s.returned ⊆ seen) :
    Fresh (s.step turn) := by
  cases turn with
  | read | install => exact h
  | store i =>
    intro seen hseen
    rcases Option.or_eq_some_iff.mp hseen with hown | ⟨-, hcached⟩
    · exact hstore i seen rfl hown
    · exact h seen hcached
  | reset j =>
    rw [LibraryUpdater.step]
    split_ifs
    · intro _ hseen
      cases hseen
    · exact h

theorem neverStale_iff (turns : List UpdaterTurn) : NeverStale turns ↔
    ∀ before i rest seen, turns = before ++ .store i :: rest →
      (run before).seen i = some seen → (run before).returned ⊆ seen := by
  constructor
  · rintro h before i rest seen rfl hseen
    have hfresh := h (before ++ [.store i]) ⟨rest, by simp⟩
    rw [run_concat] at hfresh
    exact hfresh seen (by simp [step, hseen])
  · intro h before hbefore
    induction before using reverseRecOn with
    | nil =>
      intro _ hseen
      cases hseen
    | append_singleton before turn ih =>
      obtain ⟨rest, rfl⟩ := hbefore
      rw [run_concat]
      refine (ih ⟨turn :: rest, by simp⟩).step fun i seen hturn => ?_
      exact h before i rest seen (by simp [hturn])

end LibraryUpdater

/-- The versions are read before a download, and the result is stored after it. -/
theorem slow_fetch_stale :
    ¬ LibraryUpdater.NeverStale [.read 0, .install 0, .reset 0, .store 0] := by
  intro h
  have hseen := h _ prefix_rfl [] rfl
  revert hseen
  decide

end Millennium.Bindings
