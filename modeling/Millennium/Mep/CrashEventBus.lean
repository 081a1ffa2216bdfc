import Mathlib.Data.List.Basic

/-!
# Crashes of plugins

`crash_event_bus` keeps every crash until it is acknowledged, and apart from that those that no
listener has heard. To acknowledge a crash does not take it out of the second list.
-/

namespace Millennium.Mep

open List

structure CrashEvent where
  pluginName : String
  exitCode : Nat
  crashDumpDir : String
  displayName : String
  deriving DecidableEq

inductive BusCall where
  | notify (ev : CrashEvent)
  | addListener
  | removeListener (id : Nat)
  | acknowledgeCrash (pluginName : String)
  deriving DecidableEq

/-- The variables of the bus. Events are kept with the number of calls before them. -/
structure CrashBus where
  crashBuffer : List (Nat × CrashEvent) := []
  pending : List (Nat × CrashEvent) := []
  listeners : List Nat := []
  idCounter : Nat := 0
  calls : Nat := 0

namespace CrashBus

def step (b : CrashBus) : BusCall → CrashBus
  | .notify ev => { b with
    crashBuffer := b.crashBuffer ++ [(b.calls, ev)]
    pending := if b.listeners = [] then b.pending ++ [(b.calls, ev)] else b.pending
    calls := b.calls + 1 }
  | .addListener => { b with
    pending := []
    listeners := b.listeners ++ [b.idCounter + 1]
    idCounter := b.idCounter + 1
    calls := b.calls + 1 }
  | .removeListener id => { b with
    listeners := b.listeners.filter (· ≠ id)
    calls := b.calls + 1 }
  | .acknowledgeCrash name => { b with
    crashBuffer := b.crashBuffer.filter (·.2.pluginName ≠ name)
    calls := b.calls + 1 }

/-- The events that a call delivers, each with its listener. -/
def delivers (b : CrashBus) : BusCall → List (Nat × Nat × CrashEvent)
  | .notify ev => b.listeners.map (·, b.calls, ev)
  | .addListener => b.pending.map (b.idCounter + 1, ·)
  | _ => []

def run (calls : List BusCall) : CrashBus := calls.foldl step {}

def getPendingCrashes (b : CrashBus) : List CrashEvent := b.crashBuffer.map Prod.snd

end CrashBus

open CrashBus

/-- The events that were notified and not acknowledged since. -/
def unacknowledged : List BusCall → List CrashEvent
  | [] => []
  | .notify ev :: rest =>
    if .acknowledgeCrash ev.pluginName ∈ rest then unacknowledged rest
    else ev :: unacknowledged rest
  | _ :: rest => unacknowledged rest

/-- No listener is told of an acknowledged crash, and the crashes that are kept are the others. -/
structure StaysAcknowledged (calls : List BusCall) : Prop where
  delivered : ∀ before name between call rest,
    calls = before ++ .acknowledgeCrash name :: between ++ call :: rest →
      ∀ d ∈ (run (before ++ .acknowledgeCrash name :: between)).delivers call,
        (run before).idCounter < d.1 → d.2.1 < before.length → d.2.2.pluginName ≠ name
  kept : (run calls).getPendingCrashes = unacknowledged calls

section Bus
variable {b : CrashBus} {calls more : List BusCall} {e : Nat × CrashEvent}

lemma run_append : run (calls ++ more) = more.foldl step (run calls) := foldl_append

lemma calls_foldl : (more.foldl step b).calls = b.calls + more.length := by
  induction more generalizing b with
  | nil => rfl
  | cons call more ih =>
    rw [foldl_cons, ih, length_cons]
    cases call <;> simp [step] <;> omega

lemma calls_run : (run calls).calls = calls.length := by
  rw [run, calls_foldl, Nat.zero_add]

lemma idCounter_foldl : b.idCounter ≤ (more.foldl step b).idCounter := by
  induction more generalizing b with
  | nil => exact Nat.le_refl _
  | cons call more ih =>
    refine Nat.le_trans ?_ ih
    cases call <;> simp [step]

lemma pending_foldl (h : .addListener ∉ more) (he : e ∈ b.pending) :
    e ∈ (more.foldl step b).pending := by
  induction more generalizing b with
  | nil => exact he
  | cons call more ih =>
    rw [mem_cons, not_or] at h
    refine ih h.2 ?_
    cases call with
    | addListener => exact absurd rfl h.1
    | notify ev =>
      simp only [step]
      split_ifs
      · exact mem_append_left _ he
      · exact he
    | removeListener | acknowledgeCrash => exact he

lemma pending_foldl_cases (he : e ∈ (more.foldl step b).pending) :
    e ∈ b.pending ∨ b.calls ≤ e.1 ∧ e.1 < b.calls + more.length := by
  induction more generalizing b with
  | nil => exact .inl he
  | cons call more ih =>
    rw [length_cons]
    rcases ih he with he | he
    · cases call with
      | addListener => exact absurd he not_mem_nil
      | notify ev =>
        simp only [step] at he
        split_ifs at he
        · rcases mem_append.mp he with he | he
          · exact .inl he
          · rw [mem_singleton] at he
            exact .inr (by rw [he]; simp)
        · exact .inl he
      | removeListener | acknowledgeCrash => exact .inl he
    · cases call <;> simp only [step] at he <;> omega

lemma kept_foldl : (more.foldl step b).getPendingCrashes =
    ((b.crashBuffer.filter fun e => .acknowledgeCrash e.2.pluginName ∉ more).map Prod.snd) ++
    unacknowledged more := by
  induction more generalizing b with
  | nil => simp [getPendingCrashes, unacknowledged]
  | cons call more ih =>
    rw [foldl_cons, ih]
    cases call with
    | notify ev =>
      rw [unacknowledged]
      split_ifs with hack <;> simp [step, filter_append, hack]
    | addListener | removeListener => simp [step, unacknowledged]
    | acknowledgeCrash name => simp [step, unacknowledged, filter_filter, Bool.and_comm]

end Bus

theorem staysAcknowledged_iff (calls : List BusCall) : StaysAcknowledged calls ↔
    ∀ before name rest, calls = before ++ .acknowledgeCrash name :: rest → .addListener ∈ rest →
      ∀ e ∈ (run before).pending, e.2.pluginName ≠ name := by
  constructor
  · rintro ⟨h, -⟩ before name rest rfl hadd e he
    obtain ⟨between, rest, rfl, hfirst⟩ := eq_append_cons_of_mem hadd
    have hstill : e ∈ (run (before ++ .acknowledgeCrash name :: between)).pending := by
      rw [run_append]
      exact pending_foldl (by simp [hfirst]) he
    have hid := @idCounter_foldl (run before) (.acknowledgeCrash name :: between)
    rw [← run_append] at hid
    refine h before name between .addListener rest (by simp) (_, e) (mem_map_of_mem hstill)
      (Nat.lt_succ_of_le hid) ?_
    have htime := ((@pending_foldl_cases {} before e he).resolve_left not_mem_nil).2
    rwa [Nat.zero_add] at htime
  · intro h
    refine ⟨?_, kept_foldl⟩
    rintro before name between call rest rfl d hd - htime
    cases call with
    | addListener =>
      obtain ⟨e, he, rfl⟩ := mem_map.mp hd
      rw [run_append] at he
      rcases pending_foldl_cases he with he | he
      · exact h before name (between ++ .addListener :: rest) (by simp) (by simp) e he
      · rw [calls_run] at he
        exact absurd htime (Nat.not_lt.mpr he.1)
    | notify ev =>
      obtain ⟨id, -, rfl⟩ := mem_map.mp hd
      simp only [calls_run, length_append] at htime
      omega
    | removeListener | acknowledgeCrash => cases hd

theorem acknowledged_crash_replayed : ¬ StaysAcknowledged
    [.notify ⟨"p", 1, "", ""⟩, .acknowledgeCrash "p", .addListener] := by
  intro h
  exact h.delivered [.notify ⟨"p", 1, "", ""⟩] "p" [] .addListener [] rfl (1, 0, ⟨"p", 1, "", ""⟩)
    (by decide) (by decide) (by decide) rfl

end Millennium.Mep
