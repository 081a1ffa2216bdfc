import Mathlib.Data.List.Basic

/-!
# The unified log

`collect_log_snapshot` merges three logs of a plugin by their timestamps. A session of the
development tool prints what is newer than what it has seen.
-/

namespace Millennium.Mep

open List

/-- Something that happened at a time, in microseconds since the epoch. -/
structure Happening where
  time : UInt64
  what : String

structure LogEntry where
  timestampUs : UInt64
  of : Happening

/-- `console_entry`, with the field `millennium_ts` of its JSON. -/
structure ConsoleEntry where
  millenniumTs : UInt64
  of : Happening

structure PatchRecord where
  timestampMs : UInt64
  of : Happening

structure SnapshotEntry where
  timestampUs : UInt64
  of : Happening

def logged (h : Happening) : LogEntry := ⟨h.time, h⟩

def captured (h : Happening) : ConsoleEntry := ⟨h.time, h⟩

/-- `send_patch_event` sends microseconds, and `reader_loop` puts them into `timestamp_ms`. -/
def received (h : Happening) : PatchRecord := ⟨h.time, h⟩

def normalizeLogEntry (e : LogEntry) : SnapshotEntry := ⟨e.timestampUs, e.of⟩

def normalizeConsoleEntry (e : ConsoleEntry) : SnapshotEntry := ⟨e.millenniumTs, e.of⟩

def normalizePatchEntry (e : PatchRecord) : SnapshotEntry := ⟨e.timestampMs * 1000, e.of⟩

section
variable (backend console patches : List Happening)

def collectEntries : List SnapshotEntry :=
  backend.map (normalizeLogEntry ∘ logged) ++ console.map (normalizeConsoleEntry ∘ captured) ++
    patches.map (normalizePatchEntry ∘ received)

def CollectLogSnapshot (snapshot : List SnapshotEntry) : Prop :=
  snapshot.Perm (collectEntries backend console patches) ∧
    snapshot.Pairwise fun a b => a.timestampUs ≤ b.timestampUs

def InTimeOrder (snapshot : List SnapshotEntry) : Prop :=
  (snapshot.Pairwise fun a b => a.of.time ≤ b.of.time) ∧
    ∀ e ∈ snapshot, e.timestampUs = e.of.time

lemma mul_thousand_eq_iff (t : UInt64) : t * 1000 = t ↔ t = 0 := by
  refine ⟨fun h => ?_, fun h => by simp [h]⟩
  have hmod : t.toNat * 1000 % 2 ^ 64 = t.toNat % 2 ^ 64 := by
    rw [Nat.mod_eq_of_lt t.toNat_lt]
    exact (UInt64.toNat_mul t 1000).symm.trans (congrArg UInt64.toNat h)
  have hdvd : 2 ^ 64 ∣ t.toNat * (1000 - 1) := by
    rw [Nat.mul_sub_one]
    exact Nat.dvd_of_mod_eq_zero (Nat.sub_mod_eq_zero_of_mod_eq hmod)
  have hcoprime : Nat.Coprime (2 ^ 64) (1000 - 1) := by decide
  have hzero := Nat.eq_zero_of_dvd_of_lt (hcoprime.dvd_of_dvd_mul_right hdvd) t.toNat_lt
  exact UInt64.toNat_inj.mp hzero

end

/-- An entry of `/result/entries`: its `timestamp_us` if that is a `u64`, and the rest. -/
structure ReceivedEntry where
  timestampUs : Option Nat
  rest : String
  deriving DecidableEq

def ReceivedEntry.ts (e : ReceivedEntry) : Nat := e.timestampUs.getD 0

/-- The loop of `run_unified_session`: the entries that are printed, and `last_seen_us` in the end.
-/
def printSnapshot : Nat → List ReceivedEntry → List ReceivedEntry × Nat
  | seen, [] => ([], seen)
  | seen, e :: rest =>
    if seen < e.ts then (e :: (printSnapshot e.ts rest).1, (printSnapshot e.ts rest).2)
    else printSnapshot seen rest

def unseen (seen : Nat) (entries : List ReceivedEntry) : List ReceivedEntry :=
  entries.filter fun e => decide (seen < e.ts)

section
variable {seen : Nat} {entries : List ReceivedEntry}

lemma printSnapshot_increasing (seen : Nat) (entries : List ReceivedEntry) :
    ((printSnapshot seen entries).1.map ReceivedEntry.ts).Pairwise (· < ·) ∧
    ∀ t ∈ (printSnapshot seen entries).1.map ReceivedEntry.ts, seen < t := by
  induction entries generalizing seen with
  | nil => simp [printSnapshot]
  | cons e rest ih =>
    rw [printSnapshot]
    split_ifs with hnew
    · obtain ⟨hpair, hlt⟩ := ih e.ts
      rw [map_cons, pairwise_cons]
      refine ⟨⟨hlt, hpair⟩, forall_mem_cons.mpr ⟨hnew, fun t ht => ?_⟩⟩
      exact Nat.lt_trans hnew (hlt t ht)
    · exact ih seen

lemma printSnapshot_of_increasing
    (h : ((unseen seen entries).map ReceivedEntry.ts).Pairwise (· < ·)) :
    (printSnapshot seen entries).1 = unseen seen entries := by
  induction entries generalizing seen with
  | nil => rfl
  | cons e rest ih =>
    rw [printSnapshot]
    unfold unseen at *
    split_ifs with hnew
    · rw [filter_cons_of_pos (by simpa using hnew)] at h ⊢
      rw [map_cons, pairwise_cons] at h
      have hsame : rest.filter (fun e' => decide (seen < e'.ts)) =
          rest.filter fun e' => decide (e.ts < e'.ts) := by
        refine filter_congr fun e' he' => ?_
        by_cases hseen : seen < e'.ts
        · have := h.1 e'.ts (mem_map_of_mem (mem_filter.mpr ⟨he', by simpa using hseen⟩))
          simp [hseen, this]
        · simp [hseen, show ¬ e.ts < e'.ts by omega]
      rw [hsame] at h ⊢
      rw [ih h.2]
    · rw [filter_cons_of_neg (by simpa using hnew)] at h ⊢
      exact ih h

lemma foldl_max_unseen {best : Nat} (h : seen ≤ best) :
    ((unseen seen entries).map ReceivedEntry.ts).foldl max best =
    (entries.map ReceivedEntry.ts).foldl max best := by
  induction entries generalizing best with
  | nil => rfl
  | cons e rest ih =>
    have hrest := ih (Nat.le_trans h (Nat.le_max_left best e.ts))
    unfold unseen at *
    by_cases hnew : seen < e.ts
    · simpa [hnew] using hrest
    · simpa [hnew, show max best e.ts = best by omega] using hrest

lemma printSnapshot_seen :
    (printSnapshot seen entries).2 = ((unseen seen entries).map ReceivedEntry.ts).foldl max seen := by
  rw [foldl_max_unseen (Nat.le_refl seen)]
  induction entries generalizing seen with
  | nil => rfl
  | cons e rest ih =>
    rw [printSnapshot, map_cons, foldl_cons]
    split_ifs with hnew
    · rw [Nat.max_eq_right (Nat.le_of_lt hnew), ih]
    · rw [Nat.max_eq_left (Nat.le_of_not_lt hnew), ih]

end

end Millennium.Mep
