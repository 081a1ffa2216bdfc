import Mathlib.Data.List.DropRight
import Mathlib.Data.Nat.ModEq

/-!
# Recorders with ring buffers

The recorders of the MEP server keep their newest entries in a vector that is appended to
until it is full and then overwritten in a circle.
-/

namespace Millennium.Mep

open List Nat

/-- `m_ring` and `m_write_pos`, which counts the entries and never gets to `2^64`. -/
structure Ring (α : Type) where
  entries : List α := []
  writePos : Nat := 0

section
variable {α : Type}

def Ring.record (size : Nat) (r : Ring α) (e : α) : Ring α where
  entries :=
    if r.entries.length < size then r.entries ++ [e] else r.entries.set (r.writePos % size) e
  writePos := r.writePos + 1

def Ring.after (size : Nat) (history : List α) : Ring α := history.foldl (Ring.record size) {}

/-- The entries at some places, unless one is outside of the vector. -/
def Ring.read (r : Ring α) (place : Nat → Nat) : Option (List α) :=
  (range r.entries.length).mapM fun i => r.entries[place i]?

/-- The loop of `get_recent`. What it takes goes to the front, as `std::reverse` follows. -/
def takeBack (keep : α → Bool) (limit : Nat) : List α → List α → List α
  | out, [] => out
  | out, e :: rest =>
    if out.length < limit then takeBack keep limit (if keep e then e :: out else out) rest
    else out

def Ring.getRecent (size : Nat) (keep : α → Bool) (limit : Nat) (r : Ring α) : Option (List α) :=
  let total := r.entries.length
  (r.read fun i => if total < size then total - 1 - i else (r.writePos - 1 - i + size) % size).map
    (takeBack keep limit [])

/-- The last entries of those that are kept, among the last ones of the history. -/
def newest (size : Nat) (keep : α → Bool) (limit : Nat) (history : List α) : List α :=
  ((history.rtake size).filter keep).rtake limit

variable {size limit : Nat} {keep : α → Bool} {r : Ring α} {history : List α}

structure Ring.Holds (size : Nat) (r : Ring α) (history : List α) : Prop where
  writePos : r.writePos = history.length
  length : r.entries.length = min size history.length
  slot : ∀ k, history.length ≤ k + size → k < history.length →
    r.entries[k % size]? = history[k]?

lemma Ring.Holds.record (hpos : 0 < size) (h : r.Holds size history) (e : α) :
    (r.record size e).Holds size (history ++ [e]) := by
  obtain ⟨hwrite, hlen, hslot⟩ := h
  have hmod := mod_lt history.length hpos
  refine ⟨by simp [Ring.record, hwrite], by grind [Ring.record], fun k hnew hk => ?_⟩
  rw [length_append, length_singleton] at hnew hk
  rcases lt_or_eq_of_le (le_of_lt_succ hk) with hlt | rfl
  · have hne : k % size ≠ history.length % size := fun heq => by
      have hzero := sub_mod_eq_zero_of_mod_eq heq.symm
      rw [mod_eq_of_lt (by omega)] at hzero
      omega
    rw [getElem?_append_left hlt, ← hslot k (by omega) hlt, Ring.record]
    split_ifs with hroom
    · exact getElem?_append_left (by rw [mod_eq_of_lt (by omega)]; omega)
    · rw [hwrite, getElem?_set_ne hne.symm]
  · rw [Ring.record]
    split_ifs with hroom
    · rw [mod_eq_of_lt (by omega), show history.length = r.entries.length by omega]
      simp [show r.entries.length = history.length by omega]
    · simp [hwrite, show history.length % size < r.entries.length by omega]

lemma Ring.holds_after (hpos : 0 < size) (history : List α) :
    (Ring.after size history).Holds size history := by
  induction history using reverseRecOn with
  | nil => exact ⟨rfl, (Nat.min_zero _).symm, fun k _ hk => by cases hk⟩
  | append_singleton history e ih =>
    rw [Ring.after, foldl_append]
    exact ih.record hpos e

lemma mapM_range {f : Nat → Option α} {l : List α} (h : ∀ i < l.length, f i = l[i]?) :
    (range l.length).mapM f = some l := by
  induction l using reverseRecOn with
  | nil => rfl
  | append_singleton l a ih =>
    have hinit : (range l.length).mapM f = some l := ih fun i hi => by
      rw [h i (by simp; omega), getElem?_append_left hi]
    simp [range_succ, hinit, h]

lemma Ring.Holds.read {l : List α} {place : Nat → Nat} (h : r.Holds size history)
    (hl : l.length = r.entries.length)
    (hplace : ∀ i < r.entries.length, ∃ k, history.length ≤ k + size ∧ k < history.length ∧
    place i = k % size ∧ l[i]? = history[k]?) : r.read place = some l := by
  rw [Ring.read, ← hl]
  refine mapM_range fun i hi => ?_
  obtain ⟨k, hnew, hk, hp, hlk⟩ := hplace i (hl ▸ hi)
  rw [hp, h.slot k hnew hk, hlk]

lemma takeBack_eq {out : List α} (l : List α) (h : out.length ≤ limit) :
    takeBack keep limit out l = ((l.filter keep).take (limit - out.length)).reverse ++ out := by
  induction l generalizing out with
  | nil => simp [takeBack]
  | cons e rest ih =>
    rw [takeBack]
    split_ifs with hlt hkeep
    · obtain ⟨k, rfl⟩ := Nat.exists_eq_add_of_lt hlt
      rw [ih (by simp), filter_cons_of_pos hkeep, length_cons]
      simp [Nat.add_assoc, Nat.add_sub_add_left]
    · rw [ih h, filter_cons_of_neg hkeep]
    · simp [show limit - out.length = 0 by omega]

lemma Ring.getRecent_after (hpos : 0 < size) (history : List α) :
    (Ring.after size history).getRecent size keep limit =
    some (newest size keep limit history) := by
  have h := Ring.holds_after hpos history
  have hlen := h.length
  rw [Ring.getRecent, h.read (l := history.reverse.take size) (by simp [hlen])]
  · simp [takeBack_eq, newest, rtake_eq_reverse_take_reverse, filter_reverse]
  · intro i hi
    refine ⟨history.length - 1 - i, by omega, by omega, ?_, ?_⟩
    · split_ifs with hlt
      · rw [mod_eq_of_lt (by omega)]
        omega
      · rw [add_mod_right, h.writePos]
    · rw [getElem?_take_of_lt (by omega), getElem?_reverse (by omega)]

end

structure Entry (ρ : Type) where
  plugin : String
  rest : ρ

section
variable {ρ : Type} (history : List (Entry ρ)) (plugin : String) (limit : Nat)

def ffiRecorderGetRecent : Option (List (Entry ρ)) :=
  (Ring.after 512 history).getRecent 512 (fun e => e.plugin == plugin) limit

def consoleCaptureGetRecent : Option (List (Entry ρ)) :=
  (Ring.after 512 history).getRecent 512 (fun e => e.plugin == plugin) limit

def exceptionCaptureGetRecent : Option (List (Entry ρ)) :=
  (Ring.after 256 history).getRecent 256 (fun e => plugin == "" || e.plugin == plugin) limit

end

structure PatchEvent (ρ : Type) where
  eventType : String
  pluginName : String
  otherPlugin : String
  rest : ρ
  deriving DecidableEq

section
variable {ρ α : Type} {keep : α → Bool}

def PatchEvent.visibleTo (plugin : String) (e : PatchEvent ρ) : Bool :=
  if e.eventType == "url_seen" || e.eventType == "syntax_error" then true
  else if e.eventType == "conflict" then e.pluginName == plugin || e.otherPlugin == plugin
  else e.pluginName == plugin

/-- The loop of `get_recent`, which looks at the number of events only after it took one. -/
def takeFront (keep : α → Bool) (count : Nat) : List α → List α → List α
  | out, [] => out
  | out, e :: rest =>
    if keep e then
      if count ≤ out.length + 1 then out ++ [e] else takeFront keep count (out ++ [e]) rest
    else takeFront keep count out rest

/-- `patch_stream_recorder::get_recent` after the calls of `notify`. -/
def patchStreamGetRecent (history : List (PatchEvent ρ)) (plugin : String) (limit : Nat) :
    Option (List (PatchEvent ρ)) :=
  let r := Ring.after 512 history
  let total := r.entries.length
  let start := if total < 512 then 0 else r.writePos % 512
  (r.read fun i => (start + i) % total).map
    (takeFront (PatchEvent.visibleTo plugin) (min limit total) [])

lemma takeFront_eq {count : Nat} {out : List α} (l : List α) (h : out.length < max count 1) :
    takeFront keep count out l = out ++ (l.filter keep).take (max count 1 - out.length) := by
  induction l generalizing out with
  | nil => simp [takeFront]
  | cons e rest ih =>
    obtain ⟨k, hk⟩ := Nat.exists_eq_add_of_lt h
    rw [takeFront]
    split_ifs with hkeep hfull
    · rw [filter_cons_of_pos hkeep, show max count 1 - out.length = 1 by omega]
      rfl
    · rw [ih (by rw [length_append, length_singleton]; omega), filter_cons_of_pos hkeep, hk]
      simp [Nat.add_assoc, Nat.add_sub_add_left]
    · rw [ih h, filter_cons_of_neg hkeep]

variable (history : List (PatchEvent ρ)) (plugin : String) (limit : Nat)

def visibleEvents : List (PatchEvent ρ) :=
  (history.rtake 512).filter (PatchEvent.visibleTo plugin)

lemma patchStreamGetRecent_eq : patchStreamGetRecent history plugin limit =
    some ((visibleEvents history plugin).take (max (min limit (history.rtake 512).length) 1)) := by
  have h := Ring.holds_after (by decide : 0 < 512) history
  have hlength := h.length
  have hlen : (history.rtake 512).length = (Ring.after 512 history).entries.length := by
    rw [rtake, length_drop]
    omega
  rw [patchStreamGetRecent, h.read hlen, hlen]
  · simp [takeFront_eq, visibleEvents]
  · intro i hi
    refine ⟨history.length - 512 + i, by omega, by omega, ?_, by rw [rtake, getElem?_drop]⟩
    split_ifs with hlt
    · rw [zero_add, mod_eq_of_lt hi]
      omega
    · rw [show (Ring.after 512 history).entries.length = 512 by omega, h.writePos]
      omega

/-- The newest events come back exactly if the limit is not below their number, or if the
oldest ones happen to be equal to them. -/
theorem patchStreamGetRecent_newest_iff : patchStreamGetRecent history plugin limit =
        some (newest 512 (PatchEvent.visibleTo plugin) limit history) ↔
      (visibleEvents history plugin).length ≤ limit ∨
        0 < limit ∧ (visibleEvents history plugin).take limit =
          (visibleEvents history plugin).drop ((visibleEvents history plugin).length - limit) := by
  have hle : (visibleEvents history plugin).length ≤ (history.rtake 512).length :=
    length_filter_le _ _
  rw [patchStreamGetRecent_eq, Option.some_inj, newest, ← visibleEvents]
  generalize visibleEvents history plugin = events at *
  generalize (history.rtake 512).length = total at *
  rcases Nat.lt_or_ge limit events.length with hlt | hge
  · rcases Nat.eq_zero_or_pos limit with rfl | hpos
    · have hne : events ≠ [] := ne_nil_of_length_pos hlt
      simp [hne]
    · rw [show max (min limit total) 1 = limit by omega, rtake]
      simp [hpos, hlt]
  · rw [take_of_length_le (by omega), rtake, Nat.sub_eq_zero_of_le hge]
    simp [hge]

/-- The older one of two events comes back. -/
theorem one_of_two_events_is_oldest :
    patchStreamGetRecent [⟨"patched", "p", "", 1⟩, ⟨"patched", "p", "", 2⟩] "p" 1 ≠
      some (newest 512 (PatchEvent.visibleTo "p") 1
        [⟨"patched", "p", "", 1⟩, ⟨"patched", "p", "", 2⟩]) := by
  decide

end

end Millennium.Mep
