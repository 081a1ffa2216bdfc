import Mathlib.Algebra.BigOperators.Group.Finset.Basic
import Mathlib.Data.List.TakeWhile
import Millennium.Lib.Bytes

/-!
# Reading messages from the pipe

`pipe_read_loop` polls the pipe, reads a chunk, and hands on every message whose NUL has arrived. A
hang-up ends the loop before anything is read, although the pipe may hold more. `connect_socket`
then joins the thread that watches for the end of the program.
-/

namespace Millennium.Engine

open Bytes List

/-- What a poll reports of the pipe, and how much a read then returns. -/
structure Poll where
  pollin : Bool
  pollhup : Bool
  size : Nat
  reported : pollin || pollhup
  size_pos : 0 < size
  size_le : size ≤ 4096

/-- The inner loop: the texts before the NULs, and what is left in the buffer. -/
def takeMessages (buffer : Octets) : List Octets × Octets :=
  match _h : buffer.dropWhile (· ≠ 0) with
  | [] => ([], buffer)
  | _ :: rest =>
    let taken := takeMessages rest
    (buffer.takeWhile (· ≠ 0) :: taken.1, taken.2)
termination_by buffer.length
decreasing_by
  have hle := (dropWhile_suffix (· ≠ 0) (l := buffer)).length_le
  rw [_h, length_cons] at hle
  exact hle

/-- `pipe_read_loop` on what a closed pipe holds: what is handed on. -/
def pipeReadLoop (polls : Nat → Poll) (rest buffer : Octets) : List Octets :=
  if (polls 0).pollhup then []
  else if _h : rest = [] then []
  else
    let taken := takeMessages (buffer ++ rest.take (polls 0).size)
    taken.1.filter (· ≠ []) ++
      pipeReadLoop (fun i => polls (i + 1)) (rest.drop (polls 0).size) taken.2
termination_by rest.length
decreasing_by
  have hpos := (polls 0).size_pos
  have hrest := length_pos_iff.mpr _h
  rw [length_drop]
  omega

structure CdpMessage where
  text : Octets
  ne_nil : text ≠ []
  nul_free : 0 ∉ text

def written (messages : List CdpMessage) : Octets := messages.flatMap fun m => m.text ++ [0]

def readBefore (polls : Nat → Poll) (i : Nat) : Nat := ∑ j ∈ Finset.range i, (polls j).size

section
variable {buffer rest : Octets} {messages : List CdpMessage}

lemma takeMessages_of_not_mem (h : 0 ∉ buffer) : takeMessages buffer = ([], buffer) := by
  have hnone : buffer.dropWhile (· ≠ 0) = [] :=
    dropWhile_eq_nil_iff.mpr fun b hb => decide_eq_true (ne_of_mem_of_not_mem hb h)
  rw [takeMessages]
  split
  · rfl
  · rename_i heq
    cases hnone.symm.trans heq

lemma takeMessages_append {m : Octets} (h : 0 ∉ m) : takeMessages (m ++ 0 :: buffer) =
    (m :: (takeMessages buffer).1, (takeMessages buffer).2) := by
  have hm : ∀ b ∈ m, decide (b ≠ 0) = true := fun b hb =>
    decide_eq_true (ne_of_mem_of_not_mem hb h)
  have hdrop : (m ++ 0 :: buffer).dropWhile (· ≠ 0) = 0 :: buffer := by
    rw [dropWhile_append_of_pos hm]
    rfl
  rw [takeMessages]
  split
  · rename_i heq
    cases hdrop.symm.trans heq
  · rename_i heq
    obtain ⟨-, rfl⟩ := List.cons.inj (hdrop.symm.trans heq)
    rw [takeWhile_append_of_pos hm]
    simp

lemma eq_nil_of_written (h : written messages = buffer) (hnul : 0 ∉ buffer) : messages = [] := by
  cases messages with
  | nil => rfl
  | cons => simp [← h, written] at hnul

lemma takeMessages_written (h : buffer ++ rest = written messages) :
    ∃ done left, messages = done ++ left ∧
    (takeMessages buffer).1 = done.map CdpMessage.text ∧
    (takeMessages buffer).2 ++ rest = written left ∧ 0 ∉ (takeMessages buffer).2 := by
  induction messages generalizing buffer with
  | nil =>
    obtain ⟨rfl, rfl⟩ := append_eq_nil_iff.mp h
    exact ⟨[], [], rfl, by simp [takeMessages_of_not_mem, written]⟩
  | cons m tail ih =>
    by_cases hnul : 0 ∈ buffer
    · -- the first NUL of the buffer ends the first message
      have hsplit : m.text ++ 0 :: written tail = buffer ++ rest := by
        rw [h]
        simp [written]
      obtain ⟨more, rfl, hmore⟩ : ∃ more, buffer = m.text ++ 0 :: more ∧
          more ++ rest = written tail := by
        rcases append_eq_append_iff.mp hsplit with ⟨more, hbuffer, hmore⟩ | ⟨more, htext, -⟩
        · cases more with
          | nil => exact absurd (by simpa [hbuffer] using hnul) m.nul_free
          | cons b more =>
            obtain ⟨rfl, htail⟩ := List.cons.inj hmore
            exact ⟨more, hbuffer, htail.symm⟩
        · exact absurd (htext ▸ mem_append_left more hnul) m.nul_free
      obtain ⟨done, left, rfl, htaken, hleft⟩ := ih hmore
      rw [takeMessages_append m.nul_free]
      exact ⟨m :: done, left, rfl, congrArg _ htaken, hleft⟩
    · exact ⟨[], m :: tail, rfl, by simp [takeMessages_of_not_mem hnul], by
        rw [takeMessages_of_not_mem hnul, h], by rwa [takeMessages_of_not_mem hnul]⟩

lemma readBefore_succ (polls : Nat → Poll) (i : Nat) :
    readBefore polls (i + 1) = readBefore (fun j => polls (j + 1)) i + (polls 0).size :=
  Finset.sum_range_succ' _ i

lemma pipeReadLoop_eq_iff (polls : Nat → Poll) (h : buffer ++ rest = written messages)
    (hnul : 0 ∉ buffer) :
    pipeReadLoop polls rest buffer = messages.map CdpMessage.text ↔
    ∀ i, (polls i).pollhup → rest.length ≤ readBefore polls i := by
  fun_induction pipeReadLoop polls rest buffer generalizing messages with
  | case1 polls rest buffer hhup =>
    have hempty : messages = [] ↔ rest = [] := by
      constructor
      · rintro rfl
        exact (append_eq_nil_iff.mp h).2
      · rintro rfl
        exact eq_nil_of_written h.symm (by simpa using hnul)
    rw [eq_comm, map_eq_nil_iff, hempty]
    constructor
    · rintro rfl i -
      exact Nat.zero_le _
    · intro hall
      exact eq_nil_of_length_eq_zero (Nat.le_zero.mp (hall 0 hhup))
  | case2 =>
    have hempty := eq_nil_of_written h.symm (by simpa using hnul)
    simp [hempty]
  | case3 polls rest buffer hhup =>
    rename_i ih
    rw [← take_append_drop (polls 0).size rest, ← append_assoc] at h
    obtain ⟨done, left, rfl, htaken, hleft, hnul'⟩ := takeMessages_written h
    have hkept : (done.map CdpMessage.text).filter (· ≠ []) = done.map CdpMessage.text := by
      rw [filter_eq_self]
      intro text htext
      obtain ⟨m, -, rfl⟩ := mem_map.mp htext
      exact decide_eq_true m.ne_nil
    rw [htaken, hkept, map_append, append_cancel_left_eq, ih hleft hnul']
    constructor
    · intro hall i hi
      cases i with
      | zero => exact absurd hi hhup
      | succ i =>
        have hread := hall i hi
        rw [length_drop] at hread
        rw [readBefore_succ]
        omega
    · intro hall i hi
      have hread := hall (i + 1) hi
      rw [readBefore_succ] at hread
      rw [length_drop]
      omega

end

/-- Every message is delivered exactly when no poll reports a hang-up before all that was
written has been read. -/
theorem pipeReadLoop_delivers_iff (polls : Nat → Poll) (messages : List CdpMessage) :
    pipeReadLoop polls (written messages) [] = messages.map CdpMessage.text ↔
      ∀ i, (polls i).pollhup → (written messages).length ≤ readBefore polls i :=
  pipeReadLoop_eq_iff polls (nil_append _) not_mem_nil

def readableHungUp : Poll := ⟨true, true, 2, rfl, by decide, by decide⟩

/-- The peer has written a message and closed its end when the first poll looks. -/
theorem message_lost_at_hangup :
    pipeReadLoop (fun _ => readableHungUp) (written [⟨[97], by decide, by decide⟩]) [] = [] := by
  rw [pipeReadLoop]
  rfl

/-- The watcher is to take the mutex, to test the flags, to block, blocked, or over. -/
inductive WatcherPc where
  | locking | testing | blocking | blocked | over
  deriving DecidableEq

inductive CloserPc where
  | shutdown | storing | notifying | joining | returned
  deriving DecidableEq

/-- `connect_socket` and its watcher, when terminate is never signalled. -/
structure Closing where
  watcher : WatcherPc := .locking
  closer : CloserPc := .shutdown
  connectionClosed : Bool := false
  deriving DecidableEq

inductive Party where
  | watcher | closer
  deriving DecidableEq

/-- The next step of one of the two. To block and to release the mutex is one step. -/
def Closing.turn (s : Closing) : Party → Closing
  | .watcher =>
    match s.watcher with
    | .locking => { s with watcher := .testing }
    | .testing => { s with watcher := if s.connectionClosed then .over else .blocking }
    | .blocking => { s with watcher := .blocked }
    | .blocked | .over => s
  | .closer =>
    match s.closer with
    | .shutdown => { s with closer := .storing }
    | .storing => { s with closer := .notifying, connectionClosed := true }
    | .notifying =>
      ⟨if s.watcher = .blocked then .locking else s.watcher, .joining, s.connectionClosed⟩
    | .joining => if s.watcher = .over then { s with closer := .returned } else s
    | .returned => s

def Closing.run (s : Closing) (turns : List Party) : Closing := turns.foldl Closing.turn s

def Closing.Stuck (s : Closing) : Prop := s.closer = .joining ∧ s.watcher = .blocked

/-- The notification comes between the test of the watcher and its block. -/
def Closing.Unheard (s : Closing) : Prop := s.closer = .notifying ∧ s.watcher = .blocking

namespace Closing

/-- The flag is set before the notification, after which the watcher cannot block. -/
def Sound (s : Closing) : Prop :=
  (s.connectionClosed = true ↔ s.closer ≠ .shutdown ∧ s.closer ≠ .storing) ∧
    (s.closer = .joining → s.watcher ≠ .blocking ∧ s.watcher ≠ .blocked)

variable {s : Closing} {turns : List Party}

lemma Sound.turn (hs : s.Sound) {p : Party} (h : ¬ (p = .closer ∧ s.Unheard)) :
    (s.turn p).Sound := by
  obtain ⟨watcher, closer, closed⟩ := s
  cases p with
  | watcher => cases watcher <;> simp_all [Sound, Closing.turn]
  | closer => cases closer <;> simp_all [Sound, Unheard, Closing.turn] <;> grind

lemma Unheard.turn (h : s.Unheard) :
    (s.turn .closer).closer = .joining ∧ (s.turn .closer).watcher = .blocking := by
  simp [Closing.turn, h.1, h.2]

lemma stuck_of_joining (hcloser : s.closer = .joining)
    (h : s.watcher = .blocked ∨ s.watcher = .blocking ∧ .watcher ∈ turns) :
    (s.run turns).Stuck := by
  induction turns generalizing s with
  | nil => exact ⟨hcloser, h.resolve_right fun hblocking => not_mem_nil hblocking.2⟩
  | cons p turns ih =>
    obtain ⟨watcher, closer, closed⟩ := s
    obtain rfl := hcloser
    rcases h with rfl | ⟨rfl, hmem⟩
    · cases p with
      | watcher => exact ih rfl (.inl rfl)
      | closer => exact ih rfl (.inl rfl)
    · cases p with
      | watcher => exact ih rfl (.inl rfl)
      | closer => exact ih rfl (.inr ⟨rfl, by simpa using hmem⟩)

lemma watcher_mem_of_stuck (hs : s.watcher = .blocking) (hcloser : s.closer = .joining)
    (h : (s.run turns).Stuck) : .watcher ∈ turns := by
  induction turns generalizing s with
  | nil => simp [run, Stuck, hs] at h
  | cons p turns ih =>
    cases p with
    | watcher => exact mem_cons_self
    | closer =>
      have hsame : s.turn .closer = s := by simp [Closing.turn, hs, hcloser]
      rw [run, foldl_cons, hsame] at h
      exact mem_cons_of_mem _ (ih hs hcloser h)

lemma stuck_run_iff (hs : s.Sound) : (s.run turns).Stuck ↔
    ∃ before after, turns = before ++ .closer :: after ∧ (s.run before).Unheard ∧
    .watcher ∈ after := by
  constructor
  · intro h
    induction turns generalizing s with
    | nil => exact absurd h.2 (hs.2 h.1).2
    | cons p turns ih =>
      by_cases hunheard : p = .closer ∧ s.Unheard
      · obtain ⟨rfl, hunheard⟩ := hunheard
        obtain ⟨hjoining, hblocking⟩ := hunheard.turn
        exact ⟨[], turns, rfl, hunheard, watcher_mem_of_stuck hblocking hjoining h⟩
      · obtain ⟨before, after, rfl, hbefore⟩ := ih (hs.turn hunheard) h
        exact ⟨p :: before, after, rfl, hbefore⟩
  · rintro ⟨before, after, rfl, hunheard, hmem⟩
    obtain ⟨hjoining, hblocking⟩ := hunheard.turn
    rw [run, foldl_append, foldl_cons]
    exact stuck_of_joining hjoining (.inr ⟨hblocking, hmem⟩)

end Closing

/-- The closer is never stuck exactly when the notification does not come between the test of
the watcher and its block. -/
theorem connection_closes_iff (turns : List Party) : ¬ (Closing.run {} turns).Stuck ↔
    ∀ before after, turns = before ++ .closer :: after → (Closing.run {} before).Unheard →
      .watcher ∉ after := by
  rw [Closing.stuck_run_iff ⟨by decide, by decide⟩]
  simp

theorem notification_unheard :
    (Closing.run {} [.watcher, .watcher, .closer, .closer, .closer, .watcher]).Stuck :=
  ⟨rfl, rfl⟩

end Millennium.Engine
