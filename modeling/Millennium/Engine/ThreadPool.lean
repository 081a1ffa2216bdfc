import Mathlib.Algebra.Order.BigOperators.Group.Finset
import Mathlib.Data.Fintype.Basic
import Mathlib.Data.List.Nodup
import Millennium.Lib.Transitions

/-!
# The thread pool

Workers take tasks from a queue that a mutex protects, and wait on a condition variable while it
is empty. What is done with the mutex is one step here. `notify_one` comes after the mutex is
released, and waiting may end without a reason.
-/

namespace Millennium.Engine

open List Relation Transitions

/-- Where a worker is: before it looks at the queue, in `wait`, with a task, in it, or done. -/
inductive PoolWorker where
  | looks
  | blocked
  | took (task : Nat)
  | runs (task : Nat)
  | finished
  deriving DecidableEq

/-- How far the call of `shutdown` is that found `shutdown_called` unset. -/
inductive PoolShutdown where
  | idle
  | called
  | stopped
  | notified
  | returned

/-- The pool. Tasks are numbered as they are put into the queue, `notifiers` are the calls of
`enqueue` before their `notify_one`, and the tasks that were taken and started are remembered. -/
structure Pool (n : Nat) where
  worker : Fin n → PoolWorker := fun _ => .looks
  tasks : List Nat := []
  enqueued : Nat := 0
  notifiers : Nat := 0
  stop : Bool := false
  shutdown : PoolShutdown := .idle
  returnedEarly : Bool := false
  taken : List Nat := []
  started : List Nat := []

namespace Pool

variable {n : Nat}

def setWorker (s : Pool n) (w : Fin n) (pc : PoolWorker) : Pool n :=
  { s with worker := fun v => if v = w then pc else s.worker v }

inductive Step (s : Pool n) : Pool n → Prop
  | enqueue (h : s.stop = false) : Step s { s with
      tasks := s.tasks ++ [s.enqueued], enqueued := s.enqueued + 1, notifiers := s.notifiers + 1 }
  | notifyOne (w : Fin n) (h : 0 < s.notifiers) (hw : s.worker w = .blocked) :
      Step s { s.setWorker w .looks with notifiers := s.notifiers - 1 }
  | notifyNobody (h : 0 < s.notifiers) (hw : ∀ w, s.worker w ≠ .blocked) :
      Step s { s with notifiers := s.notifiers - 1 }
  | wakes (w : Fin n) (hw : s.worker w = .blocked) : Step s (s.setWorker w .looks)
  | blocks (w : Fin n) (hw : s.worker w = .looks) (h : s.stop = false) (htasks : s.tasks = []) :
      Step s (s.setWorker w .blocked)
  | leaves (w : Fin n) (hw : s.worker w = .looks) (h : s.stop = true) (htasks : s.tasks = []) :
      Step s (s.setWorker w .finished)
  | takes (w : Fin n) (hw : s.worker w = .looks) {t : Nat} {rest : List Nat}
      (htasks : s.tasks = t :: rest) :
      Step s { s.setWorker w (.took t) with tasks := rest, taken := s.taken ++ [t] }
  | starts (w : Fin n) {t : Nat} (hw : s.worker w = .took t) :
      Step s { s.setWorker w (.runs t) with started := s.started ++ [t] }
  | ends (w : Fin n) {t : Nat} (hw : s.worker w = .runs t) : Step s (s.setWorker w .looks)
  | callsShutdown (h : s.shutdown = .idle) : Step s { s with shutdown := .called }
  | callsAgain (h : s.shutdown ≠ .idle) : Step s { s with returnedEarly := true }
  | stops (h : s.shutdown = .called) :
      Step s { s with stop := true, tasks := [], shutdown := .stopped }
  | notifyAll (h : s.shutdown = .stopped) : Step s { s with
      worker := fun w => if s.worker w = .blocked then .looks else s.worker w
      shutdown := .notified }
  | joins (h : s.shutdown = .notified) (hw : ∀ w, s.worker w = .finished) :
      Step s { s with shutdown := .returned }

/-- Tasks are started once and taken in their order, none is started when the pool is `ended`, and
no task is left in the queue while all workers wait and nobody is going to wake them. -/
structure Disciplined (s : Pool n) (ended : Prop) : Prop where
  once : s.started.Nodup
  order : s.taken <+: range s.enqueued
  quiet : ended → ∀ s', ReflTransGen Step s s' → s'.started = s.started
  awake : ¬ (s.tasks ≠ [] ∧ s.stop = false ∧ (∀ w, s.worker w = .blocked) ∧ s.notifiers = 0)

def AlwaysDisciplined (n : Nat) (ended : Pool n → Prop) : Prop :=
  ∀ s, Reachable Step (· = {}) s → s.Disciplined (ended s)

/-- The queue holds what was put into it and not taken, unless it was cleared. -/
def Queued (s : Pool n) : Prop :=
  if s.stop then s.tasks = [] ∧ s.taken <+: range s.enqueued
  else s.taken ++ s.tasks = range s.enqueued

structure Exclusive (s : Pool n) : Prop where
  took : ∀ w t, s.worker w = .took t → t ∈ s.taken ∧ t ∉ s.started
  apart : ∀ w w' t, s.worker w = .took t → s.worker w' = .took t → w = w'
  once : s.started.Nodup
  taken : s.started ⊆ s.taken

/-- If there is a task, a worker is not blocked or a call is going to notify one. -/
def Awake (s : Pool n) : Prop :=
  s.stop = false → s.tasks ≠ [] → (∃ w, s.worker w ≠ .blocked) ∨ 0 < s.notifiers

def Joined (s : Pool n) : Prop := s.shutdown = .returned → ∀ w, s.worker w = .finished

variable {s s' : Pool n}

lemma Queued.step (h : s.Queued) (hs : Step s s') : s'.Queued := by
  unfold Queued at h ⊢
  cases hs with
  | enqueue => grind [range_succ]
  | takes => grind [setWorker]
  | stops => grind
  | _ => exact h

lemma Queued.not_mem_taken (h : s.Queued) {t : Nat} {rest : List Nat}
    (htasks : s.tasks = t :: rest) : t ∉ s.taken := by
  have hnodup := @nodup_range s.enqueued
  unfold Queued at h
  grind

lemma Exclusive.step (hqueue : s.Queued) (h : s.Exclusive) (hs : Step s s') : s'.Exclusive := by
  obtain ⟨htook, hapart, honce, htaken⟩ := h
  cases hs with
  | takes w hw htasks =>
    have hnew := hqueue.not_mem_taken htasks
    constructor <;> simp only [setWorker] <;> grind
  | starts w hw => constructor <;> simp only [setWorker] <;> grind
  | notifyAll => constructor <;> grind
  | _ => constructor <;> grind [setWorker]

lemma Awake.step {s s' : Pool (n + 1)} (h : s.Awake) (hs : Step s s') : s'.Awake := by
  intro hstop htasks
  cases hs with
  | enqueue => exact .inr (Nat.succ_pos _)
  | notifyOne w | wakes w | leaves w | takes w | starts w | ends w =>
    exact .inl ⟨w, by simp [setWorker]⟩
  | notifyNobody _ hw => exact .inl ⟨0, hw 0⟩
  | blocks _ _ _ hnone => exact absurd hnone htasks
  | stops => cases hstop
  | notifyAll =>
    obtain ⟨w, hw⟩ | hpos := h hstop htasks
    · exact .inl ⟨w, by simp [hw]⟩
    · exact .inr hpos
  | callsShutdown | callsAgain | joins => exact h hstop htasks

lemma Joined.step (h : s.Joined) (hs : Step s s') :
    s'.Joined ∧ (s.shutdown = .returned → s'.shutdown = .returned ∧ s'.started = s.started) := by
  unfold Joined at h ⊢
  cases hs <;> grind [setWorker]

lemma Joined.started_eq (h : s.Joined) (hreturned : s.shutdown = .returned)
    (hrun : ReflTransGen Step s s') : s'.started = s.started := by
  have hall : s'.Joined ∧ s'.shutdown = .returned ∧ s'.started = s.started := by
    induction hrun with
    | refl => exact ⟨h, hreturned, rfl⟩
    | tail _ hs ih =>
      obtain ⟨hjoined, hsame⟩ := ih.1.step hs
      exact ⟨hjoined, (hsame ih.2.1).1, (hsame ih.2.1).2.trans ih.2.2⟩
  exact hall.2.2

/-- A pool with a worker is disciplined, and ended when the first call of `shutdown` has returned. -/
theorem alwaysDisciplined_succ (n : Nat) :
    AlwaysDisciplined (n + 1) fun s => s.shutdown = .returned := by
  intro s hs
  obtain ⟨hqueue, hexclusive, hawake, hjoined⟩ : s.Queued ∧ s.Exclusive ∧ s.Awake ∧ s.Joined := by
    refine hs.invariant (fun s => s.Queued ∧ s.Exclusive ∧ s.Awake ∧ s.Joined) ?_ ?_
    · rintro s rfl
      refine ⟨by simp [Queued], ⟨?_, ?_, nodup_nil, nil_subset _⟩, ?_, ?_⟩
      · simp
      · simp
      · simp [Awake]
      · simp [Joined]
    · rintro s s' ⟨hqueue, hexclusive, hawake, hjoined⟩ hstep
      exact ⟨hqueue.step hstep, hexclusive.step hqueue hstep, hawake.step hstep,
        (hjoined.step hstep).1⟩
  refine ⟨hexclusive.once, ?_, fun hended _ => hjoined.started_eq hended, ?_⟩
  · unfold Queued at hqueue
    grind
  · rintro ⟨htasks, hstop, hblocked, hnone⟩
    rcases hawake hstop htasks with ⟨w, hw⟩ | hpos
    · exact hw (hblocked w)
    · omega

/-- Nobody takes the tasks of a pool without workers, and a second call of `shutdown` returns while
the first one is at work. -/
theorem not_alwaysDisciplined : ¬ AlwaysDisciplined 0 (fun s => s.shutdown = .returned) ∧
    ¬ AlwaysDisciplined 1 fun s => s.returnedEarly = true ∨ s.shutdown = .returned := by
  constructor
  · intro h
    have hstart : Reachable Step (· = ({} : Pool 0)) {} := .init rfl
    have hqueued := (hstart.tail (.enqueue rfl)).tail (.notifyNobody (by decide) fun w => w.elim0)
    exact (h _ hqueued).awake ⟨cons_ne_nil _ _, rfl, fun w => w.elim0, rfl⟩
  · intro h
    have hstart : Reachable Step (· = ({} : Pool 1)) {} := .init rfl
    have hagain := (((hstart.tail (.enqueue rfl)).tail (.takes 0 rfl rfl)).tail
      (.callsShutdown rfl)).tail (.callsAgain PoolShutdown.noConfusion)
    exact absurd ((h _ hagain).quiet (.inl rfl) _ (.single (.starts 0 rfl))) (by decide)

section
open Finset

/-- How many steps a worker has left once the pool is stopped. -/
def left : PoolWorker → Nat
  | .took _ => 3
  | .runs _ | .blocked => 2
  | .looks => 1
  | .finished => 0

def shutdownLeft : PoolShutdown → Nat
  | .idle => 4
  | .called => 3
  | .stopped => 2
  | .notified => 1
  | .returned => 0

/-- What is left to do until the first call of `shutdown` returns. -/
def work (s : Pool n) : Nat :=
  ∑ w, left (s.worker w) + s.notifiers + shutdownLeft s.shutdown

/-- A step other than a further call of `shutdown`. -/
def Advances (s s' : Pool n) : Prop := Step s s' ∧ s' ≠ { s with returnedEarly := true }

/-- Nobody waits for a notification that has been given. -/
structure Woken (s : Pool n) : Prop where
  stop : s.shutdown = .stopped ∨ s.shutdown = .notified → s.stop = true
  awake : s.shutdown = .notified → ∀ w, s.worker w ≠ .blocked

lemma Woken.step (h : s.Woken) (hs : Step s s') : s'.Woken := by
  obtain ⟨hstop, hawake⟩ := h
  cases hs <;> constructor <;> grind [setWorker]

lemma sum_setWorker_lt {w : Fin n} {pc : PoolWorker} (h : left pc < left (s.worker w)) :
    ∑ v, left ((s.setWorker w pc).worker v) < ∑ v, left (s.worker v) := by
  refine sum_lt_sum (fun v _ => ?_) ⟨w, mem_univ w, by simpa [setWorker] using h⟩
  by_cases hv : v = w
  · simpa [setWorker, hv] using h.le
  · simp [setWorker, hv]

/-- A pool that is stopped takes no task and blocks no worker. -/
lemma Advances.work_lt (h : Advances s s') (hqueue : s.Queued) (hstop : s.stop = true) :
    s'.work < s.work := by
  rw [Queued, if_pos hstop] at hqueue
  obtain ⟨hstep, hnew⟩ := h
  cases hstep with
  | enqueue h | blocks _ _ h => exact absurd (hstop.symm.trans h) (by decide)
  | takes _ _ htasks => exact absurd (hqueue.1.symm.trans htasks) (by simp)
  | callsAgain => exact absurd rfl hnew
  | notifyOne w hpos hw =>
    have hlt := @sum_setWorker_lt n s w .looks (by simp [hw, left])
    change _ + (s.notifiers - 1) + shutdownLeft s.shutdown < _
    exact Nat.add_lt_add_right (Nat.add_lt_add_of_lt_of_le hlt (Nat.sub_le _ _)) _
  | notifyNobody hpos => exact Nat.add_lt_add_right (Nat.add_lt_add_left (by dsimp; omega) _) _
  | wakes w hw | leaves w hw | starts w hw | ends w hw =>
    exact Nat.add_lt_add_right (Nat.add_lt_add_right (sum_setWorker_lt (by simp [hw, left])) _) _
  | callsShutdown h | stops h | joins h => simp [work, h, shutdownLeft]
  | notifyAll h =>
    refine Nat.add_lt_add_of_le_of_lt (Nat.add_le_add_right (Finset.sum_le_sum fun w _ => ?_) _)
      (by simp [h, shutdownLeft])
    dsimp only
    split_ifs with hw
    · simp [hw, left]
    · exact le_rfl

/-- Until `shutdown` returns, a step is possible that is no spurious wakeup. -/
lemma exists_advances (hwoken : s.Woken) (h : s.shutdown ≠ .returned) (hstop : s.stop = true)
    (hqueue : s.Queued) :
    ∃ s', Advances s s' ∧ ∀ w, s.worker w = .blocked → s' ≠ s.setWorker w .looks := by
  rw [Queued, if_pos hstop] at hqueue
  cases hs : s.shutdown with
  | returned => exact absurd hs h
  | idle => exact ⟨_, ⟨.callsShutdown hs, by simp [hs]⟩, by simp [setWorker, hs]⟩
  | called => exact ⟨_, ⟨.stops hs, by simp [hs]⟩, by simp [setWorker, hs]⟩
  | stopped => exact ⟨_, ⟨.notifyAll hs, by simp [hs]⟩, by simp [setWorker, hs]⟩
  | notified =>
    have hawake := hwoken.awake hs
    by_cases hall : ∀ w, s.worker w = .finished
    · exact ⟨_, ⟨.joins hs hall, by simp [hs]⟩, by simp [setWorker, hs]⟩
    obtain ⟨w, hw⟩ := not_forall.mp hall
    have hnot : ∀ s' : Pool n, ∀ v, s.worker v = .blocked → s' ≠ s.setWorker v .looks :=
      fun _ v hv => absurd hv (hawake v)
    have hmoved : ∀ s' : Pool n, s'.worker w ≠ s.worker w → s' ≠ { s with returnedEarly := true } :=
      fun s' hne heq => hne (by rw [heq])
    cases hpc : s.worker w with
    | finished => exact absurd hpc hw
    | blocked => exact absurd hpc (hawake w)
    | looks => exact ⟨_, ⟨.leaves w hpc hstop hqueue.1, hmoved _ (by simp [setWorker, hpc])⟩, hnot _⟩
    | took => exact ⟨_, ⟨.starts w hpc, hmoved _ (by simp [setWorker, hpc])⟩, hnot _⟩
    | runs => exact ⟨_, ⟨.ends w hpc, hmoved _ (by simp [setWorker, hpc])⟩, hnot _⟩

lemma acc_advances (hqueue : s.Queued) (hstop : s.stop = true) :
    Acc (fun s' s => Advances s s') s := by
  induction hk : s.work using Nat.strong_induction_on generalizing s with
  | _ k ih =>
    refine ⟨_, fun s' h => ?_⟩
    have hstop' : s'.stop = true := by cases h.1 <;> simp [setWorker, hstop]
    exact ih _ (hk ▸ h.work_lt hqueue hstop) (hqueue.step h.1) hstop' rfl

/-- Once the pool is stopped, no run goes on forever, and `shutdown` returns in the end without
any spurious wakeup, if every task ends. -/
theorem shutdown_ends (hs : Reachable Step (· = {}) s) (hstop : s.stop = true) :
    Acc (fun s' s => Advances s s') s ∧ (s.shutdown ≠ .returned →
      ∃ s', Advances s s' ∧ ∀ w, s.worker w = .blocked → s' ≠ s.setWorker w .looks) := by
  obtain ⟨hqueue, hwoken⟩ : s.Queued ∧ s.Woken := by
    refine hs.invariant (fun s => s.Queued ∧ s.Woken) ?_ fun s s' h hstep =>
      ⟨h.1.step hstep, h.2.step hstep⟩
    rintro s rfl
    exact ⟨by simp [Queued], by simp, by simp⟩
  exact ⟨acc_advances hqueue hstop, fun h => exists_advances hwoken h hstop hqueue⟩

theorem stopped_pool_ends : ∃ s : Pool 1, s.stop = true ∧ Acc (fun s' s => Advances s s') s := by
  have hstart : Reachable Step (· = ({} : Pool 1)) {} := .init rfl
  have hstopped := ((hstart.tail (.blocks 0 rfl rfl rfl)).tail (.callsShutdown rfl)).tail (.stops rfl)
  exact ⟨_, rfl, (shutdown_ends hstopped rfl).1⟩

end

end Pool

end Millennium.Engine
