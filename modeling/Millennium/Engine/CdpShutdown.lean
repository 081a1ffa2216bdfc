import Mathlib.Logic.Function.Basic
import Millennium.Lib.Transitions

/-!
# Shutting down the CDP client

The incoming worker waits on `m_incoming_cv` for messages, producers on `m_incoming_space_cv` for
space, both with `m_incoming_mutex`. `shutdown` sets the flag that both predicates read, and
notifies, without that mutex, so it can pass a thread that is about to block.
-/

namespace Millennium.Engine

open Relation Transitions Function

/-- Where the incoming worker is. From `checks` to `blocks` and from `takes` to `unlocks` it
holds `m_incoming_mutex`. -/
inductive WorkerPc where
  | top
  | wantsLock
  | checks
  | blocks
  | blocked
  | woken
  | takes
  | signals
  | unlocks
  | processes
  /-- After the loop: the lock for the remaining messages. -/
  | wantsDrain
  | drains
  | finishes
  | ended
  deriving Repr, DecidableEq

inductive ProducerPc where
  | idle
  | top
  | wantsLock
  | checks
  | blocks
  | blocked
  | woken
  /-- The predicate was true; the flag is read again. -/
  | rechecks
  | enqueues
  | signals
  | unlocks
  | returned
  deriving Repr, DecidableEq

inductive ShutdownPc where
  | before
  | drains
  | notifiesIncoming
  | notifiesSpace
  | notifiesSession
  | joinsWorker
  | wantsCleanup
  | notifiesCleanup
  | joinsCleanup
  | clears
  | returned
  deriving Repr, DecidableEq

/-- Where the cleanup thread is; its wait ends after a second at the latest. -/
inductive CleanupPc where
  | top
  | wantsLock
  | checks
  | blocks
  | blocked
  | woken
  | unlocks
  | rechecks
  | sweeps
  | ended
  deriving Repr, DecidableEq

inductive IncomingHolder where
  | worker
  | producer (i : Nat)
  deriving Repr, DecidableEq

structure CdpState where
  flag : Bool
  queue : List String
  payload : String
  mutex : Option IncomingHolder
  cleanupMutex : Bool
  worker : WorkerPc
  producer : Nat → ProducerPc
  shutdown : ShutdownPc
  cleanup : CleanupPc

def CdpState.start : CdpState :=
  ⟨false, [], "", none, false, .top, fun _ => .idle, .before, .top⟩

def incomingQueueLimit : Nat := 1000

def WorkerPc.wake : WorkerPc → WorkerPc
  | .blocked => .woken
  | pc => pc

def ProducerPc.wake : ProducerPc → ProducerPc
  | .blocked => .woken
  | pc => pc

def CleanupPc.wake : CleanupPc → CleanupPc
  | .blocked => .woken
  | pc => pc

open CdpState ShutdownPc WorkerPc

inductive WorkerStep (s : CdpState) : CdpState → Prop
  | enters (hpc : s.worker = .top) (hflag : s.flag = false) :
      WorkerStep s { s with worker := .wantsLock }
  | leaves (hpc : s.worker = .top) (hflag : s.flag = true) :
      WorkerStep s { s with worker := .wantsDrain }
  | locks (hpc : s.worker = .wantsLock) (hfree : s.mutex = none) :
      WorkerStep s { s with mutex := some .worker, worker := .checks }
  | passes (hpc : s.worker = .checks) (hpred : s.flag = true ∨ s.queue ≠ []) :
      WorkerStep s { s with worker := .takes }
  | fails (hpc : s.worker = .checks) (hpred : s.flag = false ∧ s.queue = []) :
      WorkerStep s { s with worker := .blocks }
  /-- The mutex is released and the thread blocks, in one step. -/
  | blocks (hpc : s.worker = .blocks) :
      WorkerStep s { s with mutex := none, worker := .blocked }
  | relocks (hpc : s.worker = .woken) (hfree : s.mutex = none) :
      WorkerStep s { s with mutex := some .worker, worker := .checks }
  | takes (hpc : s.worker = .takes) {message : String} {rest : List String}
      (hqueue : s.queue = message :: rest) :
      WorkerStep s { s with queue := rest, payload := message, worker := .signals }
  | takesNothing (hpc : s.worker = .takes) (hqueue : s.queue = []) :
      WorkerStep s { s with payload := "", worker := .unlocks }
  | signals (hpc : s.worker = .signals) {i : Nat} (hi : s.producer i = .blocked) :
      WorkerStep s { s with
        producer := update s.producer i .woken, worker := .unlocks }
  | signalsNobody (hpc : s.worker = .signals) (hnobody : ∀ i, s.producer i ≠ .blocked) :
      WorkerStep s { s with worker := .unlocks }
  | unlocks (hpc : s.worker = .unlocks) (hpayload : s.payload ≠ "") :
      WorkerStep s { s with mutex := none, worker := .processes }
  | continues (hpc : s.worker = .unlocks) (hpayload : s.payload = "") :
      WorkerStep s { s with mutex := none, worker := .top }
  | processes (hpc : s.worker = .processes) : WorkerStep s { s with worker := .top }
  | locksDrain (hpc : s.worker = .wantsDrain) (hfree : s.mutex = none) :
      WorkerStep s { s with mutex := some .worker, worker := .drains }
  | drains (hpc : s.worker = .drains) :
      WorkerStep s { s with queue := [], mutex := none, worker := .finishes }
  | finishes (hpc : s.worker = .finishes) : WorkerStep s { s with worker := .ended }

inductive ProducerStep (s : CdpState) (i : Nat) : CdpState → Prop
  | calls (hpc : s.producer i = .idle) :
      ProducerStep s i { s with producer := update s.producer i .top }
  | refuses (hpc : s.producer i = .top) (hflag : s.flag = true) :
      ProducerStep s i { s with producer := update s.producer i .returned }
  | enters (hpc : s.producer i = .top) (hflag : s.flag = false) :
      ProducerStep s i { s with producer := update s.producer i .wantsLock }
  | locks (hpc : s.producer i = .wantsLock) (hfree : s.mutex = none) :
      ProducerStep s i { s with
        mutex := some (.producer i), producer := update s.producer i .checks }
  | passes (hpc : s.producer i = .checks)
      (hpred : s.flag = true ∨ s.queue.length < incomingQueueLimit) :
      ProducerStep s i { s with producer := update s.producer i .rechecks }
  | fails (hpc : s.producer i = .checks)
      (hpred : s.flag = false ∧ incomingQueueLimit ≤ s.queue.length) :
      ProducerStep s i { s with producer := update s.producer i .blocks }
  | blocks (hpc : s.producer i = .blocks) :
      ProducerStep s i { s with
        mutex := none, producer := update s.producer i .blocked }
  | relocks (hpc : s.producer i = .woken) (hfree : s.mutex = none) :
      ProducerStep s i { s with
        mutex := some (.producer i), producer := update s.producer i .checks }
  | gives (hpc : s.producer i = .rechecks) (hflag : s.flag = true) :
      ProducerStep s i { s with
        mutex := none, producer := update s.producer i .returned }
  | stays (hpc : s.producer i = .rechecks) (hflag : s.flag = false) :
      ProducerStep s i { s with producer := update s.producer i .enqueues }
  | enqueues (hpc : s.producer i = .enqueues) (message : String) :
      ProducerStep s i { s with
        queue := s.queue ++ [message], producer := update s.producer i .signals }
  /-- `m_incoming_cv.notify_one()`: only the worker waits there. -/
  | signals (hpc : s.producer i = .signals) :
      ProducerStep s i { s with
        worker := s.worker.wake, producer := update s.producer i .unlocks }
  | unlocks (hpc : s.producer i = .unlocks) :
      ProducerStep s i { s with
        mutex := none, producer := update s.producer i .returned }

/-- The call of `shutdown` that finds the flag unset; any other returns at once. -/
inductive ShutdownStep (s : CdpState) : CdpState → Prop
  | sets (hpc : s.shutdown = .before) :
      ShutdownStep s { s with flag := true, shutdown := .drains }
  | drains (hpc : s.shutdown = .drains) :
      ShutdownStep s { s with shutdown := .notifiesIncoming }
  | notifiesIncoming (hpc : s.shutdown = .notifiesIncoming) :
      ShutdownStep s { s with worker := s.worker.wake, shutdown := .notifiesSpace }
  | notifiesSpace (hpc : s.shutdown = .notifiesSpace) :
      ShutdownStep s { s with
        producer := fun i => (s.producer i).wake, shutdown := .notifiesSession }
  | notifiesSession (hpc : s.shutdown = .notifiesSession) :
      ShutdownStep s { s with shutdown := .joinsWorker }
  | joinsWorker (hpc : s.shutdown = .joinsWorker) (hworker : s.worker = .ended) :
      ShutdownStep s { s with shutdown := .wantsCleanup }
  | locksCleanup (hpc : s.shutdown = .wantsCleanup) (hfree : s.cleanupMutex = false) :
      ShutdownStep s { s with cleanupMutex := true, shutdown := .notifiesCleanup }
  | notifiesCleanup (hpc : s.shutdown = .notifiesCleanup) :
      ShutdownStep s { s with
        cleanup := s.cleanup.wake, cleanupMutex := false, shutdown := .joinsCleanup }
  | joinsCleanup (hpc : s.shutdown = .joinsCleanup) (hcleanup : s.cleanup = .ended) :
      ShutdownStep s { s with shutdown := .clears }
  | clears (hpc : s.shutdown = .clears) : ShutdownStep s { s with shutdown := .returned }

inductive CleanupStep (s : CdpState) : CdpState → Prop
  | enters (hpc : s.cleanup = .top) (hflag : s.flag = false) :
      CleanupStep s { s with cleanup := .wantsLock }
  | leaves (hpc : s.cleanup = .top) (hflag : s.flag = true) :
      CleanupStep s { s with cleanup := .ended }
  | locks (hpc : s.cleanup = .wantsLock) (hfree : s.cleanupMutex = false) :
      CleanupStep s { s with cleanupMutex := true, cleanup := .checks }
  | passes (hpc : s.cleanup = .checks) (hflag : s.flag = true) :
      CleanupStep s { s with cleanup := .unlocks }
  | fails (hpc : s.cleanup = .checks) (hflag : s.flag = false) :
      CleanupStep s { s with cleanup := .blocks }
  | blocks (hpc : s.cleanup = .blocks) :
      CleanupStep s { s with cleanupMutex := false, cleanup := .blocked }
  | timesOut (hpc : s.cleanup = .blocked) : CleanupStep s { s with cleanup := .woken }
  | relocks (hpc : s.cleanup = .woken) (hfree : s.cleanupMutex = false) :
      CleanupStep s { s with cleanupMutex := true, cleanup := .unlocks }
  | unlocks (hpc : s.cleanup = .unlocks) :
      CleanupStep s { s with cleanupMutex := false, cleanup := .rechecks }
  | sweeps (hpc : s.cleanup = .rechecks) (hflag : s.flag = false) :
      CleanupStep s { s with cleanup := .sweeps }
  | skips (hpc : s.cleanup = .rechecks) (hflag : s.flag = true) :
      CleanupStep s { s with cleanup := .top }
  | swept (hpc : s.cleanup = .sweeps) : CleanupStep s { s with cleanup := .top }

inductive CdpStep (s s' : CdpState) : Prop
  | worker (h : WorkerStep s s')
  | producer (i : Nat) (h : ProducerStep s i s')
  | shutdown (h : ShutdownStep s s')
  | cleanup (h : CleanupStep s s')

def JoinStuck (s : CdpState) : Prop := s.shutdown = .joinsWorker ∧ s.worker = .blocked

def ProducerStuck (s : CdpState) : Prop := s.shutdown = .returned ∧ ∃ i, s.producer i = .blocked

def ShutdownFinishes (allowed : CdpState → CdpState → Prop) : Prop :=
  ∀ s, Reachable (Allowed CdpStep allowed) (· = start) s →
    ¬ JoinStuck s ∧ ¬ ProducerStuck s

/-- `shutdown` notifies when nobody is between predicate and block, unless the worker waits for the
mutex and will notify once more. -/
def Timely (s s' : CdpState) : Prop :=
  (s.shutdown = .notifiesIncoming → s'.shutdown = .notifiesSpace → s.worker ≠ .blocks) ∧
    (s.shutdown = .notifiesSpace → s'.shutdown = .notifiesSession →
      ∀ i, s.producer i = .blocks → s.worker = .wantsLock ∨ s.worker = .woken)

def WorkerPc.holds : WorkerPc → Bool
  | .checks | .blocks | .takes | .signals | .unlocks | .drains => true
  | _ => false

def ProducerPc.holds : ProducerPc → Bool
  | .checks | .blocks | .rechecks | .enqueues | .signals | .unlocks => true
  | _ => false

@[simp] lemma WorkerPc.holds_wake (pc : WorkerPc) : pc.wake.holds = pc.holds := by
  cases pc <;> rfl

@[simp] lemma ProducerPc.holds_wake (pc : ProducerPc) : pc.wake.holds = pc.holds := by
  cases pc <;> rfl

structure Owned (s : CdpState) : Prop where
  worker : s.worker.holds = true → s.mutex = some .worker
  producer : ∀ i, (s.producer i).holds = true → s.mutex = some (.producer i)

section
variable {s s' : CdpState}

lemma Owned.worker_step (ho : Owned s) (h : WorkerStep s s') : Owned s' := by
  obtain ⟨hworker, hproducer⟩ := ho
  cases h <;> constructor <;> grind [holds, ProducerPc.holds]

lemma Owned.producer_step {i : Nat} (ho : Owned s) (h : ProducerStep s i s') : Owned s' := by
  obtain ⟨hworker, hproducer⟩ := ho
  cases h <;> constructor <;> grind [holds_wake, ProducerPc.holds]

end

def ShutdownPc.notifiedIncoming : ShutdownPc → Bool
  | .before | .drains | .notifiesIncoming => false
  | _ => true

def ShutdownPc.notifiedSpace : ShutdownPc → Bool
  | .before | .drains | .notifiesIncoming | .notifiesSpace => false
  | _ => true

def ShutdownPc.joinedWorker : ShutdownPc → Bool
  | .wantsCleanup | .notifiesCleanup | .joinsCleanup | .clears | .returned => true
  | _ => false

def WorkerPc.waits : WorkerPc → Bool
  | .blocks | .blocked => true
  | _ => false

def ProducerPc.waits : ProducerPc → Bool
  | .blocks | .blocked => true
  | _ => false

/-- With the flag set and a message in the queue, the worker comes to its `notify_one`. -/
def WorkerPc.comesToTake : WorkerPc → Bool
  | .wantsLock | .woken | .checks | .takes => true
  | _ => false

def Rescues (s : CdpState) : Prop :=
  s.worker.comesToTake = true ∧ s.queue ≠ [] ∨ s.worker = .signals

structure Shutting (s : CdpState) : Prop where
  owned : Owned s
  flag : s.shutdown ≠ .before → s.flag = true
  full : ∀ i, s.producer i = .blocks → s.queue ≠ []
  awake : s.shutdown.notifiedIncoming = true → s.worker.waits = false
  rescued : s.shutdown.notifiedSpace = true → ∀ i, (s.producer i).waits = true → Rescues s
  alone : s.shutdown.notifiedSpace = true →
    ∀ i j, (s.producer i).waits = true → (s.producer j).waits = true → i = j
  joined : s.shutdown.joinedWorker = true → s.worker = .ended

section
variable {s s' : CdpState}

lemma WorkerPc.waits_wake {pc : WorkerPc} (h : pc ≠ .blocks) : pc.wake.waits = false := by
  cases pc <;> first | rfl | contradiction

lemma WorkerPc.wake_eq_self {pc : WorkerPc} (h : pc ≠ .blocked) : pc.wake = pc := by
  cases pc <;> first | rfl | contradiction

lemma WorkerPc.ne_blocked_of_waits {pc : WorkerPc} (h : pc.waits = false) : pc ≠ .blocked := by
  intro hpc
  subst hpc
  contradiction

lemma ProducerPc.waits_wake {pc : ProducerPc} (h : pc.wake.waits = true) : pc = .blocks := by
  cases pc <;> first | rfl | contradiction

lemma ShutdownPc.ne_before_of_notifiedSpace {pc : ShutdownPc} (h : pc.notifiedSpace = true) :
    pc ≠ .before := by
  intro hpc
  subst hpc
  contradiction

/-- A producer about to block holds the mutex, so the worker holds nothing. -/
lemma Owned.worker_out {i : Nat} (ho : Owned s) (hi : s.producer i = .blocks) :
    s.worker.holds = false := by
  by_contra hholds
  have hworker := ho.worker (by simpa using hholds)
  have hproducer := ho.producer i (by rw [hi]; rfl)
  simp [hworker] at hproducer

/-- The worker's own steps keep the promise to notify: the producer that waits is the only one, so
that `notify_one` reaches it. -/
lemma Shutting.rescued_worker_step (hs : Shutting s) (h : WorkerStep s s')
    (hspace : s.shutdown.notifiedSpace = true) {i : Nat}
    (hi : (s'.producer i).waits = true) : Rescues s' := by
  have hrescued := hs.rescued hspace
  cases h with
  | takes => exact Or.inr rfl
  | signals hpc hj =>
    rename_i j
    -- Whoever still waits after the notification is the one that was notified.
    have hne : i ≠ j := by
      intro heq
      subst heq
      simp [ProducerPc.waits] at hi
    have hwaits : (s.producer i).waits = true := by
      simpa [update_of_ne hne] using hi
    exact absurd (hs.alone hspace i j hwaits (by rw [hj]; rfl)) hne
  | signalsNobody hpc hnobody =>
    have hblocks : s.producer i = .blocks := by
      have := hnobody i
      revert hi this
      cases s.producer i <;> simp [ProducerPc.waits]
    have hout := hs.owned.worker_out hblocks
    rw [hpc] at hout
    contradiction
  | _ => grind [Rescues, comesToTake]

lemma WorkerStep.not_ended (h : WorkerStep s s') : s.worker ≠ .ended := by
  intro hended
  cases h with
  | enters hpc | leaves hpc | locks hpc | passes hpc | fails hpc | blocks hpc | relocks hpc
  | takes hpc | takesNothing hpc | signals hpc | signalsNobody hpc | unlocks hpc | continues hpc
  | processes hpc | locksDrain hpc | drains hpc | finishes hpc =>
    exact absurd (hpc.symm.trans hended) nofun

lemma Shutting.worker_step (hs : Shutting s) (h : WorkerStep s s') : Shutting s' := by
  have hshut : s'.shutdown = s.shutdown := by cases h <;> rfl
  refine ⟨hs.owned.worker_step h, ?_, ?_, ?_, ?_, ?_, ?_⟩
  · have hflag := hs.flag
    cases h <;> exact hflag
  · -- The worker changes the queue only while it holds the mutex.
    intro i hi
    have hout := hs.owned.worker_out (i := i)
    have hfull := hs.full i
    cases h <;> grind [holds]
  · have hawake := hs.awake
    have hflag := hs.flag
    cases h <;> grind [waits, notifiedIncoming]
  · intro hspace i hi
    exact hs.rescued_worker_step h (hshut ▸ hspace) hi
  · have halone := hs.alone
    cases h <;> grind [ProducerPc.waits]
  · intro hjoined
    exact absurd (hs.joined (hshut ▸ hjoined)) h.not_ended

lemma waits_of_producer_step {i j : Nat} (h : ProducerStep s i s') (hflag : s.flag = true)
    (hj : (s'.producer j).waits = true) : (s.producer j).waits = true := by
  cases h <;> grind [ProducerPc.waits]

lemma worker_of_producer_step {i : Nat} (h : ProducerStep s i s') (hb : s.worker ≠ .blocked) :
    s'.worker = s.worker := by
  cases h with
  | signals => exact wake_eq_self hb
  | _ => rfl

lemma queue_of_producer_step {i : Nat} (h : ProducerStep s i s') (hq : s.queue ≠ []) :
    s'.queue ≠ [] := by
  cases h with
  | enqueues => simp
  | _ => exact hq

lemma Rescues.producer_step {i : Nat} (hr : Rescues s) (h : ProducerStep s i s') : Rescues s' := by
  have hworker : s'.worker = s.worker := by
    apply worker_of_producer_step h
    intro hb
    simp [Rescues, hb, comesToTake] at hr
  obtain ⟨hcomes, hqueue⟩ | hsignals := hr
  · exact Or.inl ⟨hworker ▸ hcomes, queue_of_producer_step h hqueue⟩
  · exact Or.inr (hworker.trans hsignals)

lemma Shutting.producer_step {i : Nat} (hs : Shutting s) (h : ProducerStep s i s') :
    Shutting s' := by
  have hshut : s'.shutdown = s.shutdown := by cases h <;> rfl
  have hflag' : s'.flag = s.flag := by cases h <;> rfl
  refine ⟨hs.owned.producer_step h, ?_, ?_, ?_, ?_, ?_, ?_⟩
  · rw [hshut, hflag']
    exact hs.flag
  · intro j hj
    have hfull := hs.full j
    cases h with
    | enqueues => simp
    | _ => grind [incomingQueueLimit]
  · rw [hshut]
    intro hincoming
    have hwaits := hs.awake hincoming
    rw [worker_of_producer_step h (ne_blocked_of_waits hwaits)]
    exact hwaits
  · rw [hshut]
    intro hspace j hj
    have hflag := hs.flag (ne_before_of_notifiedSpace hspace)
    exact (hs.rescued hspace j (waits_of_producer_step h hflag hj)).producer_step h
  · rw [hshut]
    intro hspace j k hj hk
    have hflag := hs.flag (ne_before_of_notifiedSpace hspace)
    exact hs.alone hspace j k (waits_of_producer_step h hflag hj)
      (waits_of_producer_step h hflag hk)
  · rw [hshut]
    intro hjoins
    have hended := hs.joined hjoins
    rw [worker_of_producer_step h (by rw [hended]; exact WorkerPc.noConfusion), hended]

/-- The notifications find nobody between predicate and block, or a worker that will notify again.
-/
lemma Shutting.shutdown_step (hs : Shutting s) (h : ShutdownStep s s') (ht : Timely s s') :
    Shutting s' := by
  obtain ⟨hincoming, hspace⟩ := ht
  obtain ⟨ho, hflag, hfull, hawake, hrescued, halone, hjoined⟩ := hs
  cases h with
  | notifiesIncoming hpc =>
    refine ⟨⟨?_, ho.producer⟩, ?_, hfull, ?_, ?_, ?_, ?_⟩
    · simpa using ho.worker
    · intro _
      exact hflag (by rw [hpc]; exact noConfusion)
    · intro _
      exact waits_wake (hincoming hpc rfl)
    all_goals intro hlate; contradiction
  | notifiesSpace hpc =>
    -- Who waits after the notification had its predicate evaluated before, and holds the mutex.
    have hblocks : ∀ i, (s.producer i).wake.waits = true → s.producer i = .blocks :=
      fun i hi => ProducerPc.waits_wake hi
    refine ⟨⟨ho.worker, ?_⟩, ?_, ?_, ?_, ?_, ?_, ?_⟩
    · intro i hi
      exact ho.producer i (by simpa using hi)
    · intro _
      exact hflag (by rw [hpc]; exact noConfusion)
    · intro i hi
      exact hfull i (hblocks i (congrArg ProducerPc.waits hi))
    · intro _
      exact hawake (by rw [hpc]; rfl)
    · intro _ i hi
      refine Or.inl ⟨?_, hfull i (hblocks i hi)⟩
      obtain hworker | hworker := hspace hpc rfl i (hblocks i hi)
      · exact congrArg comesToTake hworker
      · exact congrArg comesToTake hworker
    · intro _ i j hi hj
      have hmutex := ho.producer i (by rw [hblocks i hi]; rfl)
      rw [ho.producer j (by rw [hblocks j hj]; rfl)] at hmutex
      simpa using hmutex.symm
    · intro hlate
      contradiction
  | joinsWorker hpc hworker =>
    rw [hpc] at hflag hawake hrescued halone
    exact ⟨⟨ho.worker, ho.producer⟩, fun _ => hflag noConfusion, hfull,
      fun _ => hawake rfl, fun _ => hrescued rfl, fun _ => halone rfl, fun _ => hworker⟩
  | sets =>
    refine ⟨⟨ho.worker, ho.producer⟩, fun _ => rfl, hfull, ?_, ?_, ?_, ?_⟩
    all_goals intro hlate; contradiction
  | _ hpc =>
    rw [hpc] at hflag hawake hrescued halone hjoined
    exact ⟨⟨ho.worker, ho.producer⟩, fun _ => hflag noConfusion, hfull,
      hawake, hrescued, halone, hjoined⟩

lemma Shutting.cleanup_step (hs : Shutting s) (h : CleanupStep s s') : Shutting s' := by
  obtain ⟨ho, hflag, hfull, hawake, hrescued, halone, hjoined⟩ := hs
  cases h <;> exact ⟨⟨ho.worker, ho.producer⟩, hflag, hfull, hawake, hrescued, halone, hjoined⟩

lemma shutting_start : Shutting start := by
  refine ⟨⟨?_, ?_⟩, ?_, ?_, ?_, ?_, ?_, ?_⟩
  all_goals simp [start, holds, ProducerPc.holds, waits, ProducerPc.waits, joinedWorker]

lemma Shutting.step (hs : Shutting s) (h : CdpStep s s') (ht : Timely s s') : Shutting s' := by
  cases h with
  | worker h => exact hs.worker_step h
  | producer i h => exact hs.producer_step h
  | shutdown h => exact hs.shutdown_step h ht
  | cleanup h => exact hs.cleanup_step h

lemma Shutting.not_joinStuck (hs : Shutting s) : ¬ JoinStuck s := by
  intro hstuck
  obtain ⟨hpc, hblocked⟩ := hstuck
  have hawake := hs.awake (by rw [hpc]; rfl)
  rw [hblocked] at hawake
  contradiction

lemma Shutting.not_producerStuck (hs : Shutting s) : ¬ ProducerStuck s := by
  intro hstuck
  obtain ⟨hpc, i, hi⟩ := hstuck
  have hended := hs.joined (by rw [hpc]; rfl)
  have hrescues := hs.rescued (by rw [hpc]; rfl) i (by rw [hi]; rfl)
  simp [Rescues, hended, comesToTake] at hrescues

end

/-- `shutdown` finishes in every run in which its notifications are timely. -/
theorem shutdown_finishes_of_timely {s : CdpState}
    (hs : Reachable (Allowed CdpStep Timely) (· = start) s) :
    ¬ JoinStuck s ∧ ¬ ProducerStuck s := by
  have hshutting : Shutting s := by
    apply hs.invariant Shutting
    · intro s hstart
      subst hstart
      exact shutting_start
    · intro s s' ih hstep
      exact ih.step hstep.step hstep.allowed
  exact ⟨hshutting.not_joinStuck, hshutting.not_producerStuck⟩

lemma step_elsewhere {s s' : CdpState} (h : CdpStep s s')
    (hincoming : s.shutdown ≠ .notifiesIncoming) (hspace : s.shutdown ≠ .notifiesSpace) :
    Allowed CdpStep Timely s s' :=
  ⟨h, And.intro (fun hpc => absurd hpc hincoming) fun hpc => absurd hpc hspace⟩

lemma step_without_blocks {s s' : CdpState} (h : CdpStep s s') (hworker : s.worker ≠ .blocks)
    (hproducer : ∀ i, s.producer i ≠ .blocks) : Allowed CdpStep Timely s s' :=
  ⟨h, And.intro (fun _ _ => hworker) fun _ _ i hi => absurd hi (hproducer i)⟩

/-- A worker that is blocked when `shutdown` comes is woken, drains the queue and ends, and
`shutdown` returns. -/
theorem blocked_worker_lets_shutdown_return :
    ∃ s, Reachable (Allowed CdpStep Timely) (· = start) s ∧ s.shutdown = .returned ∧
      ¬ JoinStuck s ∧ ¬ ProducerStuck s := by
  have hstart : Reachable (Allowed CdpStep Timely) (· = start) start := .init rfl
  have hblocked := (((hstart.tail (step_elsewhere (.worker (.enters rfl rfl)) nofun nofun)).tail
    (step_elsewhere (.worker (.locks rfl rfl)) nofun nofun)).tail
    (step_elsewhere (.worker (.fails rfl ⟨rfl, rfl⟩)) nofun nofun)).tail
    (step_elsewhere (.worker (.blocks rfl)) nofun nofun)
  have hnotified := ((((hblocked.tail (step_elsewhere (.shutdown (.sets rfl)) nofun nofun)).tail
    (step_elsewhere (.shutdown (.drains rfl)) nofun nofun)).tail
    (step_without_blocks (.shutdown (.notifiesIncoming rfl)) nofun nofun)).tail
    (step_without_blocks (.shutdown (.notifiesSpace rfl)) nofun nofun)).tail
    (step_elsewhere (.shutdown (.notifiesSession rfl)) nofun nofun)
  have hleaves := ((((hnotified.tail (step_elsewhere (.worker (.relocks rfl rfl)) nofun nofun)).tail
    (step_elsewhere (.worker (.passes rfl (Or.inl rfl))) nofun nofun)).tail
    (step_elsewhere (.worker (.takesNothing rfl rfl)) nofun nofun)).tail
    (step_elsewhere (.worker (.continues rfl rfl)) nofun nofun)).tail
    (step_elsewhere (.worker (.leaves rfl rfl)) nofun nofun)
  have hended := ((hleaves.tail (step_elsewhere (.worker (.locksDrain rfl rfl)) nofun nofun)).tail
    (step_elsewhere (.worker (.drains rfl)) nofun nofun)).tail
    (step_elsewhere (.worker (.finishes rfl)) nofun nofun)
  have hjoined := (((hended.tail
    (step_elsewhere (.shutdown (.joinsWorker rfl rfl)) nofun nofun)).tail
    (step_elsewhere (.shutdown (.locksCleanup rfl rfl)) nofun nofun)).tail
    (step_elsewhere (.shutdown (.notifiesCleanup rfl)) nofun nofun)).tail
    (step_elsewhere (.cleanup (.leaves rfl rfl)) nofun nofun)
  have hreturned := (hjoined.tail
    (step_elsewhere (.shutdown (.joinsCleanup rfl rfl)) nofun nofun)).tail
    (step_elsewhere (.shutdown (.clears rfl)) nofun nofun)
  exact ⟨_, hreturned, rfl, shutdown_finishes_of_timely hreturned⟩

/-- The worker finds its predicate false, `shutdown` sets the flag and notifies, and only then
the worker blocks: `shutdown` joins it forever. -/
theorem notify_before_block_joins_forever : ¬ ShutdownFinishes (fun _ _ => True) := by
  intro hfinishes
  have hstart : Reachable (Allowed CdpStep fun _ _ => True) (· = start)
      start := .init rfl
  have hchecked := ((hstart.tail ⟨.worker (.enters rfl rfl), trivial⟩).tail
    ⟨.worker (.locks rfl rfl), trivial⟩).tail ⟨.worker (.fails rfl ⟨rfl, rfl⟩), trivial⟩
  have hnotified := ((hchecked.tail ⟨.shutdown (.sets rfl), trivial⟩).tail
    ⟨.shutdown (.drains rfl), trivial⟩).tail ⟨.shutdown (.notifiesIncoming rfl), trivial⟩
  have hblocked := hnotified.tail ⟨.worker (.blocks rfl), trivial⟩
  have hjoins := (hblocked.tail ⟨.shutdown (.notifiesSpace rfl), trivial⟩).tail
    ⟨.shutdown (.notifiesSession rfl), trivial⟩
  exact (hfinishes _ hjoins).1 ⟨rfl, rfl⟩

end Millennium.Engine
