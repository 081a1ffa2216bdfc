import Millennium.Lib.Json
import Millennium.Lib.PendingMap
import Millennium.Lib.Transitions

/-!
# CDP requests and their futures

A request that `send_host` registers is completed by its response, a timeout, a failure to send or
`shutdown`. Whoever completes it first exchanges its flag `completed` and sets the promise if the
flag was not set.
-/

namespace Millennium.Engine

open Relation Transitions PendingMap Function Bool AList

abbrev RequestId := BitVec 32

inductive SendFailure where
  | sendFailed
  | clientShutdown

inductive Completion where
  /-- The response with an id: its `result`, or an error as an exception. -/
  | response (id : RequestId) (outcome : Except String Json)
  | timeout
  | failed (failure : SendFailure)
  | drained

inductive SendPc where
  | idle
  | created (id : RequestId)
  | registered (id : RequestId)
  | failed (id : RequestId)
  | completes (id : RequestId) (failure : SendFailure)
  | sets (id : RequestId) (failure : SendFailure)
  | done (id : RequestId)

def SendPc.id : SendPc → Option RequestId
  | .idle => none
  | .created id | .registered id | .failed id | .completes id _ | .sets id _ | .done id => some id

inductive ResponsePc where
  | idle
  | found (request : Nat) (id : RequestId) (outcome : Except String Json)
  | sets (request : Nat) (id : RequestId) (outcome : Except String Json)
  | ended

inductive SweepPc where
  | idle
  | collects (taken : List Nat)
  | completes (taken : List Nat)
  | sets (request : Nat) (rest : List Nat)
  | ended

inductive DrainPc where
  | before
  | wantsLock
  | drains (left : List Nat)
  | sets (request : Nat) (left : List Nat)
  | drained
  | returned

inductive RequestsHolder where
  | sender (request : Nat)
  | cleanup
  | shutdown
  deriving Repr, DecidableEq

structure CdpRequests where
  flag : Bool
  nextId : RequestId
  pending : AList (fun _ : RequestId => Nat)
  mutex : Option RequestsHolder
  sender : Nat → SendPc
  completed : Nat → Bool
  completions : Nat → List Completion
  /-- The entry was overwritten or erased under the id of another request. -/
  orphaned : Nat → Bool
  worker : ResponsePc
  cleanup : SweepPc
  shutdown : DrainPc

def CdpRequests.start : CdpRequests :=
  ⟨false, 1, ∅, none, fun _ => .idle, fun _ => false, fun _ => [], fun _ => false,
    .idle, .idle, .before⟩

def CdpRequests.exchange (s : CdpRequests) (c : Nat) : CdpRequests :=
  { s with completed := update s.completed c true }

@[simp, grind =] lemma completed_exchange (s : CdpRequests) (c : Nat) :
    (s.exchange c).completed c = true := by
  simp [CdpRequests.exchange]

def CdpRequests.give (s : CdpRequests) (c : Nat) (x : Completion) : CdpRequests :=
  { s with completions := update s.completions c (s.completions c ++ [x]) }

def CdpRequests.setSender (s : CdpRequests) (c : Nat) (pc : SendPc) : CdpRequests :=
  { s with sender := update s.sender c pc }

/-- The entry under an id goes, and is not that of the given request. -/
def orphans (s : CdpRequests) (id : RequestId) (c : Nat) : Nat → Bool :=
  fun c' => s.orphaned c' || (s.pending.lookup id == some c' && c' != c)

open CdpRequests

inductive SenderStep (s : CdpRequests) (c : Nat) : CdpRequests → Prop
  | starts (hpc : s.sender c = .idle) :
      SenderStep s c { s.setSender c (.created s.nextId) with nextId := s.nextId + 1 }
  | refuses {id : RequestId} (hpc : s.sender c = .created id) (hfree : s.mutex = none)
      (hflag : s.flag = true) :
      SenderStep s c { s.setSender c (.completes id .clientShutdown) with mutex := some (.sender c) }
  | registers {id : RequestId} (hpc : s.sender c = .created id) (hfree : s.mutex = none)
      (hflag : s.flag = false) :
      SenderStep s c { s.setSender c (.registered id) with
        pending := s.pending.insert id c, orphaned := orphans s id c }
  | sends {id : RequestId} (hpc : s.sender c = .registered id) :
      SenderStep s c (s.setSender c (.done id))
  | sendFails {id : RequestId} (hpc : s.sender c = .registered id) :
      SenderStep s c (s.setSender c (.failed id))
  | erases {id : RequestId} (hpc : s.sender c = .failed id) (hfree : s.mutex = none) :
      SenderStep s c { s.setSender c (.completes id .sendFailed) with
        mutex := some (.sender c), pending := s.pending.erase id, orphaned := orphans s id c }
  | loses {id : RequestId} {x : SendFailure} (hpc : s.sender c = .completes id x)
      (hset : s.completed c = true) :
      SenderStep s c { s.setSender c (.done id) with mutex := none }
  | wins {id : RequestId} {x : SendFailure} (hpc : s.sender c = .completes id x)
      (hset : s.completed c = false) :
      SenderStep s c ((s.exchange c).setSender c (.sets id x))
  | sets {id : RequestId} {x : SendFailure} (hpc : s.sender c = .sets id x) :
      SenderStep s c { (s.give c (.failed x)).setSender c (.done id) with mutex := none }

/-- The incoming worker. Any other message leaves all of this as it is. -/
inductive ResponseStep (s : CdpRequests) : CdpRequests → Prop
  | finds (id : RequestId) (outcome : Except String Json) {c : Nat} (hpc : s.worker = .idle)
      (hfree : s.mutex = none) (hfound : s.pending.lookup id = some c) :
      ResponseStep s { s with pending := s.pending.erase id, worker := .found c id outcome }
  | loses {c : Nat} {id : RequestId} {outcome : Except String Json}
      (hpc : s.worker = .found c id outcome) (hset : s.completed c = true) :
      ResponseStep s { s with worker := .idle }
  | wins {c : Nat} {id : RequestId} {outcome : Except String Json}
      (hpc : s.worker = .found c id outcome) (hset : s.completed c = false) :
      ResponseStep s { s.exchange c with worker := .sets c id outcome }
  | sets {c : Nat} {id : RequestId} {outcome : Except String Json}
      (hpc : s.worker = .sets c id outcome) :
      ResponseStep s { s.give c (.response id outcome) with worker := .idle }
  | ends (hpc : s.worker = .idle) (hflag : s.flag = true) :
      ResponseStep s { s with worker := .ended }

/-- The cleanup thread; any of the requests may have exceeded its timeout. -/
inductive SweepStep (s : CdpRequests) : CdpRequests → Prop
  | locks (hpc : s.cleanup = .idle) (hfree : s.mutex = none) :
      SweepStep s { s with mutex := some .cleanup, cleanup := .collects [] }
  | takes {taken : List Nat} (hpc : s.cleanup = .collects taken) {id : RequestId} {c : Nat}
      (hfound : s.pending.lookup id = some c) :
      SweepStep s { s with pending := s.pending.erase id, cleanup := .collects (taken ++ [c]) }
  | unlocks {taken : List Nat} (hpc : s.cleanup = .collects taken) :
      SweepStep s { s with mutex := none, cleanup := .completes taken }
  | loses {c : Nat} {rest : List Nat} (hpc : s.cleanup = .completes (c :: rest))
      (hset : s.completed c = true) :
      SweepStep s { s with cleanup := .completes rest }
  | wins {c : Nat} {rest : List Nat} (hpc : s.cleanup = .completes (c :: rest))
      (hset : s.completed c = false) :
      SweepStep s { s.exchange c with cleanup := .sets c rest }
  | sets {c : Nat} {rest : List Nat} (hpc : s.cleanup = .sets c rest) :
      SweepStep s { s.give c .timeout with cleanup := .completes rest }
  | finishes (hpc : s.cleanup = .completes []) : SweepStep s { s with cleanup := .idle }
  | ends (hpc : s.cleanup = .idle) (hflag : s.flag = true) :
      SweepStep s { s with cleanup := .ended }

inductive DrainStep (s : CdpRequests) : CdpRequests → Prop
  | starts (hpc : s.shutdown = .before) :
      DrainStep s { s with flag := true, shutdown := .wantsLock }
  | locks (hpc : s.shutdown = .wantsLock) (hfree : s.mutex = none) :
      DrainStep s { s with mutex := some .shutdown, shutdown := .drains (values s.pending) }
  | loses {c : Nat} {left : List Nat} (hpc : s.shutdown = .drains (c :: left))
      (hset : s.completed c = true) :
      DrainStep s { s with shutdown := .drains left }
  | wins {c : Nat} {left : List Nat} (hpc : s.shutdown = .drains (c :: left))
      (hset : s.completed c = false) :
      DrainStep s { s.exchange c with shutdown := .sets c left }
  | sets {c : Nat} {left : List Nat} (hpc : s.shutdown = .sets c left) :
      DrainStep s { s.give c .drained with shutdown := .drains left }
  | clears (hpc : s.shutdown = .drains []) :
      DrainStep s { s with pending := ∅, mutex := none, shutdown := .drained }
  | joins (hpc : s.shutdown = .drained) (hworker : s.worker = .ended)
      (hcleanup : s.cleanup = .ended) :
      DrainStep s { s with shutdown := .returned }

inductive RequestStep (s s' : CdpRequests) : Prop
  | sender (c : Nat) (h : SenderStep s c s')
  | worker (h : ResponseStep s s')
  | cleanup (h : SweepStep s s')
  | shutdown (h : DrainStep s s')

def DrainPc.pastDrain : DrainPc → Bool
  | .drained | .returned => true
  | _ => false

def SendersDone (s : CdpRequests) : Prop := ∀ c, s.sender c = .idle ∨ ∃ id, s.sender c = .done id

/-- No response or timeout is between taking a request out of the map and completing it. -/
def NothingInFlight (s : CdpRequests) : Prop :=
  (s.worker = .idle ∨ s.worker = .ended) ∧
    (s.cleanup = .idle ∨ s.cleanup = .completes [] ∨ s.cleanup = .ended)

/-- The future has what it was given, or its promise is orphaned and goes with `send_host`. -/
def IsComplete (s : CdpRequests) (c : Nat) : Prop :=
  s.completions c ≠ [] ∨ s.orphaned c = true ∧ c ∉ values s.pending

/-- Futures are completed at most once, by the response with their id, and all are when shutdown has
drained the map and `quiet` holds. -/
structure RequestsComplete (quiet : CdpRequests → Prop) (s : CdpRequests) : Prop where
  once : ∀ c, (s.completions c).length ≤ 1
  own : ∀ c id outcome, .response id outcome ∈ s.completions c → (s.sender c).id = some id
  left : s.shutdown.pastDrain = true → quiet s → ∀ c, s.sender c ≠ .idle → IsComplete s c

def AlwaysComplete (quiet : CdpRequests → Prop) : Prop :=
  ∀ s, Reachable RequestStep (· = start) s → RequestsComplete quiet s

def ResponsePc.setsFor : ResponsePc → Nat → Nat
  | .sets c _ _, c' => if c = c' then 1 else 0
  | _, _ => 0

def SweepPc.setsFor : SweepPc → Nat → Nat
  | .sets c _, c' => if c = c' then 1 else 0
  | _, _ => 0

def DrainPc.setsFor : DrainPc → Nat → Nat
  | .sets c _, c' => if c = c' then 1 else 0
  | _, _ => 0

def SendPc.setsOwn : SendPc → Nat
  | .sets _ _ => 1
  | _ => 0

def CdpRequests.setters (s : CdpRequests) (c : Nat) : Nat :=
  s.worker.setsFor c + s.cleanup.setsFor c + s.shutdown.setsFor c + (s.sender c).setsOwn

/-- The flag says whether somebody has set the promise or is about to. -/
def FlagCounts (s : CdpRequests) : Prop :=
  ∀ c, (s.completions c).length + s.setters c = (s.completed c).toNat

section
variable {s s' : CdpRequests}

section
variable (hs : FlagCounts s)
include hs

lemma FlagCounts.of_same (hgiven : s'.completions = s.completions)
    (hflag : s'.completed = s.completed) (hsetters : ∀ c, s'.setters c = s.setters c) :
    FlagCounts s' := by
  intro c
  simpa only [hgiven, hflag, hsetters c] using hs c

lemma FlagCounts.of_wins {c : Nat} (hset : s.completed c = false)
    (hgiven : s'.completions = s.completions)
    (hflag : s'.completed = update s.completed c true)
    (hsetters : ∀ c', s'.setters c' = s.setters c' + if c = c' then 1 else 0) :
    FlagCounts s' := by
  intro c'
  have hcount := hs c'
  by_cases hc : c = c'
  · subst hc
    simp only [hset, toNat_false] at hcount
    simp only [hgiven, hflag, hsetters, update_self, if_true, toNat_true]
    omega
  · simpa [hgiven, hflag, hsetters, hc, update_of_ne (Ne.symm hc)] using hcount

lemma FlagCounts.of_sets {c : Nat} {x : Completion}
    (hgiven : s'.completions = update s.completions c (s.completions c ++ [x]))
    (hflag : s'.completed = s.completed)
    (hsetters : ∀ c', s.setters c' = s'.setters c' + if c = c' then 1 else 0) :
    FlagCounts s' := by
  intro c'
  have hcount := hs c'
  rw [hsetters c'] at hcount
  by_cases hc : c = c'
  · subst hc
    simp only [if_true] at hcount
    simp only [hgiven, hflag, update_self, List.length_append, List.length_singleton]
    omega
  · simpa [hgiven, hflag, hc, update_of_ne (Ne.symm hc)] using hcount

lemma FlagCounts.sender_step {c : Nat} (h : SenderStep s c s') : FlagCounts s' := by
  cases h with
  | wins hpc hset =>
    refine hs.of_wins hset rfl rfl fun c' => ?_
    by_cases hc : c = c'
    · subst hc
      simp [setters, setSender, exchange, hpc, SendPc.setsOwn]
    · simp [setters, setSender, exchange, hc, update_of_ne (Ne.symm hc)]
  | sets hpc =>
    refine hs.of_sets rfl rfl fun c' => ?_
    by_cases hc : c = c'
    · subst hc
      simp [setters, setSender, give, hpc, SendPc.setsOwn]
    · simp [setters, setSender, give, hc, update_of_ne (Ne.symm hc)]
  | starts hpc | refuses hpc | registers hpc | sends hpc | sendFails hpc | erases hpc | loses hpc =>
    refine hs.of_same rfl rfl fun c' => ?_
    by_cases hc : c = c'
    · subst hc
      simp [setters, setSender, hpc, SendPc.setsOwn]
    · simp [setters, setSender, update_of_ne (Ne.symm hc)]

lemma FlagCounts.worker_step (h : ResponseStep s s') : FlagCounts s' := by
  cases h with
  | wins hpc hset =>
    refine hs.of_wins hset rfl rfl fun c' => ?_
    simp only [setters, exchange, hpc, ResponsePc.setsFor]
    omega
  | sets hpc =>
    refine hs.of_sets rfl rfl fun c' => ?_
    simp only [setters, give, hpc, ResponsePc.setsFor]
    omega
  | finds id out hpc | loses hpc | ends hpc =>
    exact hs.of_same rfl rfl fun c' => by simp [setters, hpc, ResponsePc.setsFor]

lemma FlagCounts.cleanup_step (h : SweepStep s s') : FlagCounts s' := by
  cases h with
  | wins hpc hset =>
    refine hs.of_wins hset rfl rfl fun c' => ?_
    simp only [setters, exchange, hpc, SweepPc.setsFor]
    omega
  | sets hpc =>
    refine hs.of_sets rfl rfl fun c' => ?_
    simp only [setters, give, hpc, SweepPc.setsFor]
    omega
  | locks hpc | takes hpc | unlocks hpc | loses hpc | finishes hpc | ends hpc =>
    exact hs.of_same rfl rfl fun c' => by simp [setters, hpc, SweepPc.setsFor]

lemma FlagCounts.shutdown_step (h : DrainStep s s') : FlagCounts s' := by
  cases h with
  | wins hpc hset =>
    refine hs.of_wins hset rfl rfl fun c' => ?_
    simp only [setters, exchange, hpc, DrainPc.setsFor]
    omega
  | sets hpc =>
    refine hs.of_sets rfl rfl fun c' => ?_
    simp only [setters, give, hpc, DrainPc.setsFor]
    omega
  | starts hpc | locks hpc | loses hpc | clears hpc | joins hpc =>
    exact hs.of_same rfl rfl fun c' => by simp [setters, hpc, DrainPc.setsFor]

lemma FlagCounts.step (h : RequestStep s s') : FlagCounts s' := by
  cases h with
  | sender c h => exact hs.sender_step h
  | worker h => exact hs.worker_step h
  | cleanup h => exact hs.cleanup_step h
  | shutdown h => exact hs.shutdown_step h

end

end

def SendPc.holds : SendPc → Bool
  | .completes _ _ | .sets _ _ => true
  | _ => false

def SweepPc.holds : SweepPc → Bool
  | .collects _ => true
  | _ => false

def DrainPc.holds : DrainPc → Bool
  | .drains _ | .sets _ _ => true
  | _ => false

structure RequestsOwned (s : CdpRequests) : Prop where
  sender : ∀ c, (s.sender c).holds = true → s.mutex = some (.sender c)
  cleanup : s.cleanup.holds = true → s.mutex = some .cleanup
  shutdown : s.shutdown.holds = true → s.mutex = some .shutdown

section
variable {s s' : CdpRequests}

lemma RequestsOwned.sender_step {c : Nat} (hs : RequestsOwned s) (h : SenderStep s c s') :
    RequestsOwned s' := by
  obtain ⟨hsender, hcleanup, hshut⟩ := hs
  cases h <;> constructor <;>
    simp only [setSender, exchange, give] <;>
    grind [SendPc.holds]

lemma RequestsOwned.step (hs : RequestsOwned s) (h : RequestStep s s') : RequestsOwned s' := by
  cases h with
  | sender c h => exact hs.sender_step h
  | worker h =>
    obtain ⟨hsender, hcleanup, hshut⟩ := hs
    cases h <;> exact ⟨hsender, hcleanup, hshut⟩
  | cleanup h =>
    obtain ⟨hsender, hcleanup, hshut⟩ := hs
    cases h <;> constructor <;> simp only [exchange, give] <;>
      grind [SweepPc.holds]
  | shutdown h =>
    obtain ⟨hsender, hcleanup, hshut⟩ := hs
    cases h <;> constructor <;> simp only [exchange, give] <;>
      grind [DrainPc.holds]

end

section
variable {s s' : CdpRequests}

lemma sender_of_step {c : Nat} (h : SenderStep s c s') : ∃ pc, s'.sender = update s.sender c pc ∧
    (∀ id, (s.sender c).id = some id → pc.id = some id) := by
  cases h with
  | starts hpc => exact ⟨_, rfl, by simp [hpc, SendPc.id]⟩
  | refuses hpc | registers hpc | sends hpc | sendFails hpc | erases hpc | loses hpc | wins hpc
  | sets hpc => exact ⟨_, rfl, by simp [hpc, SendPc.id]⟩

lemma request_id_step (h : RequestStep s s') {c : Nat} {id : RequestId}
    (hid : (s.sender c).id = some id) : (s'.sender c).id = some id := by
  cases h with
  | sender c' h =>
    obtain ⟨pc, hsender, hkeeps⟩ := sender_of_step h
    by_cases hc : c = c'
    · subst hc
      simpa [hsender] using hkeeps id hid
    · simpa [hsender, update_of_ne hc] using hid
  | worker h | cleanup h | shutdown h => cases h <;> exact hid

lemma completed_step (h : RequestStep s s') {c : Nat} (hc : s.completed c = true) :
    s'.completed c = true := by
  have hexchange : ∀ c', (s.exchange c').completed c = true := by
    intro c'
    by_cases heq : c = c'
    · subst heq
      simp [exchange]
    · simpa [exchange, update_of_ne heq] using hc
  cases h with
  | sender c' h =>
    cases h with
    | wins => exact hexchange c'
    | _ => exact hc
  | worker h | cleanup h | shutdown h =>
    cases h with
    | wins => exact hexchange _
    | _ => exact hc

lemma entry_of_step (h : RequestStep s s') {c : Nat} {id : RequestId}
    (hl : s'.pending.lookup id = some c) :
    s.pending.lookup id = some c ∨
    s'.sender c = .registered id ∧ s.mutex = none ∧ s.flag = false := by
  cases h with
  | sender c' h =>
    cases h with
    | @registers id' hpc hfree hflag =>
      by_cases hid : id = id'
      · subst hid
        have hc : c' = c := by simpa using hl
        subst hc
        exact .inr ⟨by simp [setSender], hfree, hflag⟩
      · exact .inl (by simpa [lookup_insert_ne hid] using hl)
    | erases => exact .inl (lookup_of_erase hl).2
    | _ => exact .inl hl
  | worker h =>
    cases h with
    | finds => exact .inl (lookup_of_erase hl).2
    | _ => exact .inl hl
  | cleanup h =>
    cases h with
    | takes => exact .inl (lookup_of_erase hl).2
    | _ => exact .inl hl
  | shutdown h =>
    cases h with
    | clears => simp at hl
    | _ => exact .inl hl

lemma completion_of_step (h : RequestStep s s') {c : Nat} {id : RequestId}
    {out : Except String Json} (hr : .response id out ∈ s'.completions c) :
    .response id out ∈ s.completions c ∨ s.worker = .sets c id out := by
  have hgive : ∀ {c' x}, .response id out ∈ (s.give c' x).completions c →
      .response id out ∈ s.completions c ∨ c = c' ∧ .response id out = x := by
    intro c' x hx
    by_cases hc : c = c'
    · subst hc
      simpa [give] using hx
    · exact .inl (by simpa [give, update_of_ne hc] using hx)
  cases h with
  | sender c' h | cleanup h | shutdown h =>
    cases h with
    | sets =>
      obtain hold | ⟨_, heq⟩ := hgive hr
      · exact .inl hold
      · cases heq
    | _ => exact .inl hr
  | worker h =>
    cases h with
    | sets hpc =>
      obtain hold | ⟨rfl, heq⟩ := hgive hr
      · exact .inl hold
      · cases heq
        exact .inr hpc
    | _ => exact .inl hr

end

structure RequestIds (s : CdpRequests) : Prop where
  entry : ∀ c id, s.pending.lookup id = some c → (s.sender c).id = some id
  found : ∀ c id outcome, s.worker = .found c id outcome → (s.sender c).id = some id
  sets : ∀ c id outcome, s.worker = .sets c id outcome → (s.sender c).id = some id
  response : ∀ c id outcome, .response id outcome ∈ s.completions c → (s.sender c).id = some id

section
variable {s s' : CdpRequests}

lemma RequestIds.worker_step (hs : RequestIds s) (h : RequestStep s s') {c : Nat}
    {id : RequestId} {out : Except String Json}
    (hw : s'.worker = .found c id out ∨ s'.worker = .sets c id out) :
    (s.sender c).id = some id := by
  have hsame : s'.worker = s.worker → (s.sender c).id = some id := by
    intro heq
    rw [heq] at hw
    obtain hfound | hsets := hw
    · exact hs.found c id out hfound
    · exact hs.sets c id out hsets
  cases h with
  | sender c' h | cleanup h | shutdown h => exact hsame (by cases h <;> rfl)
  | worker h =>
    cases h with
    | finds id' outcome' hpc hfree hfound =>
      obtain heq | heq := hw
      · cases heq
        exact hs.entry c id hfound
      · cases heq
    | wins hpc =>
      obtain heq | heq := hw
      · cases heq
      · cases heq
        exact hs.found c id out hpc
    | loses | sets | ends => simp at hw

lemma RequestIds.step (hs : RequestIds s) (h : RequestStep s s') : RequestIds s' := by
  refine ⟨?_, ?_, ?_, ?_⟩
  · intro c id hl
    obtain hold | ⟨hnew, _⟩ := entry_of_step h hl
    · exact request_id_step h (hs.entry c id hold)
    · simp [hnew, SendPc.id]
  · intro c id out hw
    exact request_id_step h (hs.worker_step h (.inl hw))
  · intro c id out hw
    exact request_id_step h (hs.worker_step h (.inr hw))
  · intro c id out hr
    apply request_id_step h
    obtain hold | hsets := completion_of_step h hr
    · exact hs.response c id out hold
    · exact hs.sets c id out hsets

end

def DrainPc.left : DrainPc → Option (List Nat)
  | .drains left | .sets _ left => some left
  | _ => none

/-- The map is emptied with every request in it completed, and stays empty. -/
structure Drained (s : CdpRequests) : Prop where
  flag : s.shutdown ≠ .before → s.flag = true
  loop : ∀ left, s.shutdown.left = some left → ∀ c id, s.pending.lookup id = some c →
    c ∈ left ∨ s.completed c = true
  empty : s.shutdown.pastDrain = true → ∀ id, s.pending.lookup id = none

section
variable {s s' : CdpRequests}

lemma DrainPc.holds_of_left {pc : DrainPc} {left : List Nat} (h : pc.left = some left) :
    pc.holds = true := by
  cases pc <;> first | rfl | contradiction

lemma DrainPc.ne_before_of_pastDrain {pc : DrainPc} (h : pc.pastDrain = true) : pc ≠ .before := by
  intro hpc
  subst hpc
  contradiction

lemma Drained.other_step (ho : RequestsOwned s) (hs : Drained s) (h : RequestStep s s')
    (hshut : s'.shutdown = s.shutdown) (hflag : s'.flag = s.flag) : Drained s' := by
  refine ⟨?_, ?_, ?_⟩
  · rw [hshut, hflag]
    exact hs.flag
  · rw [hshut]
    intro left hleft c id hl
    obtain hold | ⟨_, hfree, _⟩ := entry_of_step h hl
    · exact (hs.loop left hleft c id hold).imp_right (completed_step h)
    · have hmutex := ho.shutdown (DrainPc.holds_of_left hleft)
      rw [hfree] at hmutex
      contradiction
  · rw [hshut]
    intro hpast id
    cases hl : s'.pending.lookup id with
    | none => rfl
    | some =>
      obtain hold | ⟨_, _, hunset⟩ := entry_of_step h hl
      · rw [hs.empty hpast id] at hold
        contradiction
      · rw [hs.flag (DrainPc.ne_before_of_pastDrain hpast)] at hunset
        contradiction

lemma Drained.shutdown_step (hs : Drained s) (h : DrainStep s s') : Drained s' := by
  obtain ⟨hflag, hloop, hempty⟩ := hs
  -- The loop goes past a request when its flag is set.
  have hrest : ∀ c left, s.shutdown = .drains (c :: left) → s'.completed c = true →
      ∀ c' id, s.pending.lookup id = some c' → c' ∈ left ∨ s'.completed c' = true := by
    intro c left hpc hset c' id hl
    obtain hmem | hdone := hloop (c :: left) (by rw [hpc]; rfl) c' id hl
    · obtain rfl | hmem := List.mem_cons.mp hmem
      · exact .inr hset
      · exact .inl hmem
    · exact .inr (completed_step (.shutdown h) hdone)
  cases h with
  | starts => exact ⟨fun _ => rfl, nofun, nofun⟩
  | locks hpc =>
    refine ⟨fun _ => hflag (by simp [hpc]), ?_, nofun⟩
    intro left hleft c id hl
    cases hleft
    exact .inl (mem_values.mpr ⟨id, hl⟩)
  | @loses c left hpc hset =>
    refine ⟨fun _ => hflag (by simp [hpc]), ?_, nofun⟩
    intro left' hleft
    cases hleft
    exact hrest c left hpc hset
  | @wins c left hpc hset =>
    refine ⟨fun _ => hflag (by simp [hpc]), ?_, nofun⟩
    intro left' hleft
    cases hleft
    exact hrest c left hpc (by simp [exchange])
  | @sets c left hpc =>
    refine ⟨fun _ => hflag (by simp [hpc]), ?_, nofun⟩
    intro left' hleft
    cases hleft
    exact hloop left (by rw [hpc]; rfl)
  | clears hpc => exact ⟨fun _ => hflag (by simp [hpc]), nofun, fun _ _ => rfl⟩
  | joins hpc =>
    exact ⟨fun _ => hflag (by simp [hpc]), nofun, fun _ => hempty (by rw [hpc]; rfl)⟩

lemma Drained.step (ho : RequestsOwned s) (hs : Drained s) (h : RequestStep s s') : Drained s' := by
  cases h with
  | sender c h =>
    exact hs.other_step ho (.sender c h) (by cases h <;> rfl) (by cases h <;> rfl)
  | worker h => exact hs.other_step ho (.worker h) (by cases h <;> rfl) (by cases h <;> rfl)
  | cleanup h => exact hs.other_step ho (.cleanup h) (by cases h <;> rfl) (by cases h <;> rfl)
  | shutdown h => exact hs.shutdown_step h

end

def ResponsePc.hasFound : ResponsePc → Nat → Prop
  | .found c _ _, c' => c = c'
  | _, _ => False

def SweepPc.taken : SweepPc → List Nat
  | .collects taken | .completes taken => taken
  | .sets _ rest => rest
  | _ => []

def SendPc.completing : SendPc → Bool
  | .completes _ _ => true
  | _ => false

def SendPc.pastCheck : SendPc → Bool
  | .idle | .created _ => false
  | _ => true

/-- Nobody has completed the request or can still do so, and it is not orphaned. -/
structure Forgotten (s : CdpRequests) (c : Nat) : Prop where
  map : ∀ id, s.pending.lookup id ≠ some c
  worker : ¬ s.worker.hasFound c
  cleanup : c ∉ s.cleanup.taken
  sender : (s.sender c).completing = false
  completed : s.completed c = false
  orphaned : s.orphaned c = false

section
variable {s s' : CdpRequests} {c : Nat}

lemma not_completed_of_step (h : RequestStep s s') (hc : s'.completed c = false) :
    s.completed c = false := by
  cases hold : s.completed c with
  | false => rfl
  | true =>
    rw [completed_step h hold] at hc
    contradiction

lemma not_orphaned_of_step (h : RequestStep s s') (hc : s'.orphaned c = false) :
    s.orphaned c = false := by
  cases h with
  | sender c' h =>
    cases h with
    | registers | erases =>
      simp only [orphans, or_eq_false_iff] at hc
      exact hc.1
    | _ => exact hc
  | worker h | cleanup h | shutdown h => cases h <;> exact hc

lemma eq_of_not_orphans {id : RequestId} {c' : Nat} (hl : s.pending.lookup id = some c)
    (h : orphans s id c' c = false) : c = c' := by
  simp only [orphans, hl, or_eq_false_iff] at h
  simpa using h.2

lemma Forgotten.map_of_step (hd : Drained s) (h : RequestStep s s') (hf : Forgotten s' c)
    (id : RequestId) : s.pending.lookup id ≠ some c := by
  intro hl
  have hkept : s'.pending.lookup id = s.pending.lookup id → False := fun heq =>
    hf.map id (heq.trans hl)
  cases h with
  | sender c' h =>
    cases h with
    | @registers id' =>
      by_cases hid : id = id'
      · subst hid
        have hc := eq_of_not_orphans hl hf.orphaned
        exact hf.map id (by simp [hc])
      · exact hkept (lookup_insert_ne hid)
    | @erases id' =>
      by_cases hid : id = id'
      · subst hid
        have hc := eq_of_not_orphans hl hf.orphaned
        have hsender := hf.sender
        simp [hc, setSender, SendPc.completing] at hsender
      · exact hkept (lookup_erase_ne hid)
    | _ => exact hkept rfl
  | worker h =>
    cases h with
    | @finds id' out c' hpc hfree hfound =>
      by_cases hid : id = id'
      · subst hid
        have hc : c' = c := by simpa [hl] using hfound.symm
        exact hf.worker hc
      · exact hkept (lookup_erase_ne hid)
    | _ => exact hkept rfl
  | cleanup h =>
    cases h with
    | @takes taken hpc id' c' hfound =>
      by_cases hid : id = id'
      · subst hid
        have hc : c' = c := by simpa [hl] using hfound.symm
        exact hf.cleanup (by simp [SweepPc.taken, hc])
      · exact hkept (lookup_erase_ne hid)
    | _ => exact hkept rfl
  | shutdown h =>
    cases h with
    | clears hpc =>
      obtain hmem | hset := hd.loop [] (by rw [hpc]; rfl) c id hl
      · contradiction
      · have hunset := hf.completed
        simp [hset] at hunset
    | _ => exact hkept rfl

lemma Forgotten.of_step (hd : Drained s) (h : RequestStep s s') (hf : Forgotten s' c) :
    Forgotten s c := by
  have hunset := not_completed_of_step h hf.completed
  refine ⟨hf.map_of_step hd h, ?_, ?_, ?_, hunset, not_orphaned_of_step h hf.orphaned⟩
  · intro hfound
    have hworker := hf.worker
    have hset := hf.completed
    cases h with
    | sender c' h | cleanup h | shutdown h => cases h <;> exact hworker hfound
    | worker h =>
      cases h <;> grind [ResponsePc.hasFound]
  · intro htaken
    have hcleanup := hf.cleanup
    have hset := hf.completed
    cases h with
    | sender c' h | worker h | shutdown h => cases h <;> exact hcleanup htaken
    | cleanup h =>
      cases h <;> grind [SweepPc.taken]
  · have hsender := hf.sender
    have hset := hf.completed
    cases h with
    | worker h | cleanup h | shutdown h => cases h <;> exact hsender
    | sender c' h =>
      by_cases hc : c = c'
      · subst hc
        cases h with
        | loses hpc hdone => simp [hdone] at hunset
        | wins => simp [setSender] at hset
        | starts hpc | refuses hpc | registers hpc | sends hpc | sendFails hpc | erases hpc
        | sets hpc => simp [hpc, SendPc.completing]
      · obtain ⟨pc, heq, _⟩ := sender_of_step h
        simpa [heq, update_of_ne hc] using hsender

lemma pastCheck_of_step (h : RequestStep s s') (hf : Forgotten s' c)
    (hpast : (s'.sender c).pastCheck = true) : (s.sender c).pastCheck = true := by
  cases h with
  | worker h | cleanup h | shutdown h => cases h <;> exact hpast
  | sender c' h =>
    by_cases hc : c = c'
    · subst hc
      have hmap := hf.map
      have hsender := hf.sender
      cases h with
      | starts => simp [setSender, SendPc.pastCheck] at hpast
      | refuses => simp [setSender, SendPc.completing] at hsender
      | @registers id => exact absurd (lookup_insert _) (hmap id)
      | sends hpc | sendFails hpc | erases hpc | loses hpc | wins hpc | sets hpc =>
        simp [hpc, SendPc.pastCheck]
    · obtain ⟨pc, heq, _⟩ := sender_of_step h
      simpa [heq, update_of_ne hc] using hpast

end

def Quiet (s : CdpRequests) : Prop := SendersDone s ∧ NothingInFlight s

structure RequestsInv (s : CdpRequests) : Prop where
  counts : FlagCounts s
  owned : RequestsOwned s
  ids : RequestIds s
  drained : Drained s
  covered : ∀ c, (s.sender c).pastCheck = true → ¬ Forgotten s c
  joined : s.shutdown = .returned → s.worker = .ended ∧ s.cleanup = .ended

section
variable {s s' : CdpRequests}

lemma joined_step (hs : s.shutdown = .returned → s.worker = .ended ∧ s.cleanup = .ended)
    (h : RequestStep s s') (hreturned : s'.shutdown = .returned) :
    s'.worker = .ended ∧ s'.cleanup = .ended := by
  cases h with
  | sender c h => cases h <;> exact hs hreturned
  | worker h | cleanup h => cases h <;> grind [exchange, give]
  | shutdown h =>
    cases h with
    | joins hpc hworker hcleanup => exact ⟨hworker, hcleanup⟩
    | _ => simp at hreturned

lemma RequestsInv.step (hs : RequestsInv s) (h : RequestStep s s') : RequestsInv s' := by
  refine ⟨hs.counts.step h, hs.owned.step h, hs.ids.step h, hs.drained.step hs.owned h, ?_,
    joined_step hs.joined h⟩
  intro c hpast hforgotten
  exact hs.covered c (pastCheck_of_step h hforgotten hpast) (hforgotten.of_step hs.drained h)

lemma requestsInv_start : RequestsInv start := by
  refine ⟨fun c => rfl, ⟨nofun, nofun, nofun⟩, ⟨nofun, nofun, nofun, nofun⟩, ⟨?_, nofun, nofun⟩,
    nofun, nofun⟩
  simp [start]

lemma requestsInv_of_reachable (hs : Reachable RequestStep (· = start) s) :
    RequestsInv s := by
  apply hs.invariant RequestsInv
  · intro s hstart
    subst hstart
    exact requestsInv_start
  · intro s s' ih hstep
    exact ih.step hstep

/-- With the map drained and all quiet, a request that is not completed would be forgotten. -/
lemma RequestsInv.complete (hs : RequestsInv s) (hpast : s.shutdown.pastDrain = true)
    (hquiet : Quiet s) {c : Nat} (hissued : s.sender c ≠ .idle) : IsComplete s c := by
  obtain ⟨hsenders, hworker, hcleanup⟩ := hquiet
  obtain ⟨id, hdone⟩ := (hsenders c).resolve_left hissued
  have hmap := hs.drained.empty hpast
  have hvalues : c ∉ values s.pending := by
    intro hmem
    obtain ⟨id', hl⟩ := mem_values.mp hmem
    simp [hmap id'] at hl
  cases hcompleted : s.completed c with
  | true =>
    left
    have hcount := hs.counts c
    have hw : s.worker.setsFor c = 0 := by
      obtain h | h := hworker <;> simp [h, ResponsePc.setsFor]
    have hc : s.cleanup.setsFor c = 0 := by
      obtain h | h | h := hcleanup <;> simp [h, SweepPc.setsFor]
    have hd : s.shutdown.setsFor c = 0 := by
      revert hpast
      cases s.shutdown <;> simp [DrainPc.pastDrain, DrainPc.setsFor]
    simp only [setters, hdone, SendPc.setsOwn, hcompleted, toNat_true] at hcount
    exact List.ne_nil_of_length_pos (by omega)
  | false =>
    right
    refine ⟨?_, hvalues⟩
    by_contra horphaned
    apply hs.covered c (by simp [hdone, SendPc.pastCheck])
    refine ⟨fun id' => by simp [hmap id'], ?_, ?_, by simp [hdone, SendPc.completing], hcompleted,
      by simpa using horphaned⟩
    · obtain h | h := hworker <;> simp [h, ResponsePc.hasFound]
    · obtain h | h | h := hcleanup <;> simp [h, SweepPc.taken]

end

/-- Every request is completed once, by what belongs to it, when shutdown has drained the map and
all is quiet. -/
theorem requests_complete_when_quiet : AlwaysComplete Quiet := by
  intro s hs
  have hinv := requestsInv_of_reachable hs
  refine ⟨fun c => ?_, hinv.ids.response, fun hpast hquiet c hissued =>
    hinv.complete hpast hquiet hissued⟩
  have hcount := hinv.counts c
  have hle := toNat_le (s.completed c)
  omega

/-- When `shutdown` has returned, both threads are joined and only `send_host` matters. -/
theorem requests_complete_after_shutdown {s : CdpRequests}
    (hs : Reachable RequestStep (· = start) s) (hreturned : s.shutdown = .returned)
    (hsenders : SendersDone s) {c : Nat} (hissued : s.sender c ≠ .idle) : IsComplete s c := by
  have hinv := requestsInv_of_reachable hs
  obtain ⟨hworker, hcleanup⟩ := hinv.joined hreturned
  refine hinv.complete (by simp [hreturned, DrainPc.pastDrain])
    ⟨hsenders, .inr hworker, .inr (.inr hcleanup)⟩ hissued

theorem pending_request_drained : ∃ s : CdpRequests, s.shutdown = .returned ∧ IsComplete s 0 := by
  have hstart : Reachable RequestStep (· = start) start := .init rfl
  have hsent := ((hstart.tail (.sender 0 (.starts rfl))).tail
    (.sender 0 (.registers rfl rfl rfl))).tail (.sender 0 (.sends rfl))
  have hdrained := ((((hsent.tail (.shutdown (.starts rfl))).tail (.shutdown (.locks rfl rfl))).tail
    (.shutdown (.wins rfl rfl))).tail (.shutdown (.sets rfl))).tail (.shutdown (.clears rfl))
  have hreturned := ((hdrained.tail (.worker (.ends rfl rfl))).tail (.cleanup (.ends rfl rfl))).tail
    (.shutdown (.joins rfl rfl rfl))
  refine ⟨_, rfl, requests_complete_after_shutdown hreturned rfl (fun c => ?_) SendPc.noConfusion⟩
  by_cases hc : c = 0
  · exact .inr ⟨1, by subst hc; rfl⟩
  · exact .inl (by simp [exchange, give, setSender, start, update_of_ne hc])

/-- The worker has taken the request out of the map for its response when `shutdown` drains it. -/
theorem response_in_flight_incomplete : ¬ AlwaysComplete SendersDone := by
  intro halways
  have hstart : Reachable RequestStep (· = start) start := .init rfl
  have hsent := ((hstart.tail (.sender 0 (.starts rfl))).tail
    (.sender 0 (.registers rfl rfl rfl))).tail (.sender 0 (.sends rfl))
  have hfound := hsent.tail (.worker (.finds 1 (.ok .null) rfl rfl rfl))
  have hdrained := ((hfound.tail (.shutdown (.starts rfl))).tail
    (.shutdown (.locks rfl rfl))).tail (.shutdown (.clears rfl))
  have hcomplete := (halways _ hdrained).left rfl ?_ 0 (by simp [setSender])
  · simp [IsComplete, setSender, start, orphans] at hcomplete
  · intro c
    by_cases hc : c = 0
    · subst hc
      exact .inr ⟨1, rfl⟩
    · simp [setSender, start, update_of_ne hc]

end Millennium.Engine
