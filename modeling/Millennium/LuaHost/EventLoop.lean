import Millennium.LuaHost.RpcClient

/-!
# The event loop of the plugin host

`rpc_client::run` resumes coroutines between messages: those enqueued, before it polls and after
each message, and those with a readable descriptor, after it has polled. Notifications that a call
of a coroutine reads are kept until the next message has been handled.
-/

namespace Millennium.LuaHost.EventLoop

open Relation Transitions List Event

abbrev Coroutine := Nat

abbrev Fd := Nat

/-- The places where `run` calls `drain_pending_coroutines`. -/
inductive DrainPoint where
  | top
  | notReady
  | bottom
  deriving Repr, DecidableEq

inductive Phase where
  | drains (point : DrainPoint)
  | polls
  | resumes
  /-- Reading and handling a message, as far as `loop` of the host says. -/
  | handles
  | ended
  deriving Repr, DecidableEq

/-- What `sys_poll` says of the connection to the parent. -/
inductive IpcEvents where
  | readable | quiet | hangup
  deriving Repr, DecidableEq

structure Loop where
  /-- The client, with the handlers and calls that are active. -/
  host : Host
  phase : Phase
  pending : List Coroutine
  resuming : List Coroutine
  watches : AList (fun _ : Fd => Coroutine)
  /-- The descriptors that are left of those that were readable. -/
  readable : List Fd
  ipc : IpcEvents
  running : Option Coroutine

def Loop.entered (deferred : List Notification) : Loop where
  host := { Host.start with deferred, log := deferred.map fun n => .read (.notify n) }
  phase := .drains .top
  pending := []
  resuming := []
  watches := ∅
  readable := []
  ipc := .quiet
  running := none

def Loop.Idle (s : Loop) : Prop := s.host.stack = [] ∧ s.running = none

/-- Lua code runs: a handler, or a coroutine that is not in a call. -/
def Loop.RunsLua (s : Loop) : Prop :=
  match s.host.stack with
  | [] => s.running ≠ none
  | a :: _ => a.callId = none

def Loop.again (s : Loop) : Phase := if s.host.connected then .drains .top else .ended

inductive LuaStep (s : Loop) : Loop → Prop
  | enqueues (co : Coroutine) (hlua : s.RunsLua) :
      LuaStep s { s with pending := s.pending ++ [co] }
  | watches (fd : Fd) (co : Coroutine) (hlua : s.RunsLua) :
      LuaStep s { s with watches := s.watches.insert fd co }

inductive CoroutineStep (s : Loop) : Loop → Prop
  | calls {co : Coroutine} (hrunning : s.running = some co) (hstack : s.host.stack = [])
      (hconnected : s.host.connected = true) :
      CoroutineStep s { s with host := { s.host with
        nextId := s.host.nextId + 1, stack := [.call s.host.nextId]
        outstanding := s.host.nextId :: s.host.outstanding } }
  | callFails {co : Coroutine} (hrunning : s.running = some co) (hstack : s.host.stack = [])
      (hconnected : s.host.connected = true) :
      CoroutineStep s { s with host := { s.host with
        nextId := s.host.nextId + 1, connected := false } }
  | comesBack {co : Coroutine} (hrunning : s.running = some co) (hstack : s.host.stack = []) :
      CoroutineStep s { s with running := none }

inductive DrainStep (s : Loop) : Loop → Prop
  | resumes {point : DrainPoint} {co : Coroutine} {rest : List Coroutine}
      (hphase : s.phase = .drains point) (hidle : s.Idle) (hresuming : s.resuming = co :: rest) :
      DrainStep s { s with resuming := rest, running := some co }
  | refills {point : DrainPoint} (hphase : s.phase = .drains point) (hidle : s.Idle)
      (hresuming : s.resuming = []) (hpending : s.pending ≠ []) :
      DrainStep s { s with resuming := s.pending, pending := [] }
  | polls (hphase : s.phase = .drains .top) (hidle : s.Idle) (hresuming : s.resuming = [])
      (hpending : s.pending = []) :
      DrainStep s { s with phase := .polls }
  | loops {point : DrainPoint} (hphase : s.phase = .drains point) (hpoint : point ≠ .top)
      (hidle : s.Idle) (hresuming : s.resuming = []) (hpending : s.pending = []) :
      DrainStep s { s with phase := s.again }

/-- `sys_poll` returns when a descriptor is readable or the connection has something. -/
inductive PollStep (s : Loop) : Loop → Prop
  | returns (readable : List Fd) (ipc : IpcEvents) (hphase : s.phase = .polls)
      (hreadable : readable.Sublist s.watches.keys)
      (hquiet : ipc = .quiet → s.host.inbox = [] ∧ readable ≠ []) :
      PollStep s { s with phase := .resumes, readable, ipc }
  | fails (hphase : s.phase = .polls) : PollStep s { s with phase := .ended }

inductive ReadyStep (s : Loop) : Loop → Prop
  | resumes {fd : Fd} {rest : List Fd} {co : Coroutine} (hphase : s.phase = .resumes)
      (hidle : s.Idle) (hreadable : s.readable = fd :: rest)
      (hwatch : s.watches.lookup fd = some co) :
      ReadyStep s { s with
        readable := rest, watches := s.watches.erase fd, running := some co }
  /-- A coroutine that was resumed before took the watch away. -/
  | skips {fd : Fd} {rest : List Fd} (hphase : s.phase = .resumes) (hidle : s.Idle)
      (hreadable : s.readable = fd :: rest) (hwatch : s.watches.lookup fd = none) :
      ReadyStep s { s with readable := rest }
  | hangsUp (hphase : s.phase = .resumes) (hidle : s.Idle) (hreadable : s.readable = [])
      (hipc : s.ipc = .hangup) :
      ReadyStep s { s with phase := .ended }
  | quiet (hphase : s.phase = .resumes) (hidle : s.Idle) (hreadable : s.readable = [])
      (hipc : s.ipc = .quiet) :
      ReadyStep s { s with phase := .drains .notReady }
  | reads (hphase : s.phase = .resumes) (hidle : s.Idle) (hreadable : s.readable = [])
      (hipc : s.ipc = .readable) :
      ReadyStep s { s with phase := .handles, host := { s.host with loop := .reads } }

inductive MessageStep (s : Loop) : Loop → Prop
  | requests {id : MsgId} {method : String} {params : Json} {frames : List Frame}
      (hphase : s.phase = .handles) (hidle : s.Idle) (hloop : s.host.loop = .reads)
      (hinbox : s.host.inbox = .request id method params :: frames) :
      MessageStep s { s with host := { s.host with
        inbox := frames, stack := [.request id], loop := .drains
        log := s.host.log ++ [.read (.request id method params)] } }
  | notifies {notification : Notification} {frames : List Frame}
      (hphase : s.phase = .handles) (hidle : s.Idle) (hloop : s.host.loop = .reads)
      (hinbox : s.host.inbox = .notify notification :: frames) :
      MessageStep s { s with host := { s.host with
        inbox := frames, stack := [.notification], loop := .drains
        log := s.host.log ++ [.read (.notify notification), .dispatched notification] } }
  | ignores {id : MsgId} {outcome : Outcome} {frames : List Frame}
      (hphase : s.phase = .handles) (hidle : s.Idle) (hloop : s.host.loop = .reads)
      (hinbox : s.host.inbox = .response id outcome :: frames) :
      MessageStep s { s with host := { s.host with
        inbox := frames, loop := .drains
        log := s.host.log ++ [.read (.response id outcome)] } }
  | dispatches {notification : Notification} {rest : List Notification}
      (hphase : s.phase = .handles) (hidle : s.Idle) (hloop : s.host.loop = .drains)
      (hbatch : s.host.batch = notification :: rest) :
      MessageStep s { s with host := { s.host with
        batch := rest, stack := [.notification]
        log := s.host.log ++ [.dispatched notification] } }
  | refills (hphase : s.phase = .handles) (hidle : s.Idle) (hloop : s.host.loop = .drains)
      (hbatch : s.host.batch = []) (hdeferred : s.host.deferred ≠ []) :
      MessageStep s { s with host := { s.host with batch := s.host.deferred, deferred := [] } }
  | drained (hphase : s.phase = .handles) (hidle : s.Idle) (hloop : s.host.loop = .drains)
      (hbatch : s.host.batch = []) (hdeferred : s.host.deferred = []) :
      MessageStep s { s with phase := .drains .bottom }
  | readFails (hphase : s.phase = .handles) (hidle : s.Idle) (hloop : s.host.loop = .reads) :
      MessageStep s { s with phase := .ended, host := { s.host with connected := false } }

inductive RunStep (s : Loop) : Loop → Prop
  | parent {host : Host} (h : ParentStep s.host host) : RunStep s { s with host }
  | handler {host : Host} (h : HandlerStep s.host host) : RunStep s { s with host }
  | call {host : Host} (h : CallStep s.host host) : RunStep s { s with host }
  | lua {s' : Loop} (h : LuaStep s s') : RunStep s s'
  | coroutine {s' : Loop} (h : CoroutineStep s s') : RunStep s s'
  | drain {s' : Loop} (h : DrainStep s s') : RunStep s s'
  | poll {s' : Loop} (h : PollStep s s') : RunStep s s'
  | ready {s' : Loop} (h : ReadyStep s s') : RunStep s s'
  | message {s' : Loop} (h : MessageStep s s') : RunStep s s'

/-- Notifications neither wait while `run` blocks nor overtake one another. -/
structure Orderly (s : Loop) : Prop where
  /-- Nothing is deferred while `run` is in `sys_poll`. -/
  blocks : s.phase = .polls → s.host.deferred = []
  /-- Notifications are dispatched in the order in which they were read. -/
  order : s.host.log.filterMap notificationDispatched ++ s.host.batch ++ s.host.deferred =
    s.host.log.filterMap notificationRead

/-- In every state that allowed steps reach from `run`, notifications are in order. -/
def KeepsOrder (deferred : List Notification) (allowed : Loop → Loop → Prop) : Prop :=
  ∀ s, Reachable (Allowed RunStep allowed) (· = .entered deferred) s → Orderly s

/-- A notification is deferred only while no coroutine is resumed. -/
def DefersInHandlers (s s' : Loop) : Prop :=
  s.host.deferred.length < s'.host.deferred.length → s.running = none

def Loop.Handling (s : Loop) : Prop := s.phase = .handles ∧ s.host.loop = .drains

def Loop.Resumes (s : Loop) : Prop := (∃ point, s.phase = .drains point) ∨ s.phase = .resumes

structure Ordered (s : Loop) : Prop where
  order : s.host.log.filterMap notificationDispatched ++ s.host.batch ++ s.host.deferred =
    s.host.log.filterMap notificationRead
  /-- What is on the stack is there for a message or for a coroutine. -/
  active : s.host.stack ≠ [] → s.running ≠ none ∨ s.Handling
  /-- Coroutines are resumed before and after a message, not while it is handled. -/
  apart : s.running ≠ none → s.Resumes
  settled : ¬ s.Handling → s.host.batch = [] ∧ s.host.deferred = []

structure SameQueue (h h' : Host) : Prop where
  loop : h'.loop = h.loop
  batch : h'.batch = h.batch
  deferred : h'.deferred = h.deferred
  dispatched : h'.log.filterMap notificationDispatched =
    h.log.filterMap notificationDispatched
  read : h'.log.filterMap notificationRead = h.log.filterMap notificationRead

section
variable {s s' : Loop} {host : Host}

lemma Ordered.of_sameQueue (hs : Ordered s) (h : SameQueue s.host host)
    (hstack : host.stack ≠ [] → s.host.stack ≠ [] ∨ s.running ≠ none) :
    Ordered { s with host } := by
  have hhandling : Loop.Handling { s with host } ↔ s.Handling := by
    simp only [Loop.Handling, h.loop]
  refine ⟨?_, ?_, hs.apart, ?_⟩
  · simp only [h.batch, h.deferred, h.dispatched, h.read]
    exact hs.order
  · intro hne
    rw [hhandling]
    obtain hold | hrunning := hstack hne
    · exact hs.active hold
    · exact .inl hrunning
  · rw [hhandling]
    simp only [h.batch, h.deferred]
    exact hs.settled

lemma sameQueue_parent (h : ParentStep s.host host) :
    SameQueue s.host host ∧ host.stack = s.host.stack := by
  cases h <;> exact ⟨⟨rfl, rfl, rfl, rfl, rfl⟩, rfl⟩

lemma sameQueue_handler (h : HandlerStep s.host host) :
    SameQueue s.host host ∧ s.host.stack ≠ [] := by
  cases h with
  | calls hstack | callFails hstack | finishes hstack =>
    exact ⟨⟨rfl, rfl, rfl, rfl, rfl⟩, by simp [hstack]⟩
  | responds hstack | respondFails hstack =>
    exact ⟨⟨rfl, rfl, rfl, by simp, by simp⟩, by simp [hstack]⟩

lemma call_cases (h : CallStep s.host host) :
    s.host.stack ≠ [] ∧ (SameQueue s.host host ∨ ∃ notification frames, host = { s.host with
        inbox := frames, deferred := s.host.deferred ++ [notification]
        log := s.host.log ++ [.read (.notify notification)] }) := by
  cases h with
  | takesStashed hstack | reads hstack | stashes hstack | serves hstack =>
    exact ⟨by simp [hstack], .inl ⟨rfl, rfl, rfl, by simp, by simp⟩⟩
  | readFails hstack | disconnected hstack =>
    exact ⟨by simp [hstack], .inl ⟨rfl, rfl, rfl, rfl, rfl⟩⟩
  | defers hstack => exact ⟨by simp [hstack], .inr ⟨_, _, rfl⟩⟩

lemma Ordered.call (hs : Ordered s) (h : CallStep s.host host)
    (hallowed : DefersInHandlers s { s with host }) : Ordered { s with host } := by
  obtain ⟨hstack, hsame | ⟨notification, frames, rfl⟩⟩ := call_cases h
  · exact hs.of_sameQueue hsame fun _ => .inl hstack
  · have hrunning : s.running = none := hallowed (by simp)
    have hhandling := (hs.active hstack).resolve_left (not_not.mpr hrunning)
    refine ⟨?_, fun _ => .inr hhandling, hs.apart, fun hnot => absurd hhandling hnot⟩
    have horder := hs.order
    simp only [filterMap_append, ← horder, append_assoc]
    rfl

lemma Loop.Resumes.not_handling (h : s.Resumes) : ¬ s.Handling := by
  rintro ⟨hhandles, -⟩
  obtain ⟨point, hphase⟩ | hphase := h
  · cases hphase.symm.trans hhandles
  · cases hphase.symm.trans hhandles

section
variable (hs : Ordered s)
include hs

lemma Ordered.of_not_handling (hold : ¬ s.Handling)
    (hbatch : s'.host.batch = s.host.batch) (hdef : s'.host.deferred = s.host.deferred)
    (hlog : s'.host.log = s.host.log) (hactive : s'.host.stack ≠ [] → s'.running ≠ none)
    (hapart : s'.running ≠ none → s'.Resumes) : Ordered s' := by
  refine ⟨?_, fun hne => .inl (hactive hne), hapart, fun _ => ?_⟩
  · rw [hbatch, hdef, hlog]
    exact hs.order
  · rw [hbatch, hdef]
    exact hs.settled hold

lemma Ordered.lua (h : LuaStep s s') : Ordered s' := by
  cases h <;> exact ⟨hs.order, hs.active, hs.apart, hs.settled⟩

lemma Ordered.coroutine (h : CoroutineStep s s') : Ordered s' := by
  cases h with
  | calls hrunning | callFails hrunning =>
    have hrun : s.running ≠ none := by simp [hrunning]
    exact hs.of_not_handling (hs.apart hrun).not_handling rfl rfl rfl (fun _ => hrun)
      (fun _ => hs.apart hrun)
  | comesBack hrunning hstack =>
    have hrun : s.running ≠ none := by simp [hrunning]
    exact hs.of_not_handling (hs.apart hrun).not_handling rfl rfl rfl
      (fun hne => absurd hstack hne) (fun hne => absurd rfl hne)

lemma Ordered.moves (hidle : s.Idle) (hphase : s.phase ≠ .handles)
    (hhost : s'.host = s.host) (hapart : s'.running ≠ none → s'.Resumes) : Ordered s' :=
  hs.of_not_handling (fun h => hphase h.1) (by rw [hhost]) (by rw [hhost]) (by rw [hhost])
    (fun hne => absurd hidle.1 (hhost ▸ hne)) hapart

lemma Ordered.drain (h : DrainStep s s') : Ordered s' := by
  cases h with
  | resumes hphase hidle | refills hphase hidle =>
    exact hs.moves hidle (by simp [hphase]) rfl fun _ => .inl ⟨_, hphase⟩
  | polls hphase hidle | loops hphase hpoint hidle =>
    exact hs.moves hidle (by simp [hphase]) rfl fun hne => absurd hidle.2 hne

lemma Ordered.idle_of_polls (hphase : s.phase = .polls) : s.Idle := by
  have hrunning : s.running = none := by
    by_contra hne
    obtain ⟨point, hdrains⟩ | hresumes := hs.apart hne
    · cases hphase.symm.trans hdrains
    · cases hphase.symm.trans hresumes
  refine ⟨?_, hrunning⟩
  by_contra hne
  obtain hne | hhandling := hs.active hne
  · exact hne hrunning
  · cases hphase.symm.trans hhandling.1

lemma Ordered.poll (h : PollStep s s') : Ordered s' := by
  cases h with
  | returns readable ipc hphase | fails hphase =>
    have hidle := hs.idle_of_polls hphase
    exact hs.moves hidle (by simp [hphase]) rfl fun hne => absurd hidle.2 hne

lemma Ordered.ready (h : ReadyStep s s') : Ordered s' := by
  cases h with
  | resumes hphase hidle | skips hphase hidle =>
    exact hs.moves hidle (by simp [hphase]) rfl fun _ => .inr hphase
  | hangsUp hphase hidle | quiet hphase hidle =>
    exact hs.moves hidle (by simp [hphase]) rfl fun hne => absurd hidle.2 hne
  | reads hphase hidle =>
    have hold : ¬ s.Handling := fun h => by cases hphase.symm.trans h.1
    exact hs.of_not_handling hold rfl rfl rfl (fun hne => absurd hidle.1 hne)
      (fun hne => absurd hidle.2 hne)

lemma Ordered.message (h : MessageStep s s') : Ordered s' := by
  have horder := hs.order
  cases h with
  | requests hphase hidle | ignores hphase hidle =>
    refine ⟨?_, fun _ => .inr ⟨hphase, rfl⟩, fun hne => absurd hidle.2 hne,
      fun hnot => absurd ⟨hphase, rfl⟩ hnot⟩
    rw [append_assoc] at horder ⊢
    exact notifications_other rfl rfl horder
  | notifies hphase hidle hloop =>
    have hquiet : ¬ s.Handling := fun h => by cases hloop.symm.trans h.2
    refine ⟨?_, fun _ => .inr ⟨hphase, rfl⟩, fun hne => absurd hidle.2 hne,
      fun hnot => absurd ⟨hphase, rfl⟩ hnot⟩
    obtain ⟨hbatch, hdef⟩ := hs.settled hquiet
    rw [hbatch, hdef, append_nil, append_nil] at horder
    simp only [hbatch, hdef, filterMap_append, horder, append_nil]
    rfl
  | dispatches hphase hidle hloop hbatch =>
    refine ⟨?_, fun _ => .inr ⟨hphase, hloop⟩, fun hne => absurd hidle.2 hne,
      fun hnot => absurd ⟨hphase, hloop⟩ hnot⟩
    rw [hbatch] at horder
    simp [← horder]
  | refills hphase hidle hloop hbatch =>
    refine ⟨?_, fun hne => absurd hidle.1 hne, fun hne => absurd hidle.2 hne,
      fun hnot => absurd ⟨hphase, hloop⟩ hnot⟩
    rw [hbatch, append_nil] at horder
    rw [append_nil]
    exact horder
  | drained hphase hidle hloop hbatch hdef =>
    exact ⟨horder, fun hne => absurd hidle.1 hne, fun hne => absurd hidle.2 hne,
      fun _ => ⟨hbatch, hdef⟩⟩
  | readFails hphase hidle hloop =>
    have hquiet : ¬ s.Handling := fun h => by cases hloop.symm.trans h.2
    exact ⟨horder, fun hne => absurd hidle.1 hne, fun hne => absurd hidle.2 hne,
      fun _ => hs.settled hquiet⟩

lemma Ordered.step (h : RunStep s s') (hallowed : DefersInHandlers s s') : Ordered s' := by
  cases h with
  | parent h =>
    obtain ⟨hsame, hstack⟩ := sameQueue_parent h
    exact hs.of_sameQueue hsame fun hne => .inl (hstack ▸ hne)
  | handler h =>
    obtain ⟨hsame, hstack⟩ := sameQueue_handler h
    exact hs.of_sameQueue hsame fun _ => .inl hstack
  | call h => exact hs.call h hallowed
  | lua h => exact hs.lua h
  | coroutine h => exact hs.coroutine h
  | drain h => exact hs.drain h
  | poll h => exact hs.poll h
  | ready h => exact hs.ready h
  | message h => exact hs.message h

end

end

lemma Ordered.entered : Ordered (.entered []) where
  order := rfl
  active := fun hne => absurd rfl hne
  apart := fun hne => absurd rfl hne
  settled := fun _ => ⟨rfl, rfl⟩

lemma Ordered.orderly {s : Loop} (hs : Ordered s) : Orderly s := by
  refine ⟨fun hphase => (hs.settled ?_).2, hs.order⟩
  rintro ⟨hhandles, -⟩
  cases hphase.symm.trans hhandles

/-- As long as no call of a coroutine reads a notification, they are in order exactly if nothing was
deferred before. -/
theorem keepsOrder_iff (deferred : List Notification) :
    KeepsOrder deferred DefersInHandlers ↔ deferred = [] := by
  constructor
  · intro hkeeps
    have hstart : Reachable (Allowed RunStep DefersInHandlers) (· = .entered deferred)
        (.entered deferred) := .init rfl
    have hpolls := hstart.tail
      ⟨.drain (.polls rfl ⟨rfl, rfl⟩ rfl rfl), fun hlt => absurd hlt (lt_irrefl _)⟩
    exact (hkeeps _ hpolls).blocks rfl
  · rintro rfl s hs
    have hordered : Ordered s := by
      apply hs.invariant Ordered
      · rintro s rfl
        exact .entered
      · intro s s' ih hstep
        exact ih.step hstep.step hstep.allowed
    exact hordered.orderly

/-- The handler of a request starts a coroutine, whose call reads a notification. The loop then
polls, with the notification still deferred. -/
theorem coroutine_call_leaves_notification : ¬ KeepsOrder [] (fun _ _ => True) := by
  intro hkeeps
  have hstart : Reachable (Allowed RunStep fun _ _ => True) (· = .entered []) (.entered []) :=
    .init rfl
  -- Request 7 comes, and its handler enqueues coroutine 1.
  have htop := hstart.tail ⟨.drain (.polls rfl ⟨rfl, rfl⟩ rfl rfl), trivial⟩
  have hsent := htop.tail ⟨.parent (.requests 7 "f" .null), trivial⟩
  have hreadable : IpcEvents.readable ≠ .quiet := by decide
  have hpolled := (hsent.tail ⟨.poll (.returns [] .readable rfl (List.Sublist.refl _)
    (absurd · hreadable)), trivial⟩).tail ⟨.ready (.reads rfl ⟨rfl, rfl⟩ rfl rfl), trivial⟩
  have hserving := hpolled.tail ⟨.message (.requests rfl ⟨rfl, rfl⟩ rfl rfl), trivial⟩
  have henqueued := hserving.tail ⟨.lua (.enqueues 1 rfl), trivial⟩
  have hserved := (henqueued.tail ⟨.handler (.responds rfl (.ok .null)), trivial⟩).tail
    ⟨.message (.drained rfl ⟨rfl, rfl⟩ rfl rfl rfl), trivial⟩
  -- The coroutine is resumed and makes a call, which reads a notification before its response.
  have hresumed := (hserved.tail ⟨.drain (.refills rfl ⟨rfl, rfl⟩ rfl (cons_ne_nil _ _)),
    trivial⟩).tail ⟨.drain (.resumes rfl ⟨rfl, rfl⟩ rfl), trivial⟩
  have hcalled := hresumed.tail ⟨.coroutine (.calls rfl rfl rfl), trivial⟩
  have hanswered := (hcalled.tail ⟨.parent (.notifies ⟨"n", .null⟩), trivial⟩).tail
    ⟨.parent (.responds 1 (.ok .null) mem_cons_self), trivial⟩
  have hreturned := (hanswered.tail ⟨.call (.defers rfl rfl rfl rfl), trivial⟩).tail
    ⟨.call (.reads rfl rfl rfl rfl), trivial⟩
  have hback := hreturned.tail ⟨.coroutine (.comesBack rfl rfl), trivial⟩
  -- The loop goes to its top and polls.
  have hbottom : DrainPoint.bottom ≠ .top := by decide
  have hblocked := (hback.tail ⟨.drain (.loops rfl hbottom ⟨rfl, rfl⟩ rfl rfl), trivial⟩).tail
    ⟨.drain (.polls rfl ⟨rfl, rfl⟩ rfl rfl), trivial⟩
  cases (hkeeps _ hblocked).blocks rfl

end Millennium.LuaHost.EventLoop
