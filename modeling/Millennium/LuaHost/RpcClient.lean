import Millennium.Lib.Json
import Millennium.Lib.PendingMap
import Millennium.Lib.Transitions

/-!
# The RPC client of the plugin host

One thread runs the message loop, the handlers, and the calls that these make to the parent. A call
serves the requests that it reads before its response, so that calls nest. The stack holds the
activations, the innermost first.
-/

namespace Millennium.LuaHost

open Relation Transitions List

abbrev MsgId := BitVec 32

/-- What a response carries: `error`, a text, or `result`. -/
abbrev Outcome := Except String Json

structure Notification where
  method : String
  params : Json

inductive Frame where
  | response (id : MsgId) (outcome : Outcome)
  | request (id : MsgId) (method : String) (params : Json)
  | notify (notification : Notification)

def Frame.responseId : Frame → Option MsgId
  | .response id _ => some id
  | _ => none

inductive Event where
  | read (frame : Frame)
  | returned (id : MsgId) (outcome : Outcome)
  | responded (id : MsgId) (outcome : Outcome)
  | dispatched (notification : Notification)

@[simp] def Event.responseRead : Event → Option (Σ _ : MsgId, Outcome)
  | .read (.response id outcome) => some ⟨id, outcome⟩
  | _ => none

@[simp] def Event.responseReturned : Event → Option (Σ _ : MsgId, Outcome)
  | .returned id outcome => some ⟨id, outcome⟩
  | _ => none

@[simp] def Event.requestRead : Event → Option MsgId
  | .read (.request id _ _) => some id
  | _ => none

@[simp] def Event.requestAnswered : Event → Option MsgId
  | .responded id _ => some id
  | _ => none

@[simp] def Event.notificationRead : Event → Option Notification
  | .read (.notify notification) => some notification
  | _ => none

@[simp] def Event.notificationDispatched : Event → Option Notification
  | .dispatched notification => some notification
  | _ => none

inductive Activation where
  | request (id : MsgId)
  | notification
  | call (id : MsgId)
  deriving Repr, DecidableEq

def Activation.callId : Activation → Option MsgId
  | .call id => some id
  | _ => none

def Activation.requestId : Activation → Option MsgId
  | .request id => some id
  | _ => none

inductive LoopPc where
  | reads
  | drains
  | ended
  deriving Repr, DecidableEq

structure Host where
  connected : Bool
  nextId : MsgId
  stash : AList (fun _ : MsgId => Outcome)
  deferred : List Notification
  batch : List Notification
  stack : List Activation
  loop : LoopPc
  inbox : List Frame
  outstanding : List MsgId
  log : List Event

def Host.start : Host := ⟨true, 1, ∅, [], [], [], .reads, [], [], []⟩

def callIds (stack : List Activation) : List MsgId := stack.filterMap Activation.callId

def requestIds (stack : List Activation) : List MsgId := stack.filterMap Activation.requestId

def responseIds (inbox : List Frame) : List MsgId := inbox.filterMap Frame.responseId

section
variable (id : MsgId) (stack : List Activation) (frames : List Frame)

@[simp] lemma callIds_nil : callIds [] = [] := rfl
@[simp] lemma callIds_call : callIds (.call id :: stack) = id :: callIds stack := rfl
@[simp] lemma callIds_request : callIds (.request id :: stack) = callIds stack := rfl
@[simp] lemma callIds_notification : callIds (.notification :: stack) = callIds stack := rfl
@[simp] lemma responseIds_nil : responseIds [] = [] := rfl
@[simp] lemma responseIds_response (outcome : Outcome) :
    responseIds (.response id outcome :: frames) = id :: responseIds frames := rfl
@[simp] lemma responseIds_request (method : String) (params : Json) :
    responseIds (.request id method params :: frames) = responseIds frames := rfl
@[simp] lemma responseIds_notify (notification : Notification) :
    responseIds (.notify notification :: frames) = responseIds frames := rfl

@[simp] lemma responseIds_append (frames' : List Frame) :
    responseIds (frames ++ frames') = responseIds frames ++ responseIds frames' :=
  filterMap_append

lemma mem_callIds : id ∈ callIds stack ↔ .call id ∈ stack := by
  constructor
  · intro h
    obtain ⟨a, ha, hid⟩ := mem_filterMap.mp h
    cases a with
    | call =>
      cases hid
      exact ha
    | request | notification => cases hid
  · intro h
    exact mem_filterMap.mpr ⟨_, h, rfl⟩

end

/-- The parent sends a frame; a response is to a call that it has not answered. -/
inductive ParentStep (s : Host) : Host → Prop
  | responds (id : MsgId) (outcome : Outcome) (hid : id ∈ s.outstanding) :
      ParentStep s { s with
        inbox := s.inbox ++ [.response id outcome], outstanding := s.outstanding.erase id }
  | requests (id : MsgId) (method : String) (params : Json) :
      ParentStep s { s with inbox := s.inbox ++ [.request id method params] }
  | notifies (notification : Notification) :
      ParentStep s { s with inbox := s.inbox ++ [.notify notification] }

/-- A handler makes a call, or is done. A call without a connection throws and changes nothing. -/
inductive HandlerStep (s : Host) : Host → Prop
  | calls {a : Activation} {rest : List Activation} (hstack : s.stack = a :: rest)
      (ha : a.callId = none) (hconnected : s.connected = true) :
      HandlerStep s { s with
        nextId := s.nextId + 1, stack := .call s.nextId :: s.stack
        outstanding := s.nextId :: s.outstanding }
  | callFails {a : Activation} {rest : List Activation} (hstack : s.stack = a :: rest)
      (ha : a.callId = none) (hconnected : s.connected = true) :
      HandlerStep s { s with nextId := s.nextId + 1, connected := false }
  | responds {id : MsgId} {rest : List Activation} (hstack : s.stack = .request id :: rest)
      (outcome : Outcome) :
      HandlerStep s { s with stack := rest, log := s.log ++ [.responded id outcome] }
  | respondFails {id : MsgId} {rest : List Activation} (hstack : s.stack = .request id :: rest)
      (outcome : Outcome) :
      HandlerStep s { s with
        stack := rest, log := s.log ++ [.responded id outcome], connected := false }
  | finishes {rest : List Activation} (hstack : s.stack = .notification :: rest) :
      HandlerStep s { s with stack := rest }

inductive CallStep (s : Host) : Host → Prop
  | takesStashed {id : MsgId} {rest : List Activation} {outcome : Outcome}
      (hstack : s.stack = .call id :: rest) (hconnected : s.connected = true)
      (hstash : s.stash.lookup id = some outcome) :
      CallStep s { s with
        stash := s.stash.erase id, stack := rest, log := s.log ++ [.returned id outcome] }
  | reads {id : MsgId} {rest : List Activation} {outcome : Outcome} {frames : List Frame}
      (hstack : s.stack = .call id :: rest) (hconnected : s.connected = true)
      (hstash : s.stash.lookup id = none) (hinbox : s.inbox = .response id outcome :: frames) :
      CallStep s { s with
        inbox := frames, stack := rest
        log := s.log ++ [.read (.response id outcome), .returned id outcome] }
  | stashes {id other : MsgId} {rest : List Activation} {outcome : Outcome} {frames : List Frame}
      (hstack : s.stack = .call id :: rest) (hconnected : s.connected = true)
      (hstash : s.stash.lookup id = none) (hinbox : s.inbox = .response other outcome :: frames)
      (hother : other ≠ id) :
      CallStep s { s with
        inbox := frames, stash := s.stash.insert other outcome
        log := s.log ++ [.read (.response other outcome)] }
  | defers {id : MsgId} {rest : List Activation} {notification : Notification}
      {frames : List Frame} (hstack : s.stack = .call id :: rest) (hconnected : s.connected = true)
      (hstash : s.stash.lookup id = none) (hinbox : s.inbox = .notify notification :: frames) :
      CallStep s { s with
        inbox := frames, deferred := s.deferred ++ [notification]
        log := s.log ++ [.read (.notify notification)] }
  | serves {id nested : MsgId} {rest : List Activation} {method : String} {params : Json}
      {frames : List Frame} (hstack : s.stack = .call id :: rest) (hconnected : s.connected = true)
      (hstash : s.stash.lookup id = none)
      (hinbox : s.inbox = .request nested method params :: frames) :
      CallStep s { s with
        inbox := frames, stack := .request nested :: s.stack
        log := s.log ++ [.read (.request nested method params)] }
  | readFails {id : MsgId} {rest : List Activation} (hstack : s.stack = .call id :: rest)
      (hconnected : s.connected = true) (hstash : s.stash.lookup id = none) :
      CallStep s { s with connected := false, stack := rest }
  /-- The connection was lost in a handler above, and `call` throws. -/
  | disconnected {id : MsgId} {rest : List Activation} (hstack : s.stack = .call id :: rest)
      (hconnected : s.connected = false) :
      CallStep s { s with stack := rest }

inductive LoopStep (s : Host) : Host → Prop
  | requests {id : MsgId} {method : String} {params : Json} {frames : List Frame}
      (hstack : s.stack = []) (hloop : s.loop = .reads) (hconnected : s.connected = true)
      (hinbox : s.inbox = .request id method params :: frames) :
      LoopStep s { s with
        inbox := frames, stack := [.request id], loop := .drains
        log := s.log ++ [.read (.request id method params)] }
  | notifies {notification : Notification} {frames : List Frame}
      (hstack : s.stack = []) (hloop : s.loop = .reads) (hconnected : s.connected = true)
      (hinbox : s.inbox = .notify notification :: frames) :
      LoopStep s { s with
        inbox := frames, stack := [.notification], loop := .drains
        log := s.log ++ [.read (.notify notification), .dispatched notification] }
  | ignores {id : MsgId} {outcome : Outcome} {frames : List Frame}
      (hstack : s.stack = []) (hloop : s.loop = .reads) (hconnected : s.connected = true)
      (hinbox : s.inbox = .response id outcome :: frames) :
      LoopStep s { s with
        inbox := frames, loop := .drains, log := s.log ++ [.read (.response id outcome)] }
  | dispatches {notification : Notification} {rest : List Notification}
      (hstack : s.stack = []) (hloop : s.loop = .drains)
      (hbatch : s.batch = notification :: rest) :
      LoopStep s { s with
        batch := rest, stack := [.notification]
        log := s.log ++ [.dispatched notification] }
  | refills (hstack : s.stack = []) (hloop : s.loop = .drains) (hbatch : s.batch = [])
      (hdeferred : s.deferred ≠ []) :
      LoopStep s { s with batch := s.deferred, deferred := [] }
  | drained (hstack : s.stack = []) (hloop : s.loop = .drains) (hbatch : s.batch = [])
      (hdeferred : s.deferred = []) :
      LoopStep s { s with loop := .reads }
  | readFails (hstack : s.stack = []) (hloop : s.loop = .reads) (hconnected : s.connected = true) :
      LoopStep s { s with connected := false, loop := .ended }
  | leaves (hstack : s.stack = []) (hloop : s.loop = .reads) (hconnected : s.connected = false) :
      LoopStep s { s with loop := .ended }

inductive HostStep (s s' : Host) : Prop
  | parent (h : ParentStep s s')
  | handler (h : HandlerStep s s')
  | call (h : CallStep s s')
  | loop (h : LoopStep s s')

structure Exact (s : Host) : Prop where
  /-- Every response that was read went to one call, the one with its id, or is kept. -/
  responses : (s.log.filterMap Event.responseReturned ++ s.stash.entries).Perm
    (s.log.filterMap Event.responseRead)
  kept : s.connected = true → ∀ id ∈ s.stash, .call id ∈ s.stack
  /-- A call that has to wait waits for a response that was not sent. -/
  owed : s.connected = true → ∀ id rest, s.stack = .call id :: rest →
    s.stash.lookup id = none → s.inbox = [] → id ∈ s.outstanding
  /-- Every request that was read is answered once, under its own id, or still being served. -/
  requests : (s.log.filterMap Event.requestAnswered ++ requestIds s.stack).Perm
    (s.log.filterMap Event.requestRead)
  /-- Notifications are dispatched in the order in which they were read. -/
  notifications : s.log.filterMap Event.notificationDispatched ++ s.batch ++ s.deferred =
    s.log.filterMap Event.notificationRead
  done : s.loop = .reads → s.stack = [] ∧ s.batch = [] ∧ s.deferred = []

def NestedRpcExact (allowed : Host → Host → Prop) : Prop :=
  ∀ s, Reachable (Allowed HostStep allowed) (· = Host.start) s → Exact s

/-- A call does not take the id of a call that is still active. -/
def FreshId (s s' : Host) : Prop := s'.nextId ≠ s.nextId → s.nextId ∉ callIds s.stack

/-- Each active call is not answered, has its answer on the way, or has it stashed. -/
structure Balanced (s : Host) : Prop where
  ids : s.connected = true → ∀ id, s.outstanding.count id + (responseIds s.inbox).count id +
    s.stash.keys.count id = (callIds s.stack).count id
  nodup : (callIds s.stack).Nodup

section
variable {s s' : Host}

section
variable (hs : Balanced s)
include hs

lemma Balanced.parent_step (h : ParentStep s s') : Balanced s' := by
  refine ⟨fun hconn other => ?_, by cases h <;> exact hs.nodup⟩
  cases h with
  | responds id outcome hid =>
    have hids := hs.ids hconn other
    have hpos : 0 < s.outstanding.count id := count_pos_iff.mpr hid
    by_cases heq : id = other
    · subst heq
      simp
      omega
    · simpa [count_erase_of_ne (Ne.symm heq), count_singleton, heq] using hids
  | requests | notifies => simpa using hs.ids hconn other

lemma Balanced.handler_step (h : HandlerStep s s') (hf : FreshId s s') : Balanced s' := by
  obtain ⟨hids, hnodup⟩ := hs
  cases h with
  | calls hstack ha hconn =>
    have hfresh : s.nextId ∉ callIds s.stack := hf (by simp)
    refine ⟨fun _ other => ?_, by simpa using ⟨hfresh, hnodup⟩⟩
    have := hids hconn other
    simp only [callIds_call, count_cons]
    omega
  | callFails => exact ⟨fun h => by simp at h, hnodup⟩
  | responds hstack =>
    simp only [hstack, callIds_request] at hids hnodup
    exact ⟨hids, hnodup⟩
  | respondFails hstack =>
    simp only [hstack, callIds_request] at hnodup
    exact ⟨fun h => by simp at h, hnodup⟩
  | finishes hstack =>
    simp only [hstack, callIds_notification] at hids hnodup
    exact ⟨hids, hnodup⟩

lemma Balanced.of_inbox {id : MsgId} {outcome : Outcome} {frames : List Frame}
    (hconn : s.connected = true)
    (hinbox : s.inbox = .response id outcome :: frames) :
    id ∈ callIds s.stack ∧ id ∉ s.stash := by
  have hids := hs.ids hconn id
  have hone := nodup_iff_count_le_one.mp hs.nodup id
  rw [hinbox, responseIds_response, count_cons_self] at hids
  constructor
  · apply count_pos_iff.mp
    omega
  · intro hmem
    have hpos : 0 < s.stash.keys.count id := count_pos_iff.mpr hmem
    omega

lemma Balanced.call_step (h : CallStep s s') : Balanced s' := by
  have hids := hs.ids
  have hnodup := hs.nodup
  cases h with
  | @takesStashed id _ _ hstack hconn hstash =>
    simp only [hstack, callIds_call] at hids hnodup
    have hmem : id ∈ s.stash.keys := AList.lookup_isSome.mp (by simp [hstash])
    refine ⟨fun _ other => ?_, hnodup.of_cons⟩
    have hcount := hids hconn other
    have hpos : 0 < s.stash.keys.count id := count_pos_iff.mpr hmem
    simp only [AList.keys_erase, count_erase, count_cons] at hcount ⊢
    by_cases heq : id = other
    · subst heq
      simp only [BEq.rfl, if_true] at hcount ⊢
      omega
    · simpa [heq] using hcount
  | reads hstack hconn hstash hinbox =>
    simp only [hstack, callIds_call] at hids hnodup
    refine ⟨fun _ other => ?_, hnodup.of_cons⟩
    have hcount := hids hconn other
    simp only [hinbox, responseIds_response, count_cons] at hcount ⊢
    omega
  | stashes hstack hconn hstash hinbox =>
    refine ⟨fun _ other => ?_, hnodup⟩
    have hcount := hids hconn other
    have hmem := (hs.of_inbox hconn hinbox).2
    rw [AList.mem_keys] at hmem
    simp only [hinbox, responseIds_response, count_cons] at hcount
    simp only [AList.keys_insert, erase_of_not_mem hmem, count_cons]
    omega
  | defers hstack hconn hstash hinbox =>
    simp only [hinbox, responseIds_notify] at hids
    exact ⟨hids, hnodup⟩
  | serves hstack hconn hstash hinbox =>
    simp only [hinbox, responseIds_request] at hids
    exact ⟨hids, hnodup⟩
  | readFails hstack =>
    simp only [hstack, callIds_call] at hnodup
    exact ⟨fun h => by simp at h, hnodup.of_cons⟩
  | disconnected hstack hconn =>
    simp only [hstack, callIds_call] at hnodup
    exact ⟨fun h => by simp [hconn] at h, hnodup.of_cons⟩

/-- The loop reads when no call is active: no response is on its way then. -/
lemma Balanced.no_response {id : MsgId} {outcome : Outcome} {frames : List Frame}
    (hconn : s.connected = true) (hstack : s.stack = [])
    (hinbox : s.inbox = .response id outcome :: frames) : False := by
  have hmem := (hs.of_inbox hconn hinbox).1
  simp [hstack] at hmem

lemma Balanced.loop_step (h : LoopStep s s') : Balanced s' := by
  have hids := hs.ids
  cases h with
  | requests hstack hloop hconn hinbox =>
    simp only [hstack, hinbox, responseIds_request] at hids
    exact ⟨hids, nodup_nil⟩
  | notifies hstack hloop hconn hinbox =>
    simp only [hstack, hinbox, responseIds_notify] at hids
    exact ⟨hids, nodup_nil⟩
  | ignores hstack hloop hconn hinbox =>
    exact (hs.no_response hconn hstack hinbox).elim
  | dispatches hstack =>
    simp only [hstack] at hids
    exact ⟨hids, nodup_nil⟩
  | refills | drained | leaves => exact ⟨hids, hs.nodup⟩
  | readFails => exact ⟨fun h => by simp at h, hs.nodup⟩

end

end

section
variable {s s' : Host}

lemma perm_append_read {α : Type*} {x : α} {settled kept read : List α}
    (h : (settled ++ kept).Perm read) : (settled ++ x :: kept).Perm (read ++ [x]) := by
  calc List.Perm (settled ++ x :: kept) (x :: (settled ++ kept)) := perm_middle
    List.Perm _ (x :: read) := h.cons x
    List.Perm _ (read ++ [x]) := (perm_append_singleton x read).symm

section
variable {α β : Type*} {f g : β → Option α} {log events : List β} {kept : List α} {x : α}

lemma perm_other (hf : events.filterMap f = []) (hg : events.filterMap g = [])
    (h : (log.filterMap f ++ kept).Perm (log.filterMap g)) :
    ((log ++ events).filterMap f ++ kept).Perm ((log ++ events).filterMap g) := by
  rw [filterMap_append, filterMap_append, hf, hg, append_nil, append_nil]
  exact h

lemma perm_settled (hf : events.filterMap f = [x]) (hg : events.filterMap g = [])
    (h : (log.filterMap f ++ x :: kept).Perm (log.filterMap g)) :
    ((log ++ events).filterMap f ++ kept).Perm ((log ++ events).filterMap g) := by
  rw [filterMap_append, filterMap_append, hf, hg, append_nil, append_assoc]
  exact h

lemma perm_read (hf : events.filterMap f = []) (hg : events.filterMap g = [x])
    (h : (log.filterMap f ++ kept).Perm (log.filterMap g)) :
    ((log ++ events).filterMap f ++ x :: kept).Perm ((log ++ events).filterMap g) := by
  rw [filterMap_append, filterMap_append, hf, hg, append_nil]
  exact perm_append_read h

lemma perm_read_settled (hf : events.filterMap f = [x]) (hg : events.filterMap g = [x])
    (h : (log.filterMap f ++ kept).Perm (log.filterMap g)) :
    ((log ++ events).filterMap f ++ kept).Perm ((log ++ events).filterMap g) := by
  rw [filterMap_append, filterMap_append, hf, hg, append_assoc]
  exact perm_append_read h

end

lemma responses_step (hb : Balanced s) (h : HostStep s s')
    (hs : (s.log.filterMap Event.responseReturned ++ s.stash.entries).Perm
      (s.log.filterMap Event.responseRead)) :
    (s'.log.filterMap Event.responseReturned ++ s'.stash.entries).Perm
      (s'.log.filterMap Event.responseRead) := by
  cases h with
  | parent h => cases h <;> exact hs
  | handler h =>
    cases h with
    | calls | callFails | finishes => exact hs
    | responds | respondFails => exact perm_other rfl rfl hs
  | call h =>
    cases h with
    | takesStashed hstack hconn hstash =>
      exact perm_settled rfl rfl
        (((PendingMap.perm_erase_of_lookup hstash).symm.append_left _).trans hs)
    | reads => exact perm_read_settled rfl rfl hs
    | stashes hstack hconn hstash hinbox =>
      have hmem := (hb.of_inbox hconn hinbox).2
      rw [AList.entries_insert_of_notMem hmem]
      exact perm_read rfl rfl hs
    | defers | serves => exact perm_other rfl rfl hs
    | readFails | disconnected => exact hs
  | loop h =>
    cases h with
    | ignores hstack hloop hconn hinbox =>
      exact (hb.no_response hconn hstack hinbox).elim
    | requests | notifies | dispatches => exact perm_other rfl rfl hs
    | refills | drained | readFails | leaves => exact hs

lemma requests_step (h : HostStep s s')
    (hs : (s.log.filterMap Event.requestAnswered ++ requestIds s.stack).Perm
      (s.log.filterMap Event.requestRead)) :
    (s'.log.filterMap Event.requestAnswered ++ requestIds s'.stack).Perm
      (s'.log.filterMap Event.requestRead) := by
  cases h with
  | parent h => cases h <;> exact hs
  | handler h =>
    cases h with
    | calls | callFails => exact hs
    | responds hstack | respondFails hstack =>
      rw [hstack] at hs
      exact perm_settled rfl rfl hs
    | finishes hstack =>
      rw [hstack] at hs
      exact hs
  | call h =>
    cases h with
    | serves => exact perm_read rfl rfl hs
    | takesStashed hstack | reads hstack =>
      rw [hstack] at hs
      exact perm_other rfl rfl hs
    | readFails hstack | disconnected hstack =>
      rw [hstack] at hs
      exact hs
    | stashes | defers => exact perm_other rfl rfl hs
  | loop h =>
    cases h with
    | requests hstack =>
      rw [hstack] at hs
      exact perm_read rfl rfl hs
    | notifies hstack | dispatches hstack =>
      rw [hstack] at hs
      exact perm_other rfl rfl hs
    | ignores => exact perm_other rfl rfl hs
    | refills | drained | readFails | leaves => exact hs

lemma not_reads {a : Activation} {rest : List Activation}
    (hs : s.loop = .reads → s.stack = [] ∧ s.batch = [] ∧ s.deferred = [])
    (hstack : s.stack = a :: rest) : s.loop ≠ .reads := by
  intro hloop
  have hempty := (hs hloop).1
  rw [hstack] at hempty
  cases hempty

lemma done_step (h : HostStep s s')
    (hs : s.loop = .reads → s.stack = [] ∧ s.batch = [] ∧ s.deferred = []) :
    s'.loop = .reads → s'.stack = [] ∧ s'.batch = [] ∧ s'.deferred = [] := by
  cases h with
  | parent h => cases h <;> exact hs
  | handler h =>
    cases h with
    | calls hstack | callFails hstack | responds hstack | respondFails hstack
    | finishes hstack => exact fun hloop => (not_reads hs hstack hloop).elim
  | call h =>
    cases h with
    | takesStashed hstack | reads hstack | stashes hstack | defers hstack | serves hstack
    | readFails hstack | disconnected hstack =>
      exact fun hloop => (not_reads hs hstack hloop).elim
  | loop h =>
    cases h with
    | requests | notifies | ignores | readFails | leaves => exact fun hloop => by cases hloop
    | dispatches hstack hdrains | refills hstack hdrains =>
      exact fun hloop => by cases hdrains.symm.trans hloop
    | drained hstack hdrains hbatch hdef => exact fun _ => ⟨hstack, hbatch, hdef⟩

lemma notifications_other {log events : List Event} {waiting : List Notification}
    (hdispatched : events.filterMap Event.notificationDispatched = [])
    (hread : events.filterMap Event.notificationRead = [])
    (h : log.filterMap Event.notificationDispatched ++ waiting =
    log.filterMap Event.notificationRead) :
    (log ++ events).filterMap Event.notificationDispatched ++ waiting =
    (log ++ events).filterMap Event.notificationRead := by
  rw [filterMap_append, filterMap_append, hdispatched, hread, append_nil, append_nil]
  exact h

lemma notifications_step (h : HostStep s s')
    (hdone : s.loop = .reads → s.stack = [] ∧ s.batch = [] ∧ s.deferred = [])
    (hs : s.log.filterMap Event.notificationDispatched ++ s.batch ++ s.deferred =
    s.log.filterMap Event.notificationRead) :
    s'.log.filterMap Event.notificationDispatched ++ s'.batch ++ s'.deferred =
    s'.log.filterMap Event.notificationRead := by
  rw [append_assoc] at hs ⊢
  cases h with
  | parent h => cases h <;> exact hs
  | handler h =>
    cases h with
    | calls | callFails | finishes => exact hs
    | responds | respondFails => exact notifications_other rfl rfl hs
  | call h =>
    cases h with
    | defers =>
      rw [filterMap_append, filterMap_append, ← hs]
      simp only [append_assoc]
      rfl
    | takesStashed | reads | stashes | serves => exact notifications_other rfl rfl hs
    | readFails | disconnected => exact hs
  | loop h =>
    cases h with
    | notifies hstack hloop =>
      obtain ⟨_, hbatch, hdef⟩ := hdone hloop
      rw [hbatch, hdef] at hs ⊢
      rw [filterMap_append, filterMap_append, ← hs]
      simp only [append_assoc]
      rfl
    | dispatches hstack hloop hbatch =>
      rw [hbatch] at hs
      rw [filterMap_append, filterMap_append, ← hs, append_assoc]
      exact (append_nil _).symm
    | refills hstack hloop hbatch =>
      rw [hbatch] at hs
      rw [append_nil]
      exact hs
    | requests | ignores => exact notifications_other rfl rfl hs
    | drained | readFails | leaves => exact hs

end

section
variable {s s' : Host}

lemma Exact.start : Exact Host.start := by
  refine ⟨List.Perm.nil, ?_, ?_, List.Perm.nil, rfl, fun _ => ⟨rfl, rfl, rfl⟩⟩
  all_goals simp [Host.start]

/-- What is kept, and what a call waits for, follows from the balance. -/
lemma Exact.step (hb : Balanced s) (hb' : Balanced s') (hs : Exact s) (h : HostStep s s') :
    Exact s' := by
  refine ⟨responses_step hb h hs.responses, ?_, ?_, requests_step h hs.requests,
    notifications_step h hs.done hs.notifications, done_step h hs.done⟩
  · intro hconn id hid
    have hpos : 0 < s'.stash.keys.count id := count_pos_iff.mpr hid
    have hids := hb'.ids hconn id
    exact (mem_callIds id s'.stack).mp (count_pos_iff.mp (by omega))
  · intro hconn id rest hstack hstash hinbox
    have hids := hb'.ids hconn id
    have hnone : s'.stash.keys.count id = 0 :=
      count_eq_zero.mpr (AList.lookup_eq_none.mp hstash)
    rw [hstack, hinbox, hnone, callIds_call, count_cons_self, responseIds_nil, count_nil] at hids
    exact count_pos_iff.mp (by omega)

lemma Balanced.step (hs : Balanced s) (h : HostStep s s') (hf : FreshId s s') : Balanced s' := by
  cases h with
  | parent h => exact hs.parent_step h
  | handler h => exact hs.handler_step h hf
  | call h => exact hs.call_step h
  | loop h => exact hs.loop_step h

end

/-- Nested calls are exact as long as ids of active calls are not used again. -/
theorem nested_rpc_exact_of_fresh : NestedRpcExact FreshId := by
  intro s hs
  have hboth : Balanced s ∧ Exact s := by
    apply hs.invariant (fun s => Balanced s ∧ Exact s)
    · intro s hstart
      subst hstart
      exact ⟨⟨fun _ _ => rfl, nodup_nil⟩, Exact.start⟩
    · intro s s' ih hstep
      have hb' := ih.1.step hstep.step hstep.allowed
      exact ⟨hb', ih.2.step ih.1 hb' hstep.step⟩
  exact hboth.2

def Host.serving (nextId : MsgId) (stack : List Activation) (outstanding : List MsgId)
    (log : List Event) : Host :=
  ⟨true, nextId, ∅, [], [], stack, .drains, [], outstanding, log⟩

def Settled (log : List Event) : Prop :=
  (log.filterMap Event.responseReturned).length = (log.filterMap Event.responseRead).length

section
variable (nextId id : MsgId) (stack : List Activation) (outstanding : List MsgId)

lemma serving_round (log : List Event) : ReflTransGen (Allowed HostStep fun _ _ => True)
      (.serving nextId (.request id :: stack) outstanding log)
      (.serving (nextId + 1) (.request id :: stack) outstanding
        (log ++ [.read (.response nextId (.ok .null)), .returned nextId (.ok .null)])) := by
  have hcalls : ReflTransGen (Allowed HostStep fun _ _ => True)
      (.serving nextId (.request id :: stack) outstanding log) _ :=
    ReflTransGen.single ⟨.handler (.calls rfl rfl rfl), trivial⟩
  have hresponds := hcalls.tail
    ⟨.parent (.responds nextId (.ok .null) mem_cons_self), trivial⟩
  have hreads := hresponds.tail ⟨.call (.reads rfl rfl rfl rfl), trivial⟩
  simpa [Host.serving] using hreads

lemma serving_rounds (log : List Event) (hlog : Settled log) (n : Nat) :
    ∃ log', Settled log' ∧ ReflTransGen (Allowed HostStep fun _ _ => True)
      (.serving nextId (.request id :: stack) outstanding log)
      (.serving (nextId + BitVec.ofNat 32 n) (.request id :: stack) outstanding log') := by
  induction n with
  | zero => exact ⟨log, hlog, by simpa using ReflTransGen.refl⟩
  | succ n ih =>
    obtain ⟨log', hlog', hrun⟩ := ih
    have hround := serving_round (nextId + BitVec.ofNat 32 n) id stack outstanding log'
    have hnext : BitVec.ofNat 32 n + 1 = BitVec.ofNat 32 (n + 1) := (BitVec.ofNat_add ..).symm
    rw [BitVec.add_assoc, hnext] at hround
    refine ⟨_, ?_, hrun.trans hround⟩
    simpa [Settled, filterMap_cons] using hlog'

end

/-- While call 1 waits, a nested handler makes 2^32 - 1 calls and one more, which has id 1 again;
a third handler's call then reads responses to both, and the second overwrites the first. -/
theorem reused_id_loses_response : ¬ NestedRpcExact (fun _ _ => True) := by
  intro hexact
  have hstart : Reachable (Allowed HostStep fun _ _ => True) (· = Host.start) Host.start :=
    .init rfl
  -- Request 7, call 1, and request 8 on top of it.
  have hfirst := ((hstart.tail ⟨.parent (.requests 7 "f" .null), trivial⟩).tail
    ⟨.loop (.requests rfl rfl rfl rfl), trivial⟩).tail ⟨.handler (.calls rfl rfl rfl), trivial⟩
  have hserving := (hfirst.tail ⟨.parent (.requests 8 "g" .null), trivial⟩).tail
    ⟨.call (.serves rfl rfl rfl rfl), trivial⟩
  obtain ⟨log, hlog, hrounds⟩ := serving_rounds 2 8 [.call 1, .request 7] [1]
    [.read (.request 7 "f" .null), .read (.request 8 "g" .null)] rfl (2 ^ 32 - 1)
  have hover : (2 : MsgId) + BitVec.ofNat 32 (2 ^ 32 - 1) = 1 := by decide
  rw [hover] at hrounds
  -- A second call 1, request 9, and call 2.
  have hsecond := (hserving.steps hrounds).tail ⟨.handler (.calls rfl rfl rfl), trivial⟩
  have hthird := ((hsecond.tail ⟨.parent (.requests 9 "h" .null), trivial⟩).tail
    ⟨.call (.serves rfl rfl rfl rfl), trivial⟩).tail ⟨.handler (.calls rfl rfl rfl), trivial⟩
  have hmem : (1 : MsgId) ∈ [2, 1, 1] ∧ (1 : MsgId) ∈ List.erase [2, 1, 1] 1 := by decide
  have hresponses := (hthird.tail ⟨.parent (.responds 1 (.ok .null) hmem.1), trivial⟩).tail
    ⟨.parent (.responds 1 (.error "e") hmem.2), trivial⟩
  have hne : (1 : MsgId) ≠ 2 := by decide
  have hstashed := (hresponses.tail ⟨.call (.stashes rfl rfl rfl rfl hne), trivial⟩).tail
    ⟨.call (.stashes rfl rfl rfl rfl hne), trivial⟩
  have hlength := (hexact _ hstashed).responses.length_eq
  simp [Host.serving, filterMap_cons] at hlength
  unfold Settled at hlog
  omega

end Millennium.LuaHost
