import Mathlib.Data.List.Nodup
import Millennium.Lib.Json

/-!
# The reader thread of a plugin process

`PluginProcess::reader_thread_fn` matches responses with `m_pending` and hands requests and
notifications to the handler. The accessors for the fields throw when the type is wrong, and only
the calls of the handler stand in a `try` block.
-/

namespace Millennium.Engine

open Bytes List Prod Json

def typeRequest : Octets := ascii "req"
def typeResponse : Octets := ascii "res"
def typeNotify : Octets := ascii "notify"

inductive Resolution where
  | value (result : Json)
  | exception (what : Octets)

inductive ReaderException where
  | typeError (e : TypeError)
  | alreadySatisfied
  deriving Repr, DecidableEq

/-- What the reader thread sees of a `PluginProcess`. Promises are numbered; those in `m_pending`
are open. -/
structure ReaderState where
  running : Bool
  pending : List (Int × Nat)
  resolved : List (Nat × Resolution)
  sent : List Json
  handled : List (Octets × Json)
  ids_nodup : (pending.map fst).Nodup
  promises_nodup : (pending.map snd).Nodup
  unresolved : ∀ p ∈ pending.map snd, p ∉ resolved.map fst

namespace ReaderState

def erase (s : ReaderState) (id : Int) : ReaderState :=
  { s with
    pending := s.pending.filter fun e => e.1 ≠ id
    ids_nodup := s.ids_nodup.sublist (filter_sublist.map _)
    promises_nodup := s.promises_nodup.sublist (filter_sublist.map _)
    unresolved := fun p hp => s.unresolved p ((filter_sublist.map _).subset hp) }

/-- `set_value` and `set_exception` of a promise that was taken out of `m_pending`. -/
def resolve (s : ReaderState) (p : Nat) (r : Resolution) (hp : p ∉ s.pending.map snd) :
    Except ReaderException ReaderState :=
  if p ∈ s.resolved.map fst then .error .alreadySatisfied
  else .ok { s with
    resolved := s.resolved ++ [(p, r)]
    unresolved := by
      intro p' hp' hmem
      rw [map_append, mem_append] at hmem
      rcases hmem with hmem | hmem
      · exact s.unresolved p' hp' hmem
      · have heq : p' = p := by simpa using hmem
        exact hp (heq ▸ hp') }

def sendFrame (s : ReaderState) (msg : Json) : ReaderState := { s with sent := s.sent ++ [msg] }

def callHandler (s : ReaderState) (method : Octets) (params : Json) : ReaderState :=
  { s with handled := s.handled ++ [(method, params)] }

lemma promise_not_mem_erase {s : ReaderState} {id : Int} {p : Nat}
    (h : s.pending.lookup id = some p) : p ∉ (s.erase id).pending.map snd := by
  intro hp
  obtain ⟨⟨id', p'⟩, hmem, rfl⟩ := mem_map.mp hp
  obtain ⟨hmem, hne⟩ := mem_filter.mp hmem
  have heq := inj_on_of_nodup_map s.promises_nodup hmem (mem_of_lookup_eq_some h) rfl
  cases heq
  simp at hne

end ReaderState

/-- How a turn ends: the state and whether the loop goes on, or what is thrown. -/
structure Turn where
  state : ReaderState
  result : Except ReaderException Bool

def Turn.read {α : Type} (s : ReaderState) (x : Except TypeError α) (rest : α → Turn) : Turn :=
  match x with
  | .ok a => rest a
  | .error e => ⟨s, .error (.typeError e)⟩

def Turn.afterResolve (s : ReaderState) (x : Except ReaderException ReaderState) : Turn :=
  match x with
  | .ok s' => ⟨s', .ok true⟩
  | .error e => ⟨s, .error e⟩

/-- What a handler returns, or the text of the `std::exception` it throws. -/
abbrev RequestHandler := Octets → Json → Except Octets Json

section
variable (truncate : UInt64 → Int) (handler : Option RequestHandler)

def fieldOf (msg : Json) (key : Octets) : Json :=
  match msg with
  | .object fields => (fields.lookup key).getD .null
  | _ => .null

def deliver (s : ReaderState) (p : Nat) (hp : p ∉ s.pending.map snd) (msg : Json) : Turn :=
  if msg.contains (ascii "error") then
    Turn.read s (fieldOf msg (ascii "error")).getString fun what =>
      Turn.afterResolve s (s.resolve p (.exception what) hp)
  else
    Turn.read s (msg.valueJson (ascii "result") .null) fun result =>
      Turn.afterResolve s (s.resolve p (.value result) hp)

/-- The branch of a response. The entry is erased before the message is looked at further. -/
def responseTurn (s : ReaderState) (msg : Json) : Turn :=
  Turn.read s (msg.value (getInt truncate) (ascii "id") (-1)) fun id =>
    match h : s.pending.lookup id with
    | none => ⟨s, .ok true⟩
    | some p => deliver (s.erase id) p (ReaderState.promise_not_mem_erase h) msg

def responseFrame (id : Int) (answer : Except Octets Json) : Json :=
  match answer with
  | .ok result => .object
      [(ascii "type", .string typeResponse), (ascii "id", .integer id), (ascii "result", result)]
  | .error what => .object
      [(ascii "type", .string typeResponse), (ascii "id", .integer id),
        (ascii "error", .string what)]

/-- The branch of a request. What the handler throws becomes the answer. -/
def requestTurn (s : ReaderState) (msg : Json) : Turn :=
  Turn.read s (msg.value (getInt truncate) (ascii "id") (-1)) fun id =>
    Turn.read s (msg.value getString (ascii "method") []) fun method =>
      Turn.read s (msg.valueJson (ascii "params") (.object [])) fun params =>
        match handler with
        | none => ⟨s.sendFrame (responseFrame id (.error (ascii "no handler registered"))), .ok true⟩
        | some call =>
          ⟨(s.callHandler method params).sendFrame (responseFrame id (call method params)), .ok true⟩

/-- The branch of a notification. What its handler throws is logged. -/
def notifyTurn (s : ReaderState) (msg : Json) : Turn :=
  Turn.read s (msg.value getString (ascii "method") []) fun method =>
    Turn.read s (msg.valueJson (ascii "params") .null) fun params =>
      match handler with
      | none => ⟨s, .ok true⟩
      | some _ => ⟨s.callHandler method params, .ok true⟩

def messageTurn (s : ReaderState) (msg : Json) : Turn :=
  Turn.read s (msg.value getString (ascii "type") []) fun type =>
    if type = typeResponse then responseTurn truncate s msg
    else if type = typeRequest then requestTurn truncate handler s msg
    else if type = typeNotify then notifyTurn handler s msg
    else ⟨s, .ok true⟩

/-- One turn of the loop on a frame. A value that `read_msg` does not accept ends the loop. -/
def readerTurn (s : ReaderState) (frame : MsgPack) : Turn :=
  match fromMsgpack frame with
  | none => ⟨{ s with running := false }, .ok false⟩
  | some msg => messageTurn truncate handler s msg

end

/-- Nothing is thrown, and every entry that is gone from `m_pending` was resolved. -/
structure Turn.Safe (before : ReaderState) (t : Turn) : Prop where
  returns : ∃ goesOn, t.result = .ok goesOn
  fulfils : ∀ e ∈ before.pending, e ∉ t.state.pending → e.2 ∈ t.state.resolved.map fst

def HasType (msg : Json) (type : Octets) : Prop :=
  msg.value getString (ascii "type") [] = .ok type

/-- The fields that are read for the message's type have the types they are read with. -/
structure Handles (truncate : UInt64 → Int) (s : ReaderState) (msg : Json) : Prop where
  type : msg.FieldIs Json.IsString (ascii "type")
  response : HasType msg typeResponse → msg.FieldIs Json.IsNumeric (ascii "id") ∧
    ∀ id ∈ s.pending.map fst,
      msg.value (getInt truncate) (ascii "id") (-1) = .ok id →
        msg.FieldIs Json.IsString (ascii "error")
  request : HasType msg typeRequest →
    msg.FieldIs Json.IsNumeric (ascii "id") ∧ msg.FieldIs Json.IsString (ascii "method")
  notify : HasType msg typeNotify → msg.FieldIs Json.IsString (ascii "method")

section
variable {truncate : UInt64 → Int} {handler : Option RequestHandler} {before s : ReaderState}
  {msg : Json}

lemma safe_of_pending_eq {b : Bool} (h : s.pending = before.pending) :
    Turn.Safe before ⟨s, .ok b⟩ :=
  ⟨⟨b, rfl⟩, fun _ he hgone => absurd (h ▸ he) hgone⟩

lemma safe_read_iff {α : Type} {x : Except TypeError α} {rest : α → Turn} :
    Turn.Safe before (Turn.read s x rest) ↔ ∃ a, x = .ok a ∧ Turn.Safe before (rest a) := by
  cases x with
  | ok a =>
    constructor
    · intro h
      exact ⟨a, rfl, h⟩
    · rintro ⟨a', ha', h⟩
      cases ha'
      exact h
  | error =>
    constructor
    · intro h
      obtain ⟨b, hb⟩ := h.returns
      cases hb
    · rintro ⟨a, ha, -⟩
      cases ha

variable {id : Int} {p : Nat} {fields : List (Octets × Json)}

lemma eq_of_not_mem_erase {e : Int × Nat} (h : s.pending.lookup id = some p) (he : e ∈ s.pending)
    (hgone : e ∉ (s.erase id).pending) :
    e.2 = p := by
  have hid : e.1 = id := by
    by_contra hne
    exact hgone (mem_filter.mpr ⟨he, by simpa using hne⟩)
  rw [inj_on_of_nodup_map s.ids_nodup he (mem_of_lookup_eq_some h) hid]

lemma safe_afterResolve (h : s.pending.lookup id = some p) (r : Resolution) :
    Turn.Safe s (Turn.afterResolve (s.erase id)
      ((s.erase id).resolve p r (ReaderState.promise_not_mem_erase h))) := by
  have hnew : p ∉ (s.erase id).resolved.map fst :=
    s.unresolved p (mem_map_of_mem (mem_of_lookup_eq_some h))
  rw [ReaderState.resolve, if_neg hnew]
  refine ⟨⟨true, rfl⟩, fun e he hgone => ?_⟩
  rw [eq_of_not_mem_erase h he hgone]
  simp [Turn.afterResolve]

lemma contains_object {key : Octets} :
    (object fields).contains key = (fields.lookup key).isSome := rfl

lemma fieldOf_object {key : Octets} :
    fieldOf (.object fields) key = (fields.lookup key).getD .null := rfl

lemma error_fieldIs_iff : (object fields).FieldIs Json.IsString (ascii "error") ↔
    ((object fields).contains (ascii "error") = true →
    ∃ what, (fieldOf (.object fields) (ascii "error")).getString = .ok what) := by
  rw [contains_object, fieldOf_object, getString_isOk_iff]
  constructor
  · intro hfield hcontains
    obtain ⟨fields', heq, hstring⟩ := hfield
    cases heq
    obtain ⟨field, hlookup⟩ := Option.isSome_iff_exists.mp hcontains
    rw [hlookup]
    exact hstring field hlookup
  · intro h
    refine ⟨fields, rfl, fun field hlookup => ?_⟩
    rw [hlookup] at h
    exact h rfl

lemma safe_deliver_iff (h : s.pending.lookup id = some p) :
    Turn.Safe s (deliver (s.erase id) p (ReaderState.promise_not_mem_erase h) (.object fields)) ↔
    (object fields).FieldIs Json.IsString (ascii "error") := by
  rw [deliver, error_fieldIs_iff]
  split_ifs with hcontains
  · rw [safe_read_iff]
    constructor
    · rintro ⟨what, hwhat, -⟩ -
      exact ⟨what, hwhat⟩
    · intro herror
      obtain ⟨what, hwhat⟩ := herror hcontains
      exact ⟨what, hwhat, safe_afterResolve h (.exception what)⟩
  · apply iff_of_true
    · obtain ⟨result, hresult⟩ := @valueJson_isOk (ascii "result") fields .null
      rw [safe_read_iff]
      exact ⟨result, hresult, safe_afterResolve h (.value result)⟩
    · intro h
      exact absurd h hcontains

lemma safe_responseTurn_iff (hmsg : msg = .object fields) :
    Turn.Safe s (responseTurn truncate s msg) ↔ msg.FieldIs Json.IsNumeric (ascii "id") ∧
    ∀ id ∈ s.pending.map fst,
    msg.value (getInt truncate) (ascii "id") (-1) = .ok id →
    msg.FieldIs Json.IsString (ascii "error") := by
  subst hmsg
  rw [responseTurn, safe_read_iff, ← valueInt_isOk_iff]
  constructor
  · rintro ⟨id, hid, hsafe⟩
    refine ⟨⟨id, hid⟩, fun id' hmem hid' => ?_⟩
    obtain rfl := Except.ok.inj (hid.symm.trans hid')
    split at hsafe
    · rename_i hnone
      exact absurd hmem (not_mem_of_lookup_eq_none hnone)
    · rename_i p hp
      exact (safe_deliver_iff hp).mp hsafe
  · rintro ⟨⟨id, hid⟩, herror⟩
    refine ⟨id, hid, ?_⟩
    split
    · exact safe_of_pending_eq rfl
    · rename_i p hp
      have hmem : id ∈ s.pending.map fst := mem_map_of_mem (mem_of_lookup_eq_some hp)
      exact (safe_deliver_iff hp).mpr (herror id hmem hid)

lemma safe_requestTurn_iff (hmsg : msg = .object fields) :
    Turn.Safe s (requestTurn truncate handler s msg) ↔
    msg.FieldIs Json.IsNumeric (ascii "id") ∧ msg.FieldIs Json.IsString (ascii "method") := by
  subst hmsg
  rw [requestTurn, safe_read_iff, ← valueInt_isOk_iff, ← valueString_isOk_iff]
  constructor
  · rintro ⟨id, hid, hsafe⟩
    obtain ⟨method, hmethod, -⟩ := safe_read_iff.mp hsafe
    exact ⟨⟨id, hid⟩, method, hmethod⟩
  · rintro ⟨⟨id, hid⟩, method, hmethod⟩
    obtain ⟨params, hparams⟩ := @valueJson_isOk (ascii "params") fields (.object [])
    refine ⟨id, hid, safe_read_iff.mpr ⟨method, hmethod, safe_read_iff.mpr ⟨params, hparams, ?_⟩⟩⟩
    cases handler with
    | none | some => exact safe_of_pending_eq rfl

lemma safe_notifyTurn_iff (hmsg : msg = .object fields) :
    Turn.Safe s (notifyTurn handler s msg) ↔ msg.FieldIs Json.IsString (ascii "method") := by
  subst hmsg
  rw [notifyTurn, safe_read_iff, ← valueString_isOk_iff]
  constructor
  · rintro ⟨method, hmethod, -⟩
    exact ⟨method, hmethod⟩
  · rintro ⟨method, hmethod⟩
    obtain ⟨params, hparams⟩ := @valueJson_isOk (ascii "params") fields .null
    refine ⟨method, hmethod, safe_read_iff.mpr ⟨params, hparams, ?_⟩⟩
    cases handler with
    | none | some => exact safe_of_pending_eq rfl

lemma safe_messageTurn_iff :
    Turn.Safe s (messageTurn truncate handler s msg) ↔ Handles truncate s msg := by
  rw [messageTurn, safe_read_iff]
  constructor
  · rintro ⟨type, htype, hsafe⟩
    have hfield := valueString_isOk_iff.mp ⟨type, htype⟩
    obtain ⟨fields, hmsg⟩ := hfield.isObject
    refine ⟨hfield, fun h => ?_, fun h => ?_, fun h => ?_⟩
    · obtain rfl := Except.ok.inj (htype.symm.trans h)
      exact (safe_responseTurn_iff hmsg).mp hsafe
    · obtain rfl := Except.ok.inj (htype.symm.trans h)
      exact (safe_requestTurn_iff hmsg).mp hsafe
    · obtain rfl := Except.ok.inj (htype.symm.trans h)
      exact (safe_notifyTurn_iff hmsg).mp hsafe
  · intro h
    obtain ⟨type, htype⟩ := valueString_isOk_iff.mpr h.type
    obtain ⟨fields, hmsg⟩ := h.type.isObject
    refine ⟨type, htype, ?_⟩
    split_ifs with hresponse hrequest hnotify
    · subst hresponse
      exact (safe_responseTurn_iff hmsg).mpr (h.response htype)
    · subst hrequest
      exact (safe_requestTurn_iff hmsg).mpr (h.request htype)
    · subst hnotify
      exact (safe_notifyTurn_iff hmsg).mpr (h.notify htype)
    · exact safe_of_pending_eq rfl

end

/-- A turn of the reader thread is safe exactly when the MessagePack value is discarded, or
is a message whose fields have the types they are read with. -/
theorem reader_turn_safe_iff (truncate : UInt64 → Int) (handler : Option RequestHandler)
    (s : ReaderState) (frame : MsgPack) :
    Turn.Safe s (readerTurn truncate handler s frame) ↔
      ∀ msg, fromMsgpack frame = some msg → Handles truncate s msg := by
  unfold readerTurn
  cases hframe : fromMsgpack frame with
  | none =>
    apply iff_of_true
    · exact safe_of_pending_eq rfl
    · intro msg hmsg
      cases hmsg
  | some msg =>
    rw [safe_messageTurn_iff]
    constructor
    · intro h msg' hmsg'
      cases hmsg'
      exact h
    · intro h
      exact h msg rfl

def oneCallWaiting : ReaderState where
  running := true
  pending := [(1, 0)]
  resolved := []
  sent := []
  handled := []
  ids_nodup := by decide
  promises_nodup := by decide
  unresolved := by decide

/-- An error that is no text is thrown out of the thread, when the call that waited for it is
gone from `m_pending` already. -/
theorem numberAsError_not_safe :
    ¬ Turn.Safe oneCallWaiting (readerTurn (fun _ => 0) none oneCallWaiting
      (.map [(.str (ascii "type"), .str (ascii "res")), (.str (ascii "id"), .uint 1),
        (.str (ascii "error"), .uint 5)])) := by
  intro h
  obtain ⟨goesOn, hresult⟩ := h.returns
  cases hresult

end Millennium.Engine
