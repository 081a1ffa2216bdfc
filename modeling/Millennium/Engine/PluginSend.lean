import Millennium.Engine.PluginIpc

/-!
# Sending to the processes of plugins

`PluginProcess::send_frame` gives up at the first `send` that fails. What was sent of the frame
remains in the stream, and the next frame follows it.
-/

namespace Millennium.Engine.PluginSend

open Bytes List Message

inductive SendOutcome where
  | sent (more : Nat)
  | interrupted
  | error
  deriving Repr, DecidableEq

structure Sent where
  ok : Bool
  wire : Octets
  calls : Nat
  deriving Repr, DecidableEq

section
variable (outcomes : Nat → SendOutcome)

/-- `send_all`. A call that is interrupted is not repeated. -/
def sendAll (buf : Octets) (calls : Nat) : Sent :=
  if _h : buf = [] then ⟨true, [], calls⟩
  else
    match outcomes calls with
    | .sent more =>
      let s := min (more + 1) buf.length
      let rest := sendAll (buf.drop s) (calls + 1)
      { rest with wire := buf.take s ++ rest.wire }
    | .interrupted | .error => ⟨false, [], calls + 1⟩
termination_by buf.length
decreasing_by
  have hpos := length_pos_iff.mpr _h
  simp only [length_drop]
  omega

def sendFramed (payload : Octets) (calls : Nat) : Sent :=
  let header := sendAll outcomes (leBytes 4 (payload.length % 2 ^ 32)) calls
  if header.ok then
    let body := sendAll outcomes payload header.calls
    { body with wire := header.wire ++ body.wire }
  else header

def sendFrame (msg : Json) (calls : Nat) : Sent := sendFramed outcomes msg.encode calls

/-- What the messages that are given to `send_frame` one after another leave in the stream. -/
def wire : List Json → Nat → Octets
  | [], _ => []
  | msg :: rest, calls =>
    let sent := sendFrame outcomes msg calls
    sent.wire ++ wire rest sent.calls

end

/-- The messages that the child reads, each with the octets of its frame. -/
inductive Decodes (splits : Nat → Nat) : Stream → List (Octets × Json) → Prop
  | none {s : Stream} : Decodes splits s []
  | one {s s' : Stream} {buf : Octets} {msg : Json} {rest : List (Octets × Json)}
      (hframe : readFrame splits s = some (buf, s'))
      (hmsg : (readAll buf).bind fromMsgpack = some msg)
      (hrest : Decodes splits s' rest) : Decodes splits s ((buf, msg) :: rest)

/-- What `notify_child` sends; an object has its fields in the order of their names. -/
def notification (method : Octets) (params : Json) : Json :=
  .object [(ascii "method", .string method), (ascii "params", params),
    (ascii "type", .string (ascii "notify"))]

def asRead (msg : Message) : Octets × Json := (msg.json.encode, msg.json.canonical)

/-- What the child decodes are some of the messages, in order and each out of its own octets. -/
def FramesIntact (outcomes : Nat → SendOutcome) (msgs : List Message) : Prop :=
  ∀ splits decoded, Decodes splits ⟨wire outcomes (msgs.map json) 0, 0⟩ decoded →
    decoded.Sublist (msgs.map asRead)

/-- A frame that is sent in part is the last thing that is sent. -/
def FailsClean (outcomes : Nat → SendOutcome) : List Json → Nat → Prop
  | [], _ => True
  | msg :: rest, calls =>
    let sent := sendFrame outcomes msg calls
    (sent.ok = true ∨ sent.wire = [] ∨ wire outcomes rest sent.calls = []) ∧
      FailsClean outcomes rest sent.calls

def Sends (sent : Sent) (buf : Octets) : Prop :=
  (sent.ok = true ∧ sent.wire = buf) ∨
    (sent.ok = false ∧ sent.wire <+: buf ∧ sent.wire.length < buf.length)

section
variable (outcomes : Nat → SendOutcome)

lemma sendAll_sends (buf : Octets) (calls : Nat) : Sends (sendAll outcomes buf calls) buf := by
  fun_induction sendAll outcomes buf calls with
  | case1 => exact Or.inl ⟨rfl, rfl⟩
  | case2 buf calls hne more hsent s rest ih =>
    obtain ⟨hok, hwire⟩ | ⟨hok, hpre, hlt⟩ := ih
    · refine Or.inl ⟨hok, ?_⟩
      rw [hwire, take_append_drop]
    · refine Or.inr ⟨hok, ?_, ?_⟩
      · conv_rhs => rw [← take_append_drop s buf]
        exact (prefix_append_right_inj _).mpr hpre
      · have hrest : rest.wire.length < buf.length - s := by simpa using hlt
        rw [length_append, length_take]
        omega
  | case3 buf calls hne | case4 buf calls hne =>
    exact Or.inr ⟨rfl, nil_prefix, length_pos_iff.mpr hne⟩

variable {outcomes} {buf : Octets} {calls more : Nat}

lemma sendAll_of_whole (hne : buf ≠ []) (h : outcomes calls = .sent more)
    (hle : buf.length ≤ more + 1) : sendAll outcomes buf calls = ⟨true, buf, calls + 1⟩ := by
  rw [sendAll, dif_neg hne, h]
  simp only [Nat.min_eq_right hle, drop_length, take_length]
  rw [sendAll, dif_pos rfl, append_nil]

lemma sendAll_of_interrupted (hne : buf ≠ []) (h : outcomes calls = .interrupted) :
    sendAll outcomes buf calls = ⟨false, [], calls + 1⟩ := by
  rw [sendAll, dif_neg hne, h]

variable (outcomes)

lemma sendFramed_sends (body : Octets) (calls : Nat) :
    Sends (sendFramed outcomes body calls) (writeFrame body) := by
  unfold sendFramed writeFrame
  dsimp only
  have hhead := sendAll_sends outcomes (leBytes 4 (body.length % 2 ^ 32)) calls
  generalize sendAll outcomes (leBytes 4 (body.length % 2 ^ 32)) calls = header at hhead
  obtain ⟨hok, hwire⟩ | ⟨hok, hpre, hlt⟩ := hhead
  · have hbody := sendAll_sends outcomes body header.calls
    rw [if_pos hok, hwire]
    obtain ⟨hok, hwire⟩ | ⟨hok, hpre, hlt⟩ := hbody
    · exact Or.inl ⟨hok, by rw [hwire]⟩
    · refine Or.inr ⟨hok, (prefix_append_right_inj _).mpr hpre, ?_⟩
      simpa using hlt
  · rw [if_neg (by simp [hok])]
    refine Or.inr ⟨hok, hpre.trans (prefix_append _ _), ?_⟩
    rw [length_append]
    omega

end

section
variable (splits : Nat → Nat)

lemma recvAll_eq_none {n : Nat} {bytes : Octets} (calls : Nat) (h : bytes.length < n) :
    recvAll splits n ⟨bytes, calls⟩ = none := by
  induction n using Nat.strong_induction_on generalizing bytes calls with
  | _ n ih =>
    rw [recvAll, if_neg (by omega)]
    dsimp only
    by_cases hr : min (splits calls + 1) (min n bytes.length) = 0
    · rw [dif_pos hr]
    · rw [dif_neg hr]
      generalize hrdef : min (splits calls + 1) (min n bytes.length) = r at hr ⊢
      rw [ih (n - r) (by omega) (calls + 1) (by rw [length_drop]; omega)]

lemma readFrame_header {n : Nat} (h : n < 2 ^ 32) (rest : Octets) (calls : Nat) :
    ∃ calls', readFrame splits ⟨leBytes 4 n ++ rest, calls⟩ =
      if n = 0 ∨ maxFrameSize < n then none else recvAll splits n ⟨rest, calls'⟩ := by
  have hwidth : (leBytes 4 n).length = 4 := leBytes_length _ _
  have hlen : 4 ≤ (leBytes 4 n ++ rest).length := by
    rw [length_append]
    omega
  obtain ⟨calls', hrecv⟩ := recvAll_eq splits calls hlen
  refine ⟨calls', ?_⟩
  rw [take_left' hwidth, drop_left' hwidth] at hrecv
  rw [readFrame, hrecv]
  simp [leValue_leBytes (show n < 256 ^ 4 from h)]

lemma readFrame_truncated {payload sent : Octets} (calls : Nat) (hlen : payload.length < 2 ^ 32)
    (hpre : sent <+: writeFrame payload) (hlt : sent.length < (writeFrame payload).length) :
    readFrame splits ⟨sent, calls⟩ = none := by
  rw [writeFrame, Nat.mod_eq_of_lt hlen] at hpre hlt
  by_cases hhead : sent.length < 4
  · rw [readFrame, recvAll_eq_none splits calls hhead]
    rfl
  · have hprefix : leBytes 4 payload.length <+: sent :=
      prefix_of_prefix_length_le (prefix_append _ _) hpre (by simpa using hhead)
    obtain ⟨body, rfl⟩ := hprefix
    have hbody : body.length < payload.length := by simpa using hlt
    obtain ⟨calls', hframe⟩ := readFrame_header splits hlen body calls
    rw [hframe, recvAll_eq_none splits calls' hbody, ite_self]

lemma readFrame_complete {msg : Json} {buf next : Octets} {s' : Stream} (calls : Nat)
    (hlen : msg.encode.length < 2 ^ 32)
    (h : readFrame splits ⟨writeFrame msg.encode ++ next, calls⟩ = some (buf, s')) :
    buf = msg.encode ∧ ∃ calls', s' = ⟨next, calls'⟩ := by
  obtain ⟨calls', hframe⟩ := readFrame_writeFrame splits calls next msg.encode
  rw [h, Nat.mod_eq_of_lt hlen, take_left, drop_left] at hframe
  split_ifs at hframe
  obtain ⟨rfl, rfl⟩ := Prod.mk.inj (Option.some.inj hframe)
  exact ⟨rfl, calls', rfl⟩

lemma decodes_nil_of_none {s : Stream} {decoded : List (Octets × Json)}
    (hnone : readFrame splits s = none) (h : Decodes splits s decoded) : decoded = [] := by
  cases h with
  | none => rfl
  | one hframe => cases hnone.symm.trans hframe

lemma decodes_sublist {outcomes : Nat → SendOutcome} {msgs : List Message} {calls recvs : Nat}
    {decoded : List (Octets × Json)} (hlen : ∀ msg ∈ msgs, msg.json.encode.length < 2 ^ 32)
    (hclean : FailsClean outcomes (msgs.map json) calls)
    (h : Decodes splits ⟨wire outcomes (msgs.map json) calls, recvs⟩ decoded) :
    decoded.Sublist (msgs.map asRead) := by
  induction msgs generalizing calls recvs decoded with
  | nil =>
    have hnone : readFrame splits ⟨[], recvs⟩ = none := by
      rw [readFrame, recvAll_eq_none splits recvs (by simp)]
      rfl
    rw [decodes_nil_of_none splits hnone h]
    exact nil_sublist _
  | cons msg rest ih =>
    obtain ⟨hlenMsg, hlenRest⟩ := forall_mem_cons.mp hlen
    obtain ⟨hfirst, hrest⟩ := hclean
    rw [map_cons, wire] at h
    have hsends := sendFramed_sends outcomes msg.json.encode calls
    dsimp only [sendFrame] at h hfirst hrest
    obtain ⟨hok, hwire⟩ | ⟨hok, hpre, hlt⟩ := hsends
    · -- The whole frame is in the stream.
      rw [hwire] at h
      cases h with
      | none => exact nil_sublist _
      | one hframe hmsg hdecodes =>
        obtain ⟨rfl, recvs', rfl⟩ := readFrame_complete splits recvs hlenMsg hframe
        have hcanonical := Json.readAll_encode msg.valid hlenMsg
        cases hmsg.symm.trans hcanonical
        exact (ih hlenRest hrest hdecodes).cons_cons _
    · obtain hok' | hempty | hlast := hfirst
      · cases hok.symm.trans hok'
      · -- Nothing of the frame is in the stream.
        rw [hempty] at h
        exact (ih hlenRest hrest h).cons _
      · -- A part of the frame is the end of the stream.
        rw [hlast, append_nil] at h
        rw [decodes_nil_of_none splits (readFrame_truncated splits recvs hlenMsg hpre hlt) h]
        exact nil_sublist _

end

lemma notification_valid {method : Octets} {params : Json} (h : params.Valid) :
    (notification method params).Valid := by
  have hkeys : [ascii "method", ascii "params", ascii "type"].Nodup := by decide
  exact ⟨hkeys, trivial, h, trivial, trivial⟩

lemma configChange_valid (key value : Octets) :
    (Json.object [(ascii "key", .string key), (ascii "value", .string value)]).Valid := by
  have hkeys : [ascii "key", ascii "value"].Nodup := by decide
  exact ⟨hkeys, trivial, trivial, trivial⟩

/-- What a child is told when a config value changes to a text of this length. -/
def configChanged (length : Nat) : Message where
  json := notification (ascii "config_changed") (.object [(ascii "key", .string (ascii "k")),
    (ascii "value", .string (List.replicate length 97))])
  valid := notification_valid (configChange_valid _ _)

/-- The call of `::send` with this number is interrupted, the others take everything. -/
def interruptedAt (n calls : Nat) : SendOutcome := if calls = n then .interrupted else .sent 1000

lemma length_configChanged : (configChanged 79).json.encode.length = 136 ∧
    (configChanged 162).json.encode.length = 219 := by
  constructor <;> decide +kernel

lemma header_ne_nil (body : Octets) : leBytes 4 (body.length % 2 ^ 32) ≠ [] := by
  simp [leBytes]

lemma sendFrame_of_whole {n calls : Nat} {msg : Message} (h : calls ≠ n) (h' : calls + 1 ≠ n)
    (hlen : msg.json.encode.length ≤ 1001) :
    sendFrame (interruptedAt n) msg.json calls =
    ⟨true, writeFrame msg.json.encode, calls + 2⟩ := by
  have hhead := sendAll_of_whole (header_ne_nil msg.json.encode)
    (show interruptedAt n calls = .sent 1000 from if_neg h) (by simp)
  have hbody := sendAll_of_whole (ne_nil_of_length_pos (Json.encode_pos msg.valid))
    (show interruptedAt n (calls + 1) = .sent 1000 from if_neg h') hlen
  rw [sendFrame, sendFramed, hhead]
  rw [hbody]
  rfl

lemma sendFrame_of_header {n : Nat} (msg : Json) :
    sendFrame (interruptedAt n) msg n = ⟨false, [], n + 1⟩ := by
  have hhead := sendAll_of_interrupted (header_ne_nil msg.encode)
    (show interruptedAt n n = .interrupted from if_pos rfl)
  rw [sendFrame, sendFramed, hhead]
  rfl

lemma sendFrame_of_body {n : Nat} (msg : Message) : sendFrame (interruptedAt (n + 1)) msg.json n =
    ⟨false, leBytes 4 (msg.json.encode.length % 2 ^ 32), n + 2⟩ := by
  have hhead := sendAll_of_whole (header_ne_nil msg.json.encode)
    (show interruptedAt (n + 1) n = .sent 1000 from if_neg (by omega)) (by simp)
  have hbody := sendAll_of_interrupted (ne_nil_of_length_pos (Json.encode_pos msg.valid))
    (show interruptedAt (n + 1) (n + 1) = .interrupted from if_pos rfl)
  rw [sendFrame, sendFramed, hhead]
  dsimp only
  rw [hbody]
  rfl

/-- What the child takes for the first message: the length of the second and its beginning. -/
def mixedFrame : Octets := (writeFrame (configChanged 162).json.encode).take 136

end Millennium.Engine.PluginSend
