import Millennium.Lib.MsgPack

/-!
# Messages between Millennium and the processes of plugins

A message is sent as its length in four octets and its MessagePack. `write_msg` sends any length,
`read_msg` refuses more than 16 MiB, and an HTTP body may have 64 MiB. The repetition of an
interrupted `recv` is left out.
-/

namespace Millennium.Engine

open Bytes List Option Json

def maxFrameSize : Nat := 16 * 1024 * 1024

/-- What is still to be received, and how often `recv` was called. -/
structure Stream where
  bytes : Octets
  calls : Nat

section
variable (splits : Nat → Nat)

/-- `recv_all`. Each `recv` gives as many octets as `splits` says, but one at least. -/
def recvAll (n : Nat) (s : Stream) : Option (Octets × Stream) :=
  if n = 0 then some ([], s)
  else
    let r := min (splits s.calls + 1) (min n s.bytes.length)
    if _h : r = 0 then none
    else
      match recvAll (n - r) ⟨s.bytes.drop r, s.calls + 1⟩ with
      | none => none
      | some (got, s') => some (s.bytes.take r ++ got, s')
termination_by n
decreasing_by omega

def readFrame (s : Stream) : Option (Octets × Stream) := do
  let (lenLe, s) ← recvAll splits 4 s
  let len := leValue lenLe
  if len = 0 ∨ maxFrameSize < len then none else recvAll splits len s

def readMsg (s : Stream) : Option (Json × Stream) := do
  let (buf, s) ← readFrame splits s
  let v ← readAll buf
  let msg ← fromMsgpack v
  return (msg, s)

/-- What a loop receives by `read_msg` in so many turns, until it fails. -/
def readMsgs : Nat → Stream → List Json
  | 0, _ => []
  | n + 1, s =>
    match readMsg splits s with
    | none => []
    | some (msg, s) => msg :: readMsgs n s

end

def writeFrame (payload : Octets) : Octets := leBytes 4 (payload.length % 2 ^ 32) ++ payload

def writeMsg (msg : Json) : Octets := writeFrame msg.encode

structure Message where
  json : Json
  valid : json.Valid

def response (id : Int) (result : Json) : Json :=
  .object [(ascii "type", .string (ascii "res")), (ascii "id", .integer id),
    (ascii "result", result)]

def maxReturnValueSize : Nat := maxFrameSize / 2

/-- The result of an evaluation that gave a table, within `kMaxReturnValueSize`. -/
def tableResult (value : Json) : Json :=
  .object [(ascii "success", .boolean true), (ascii "value", value),
    (ascii "value_type", .string (ascii "table"))]

def maxResponseBody : Nat := 64 * 1024 * 1024

/-- The body of an HTTP response: the chunks, or nothing if they exceed the limit. -/
def collectBody (data : Octets) : List Octets → Option Octets
  | [] => some data
  | chunk :: rest =>
    if maxResponseBody < data.length + chunk.length then none
    else collectBody (data ++ chunk) rest

def httpResult (status : Int) (headers : List (Octets × Json)) (chunks : List Octets) : Json :=
  match collectBody [] chunks with
  | none => .object [(ascii "error", .string (ascii "response body exceeded 64 MB limit"))]
  | some body =>
    .object [(ascii "body", .string body), (ascii "status", .integer status),
      (ascii "headers", .object headers)]

section
variable (splits : Nat → Nat) {n : Nat} {bytes : Octets} (calls : Nat) (next : Octets)

lemma recvAll_eq (h : n ≤ bytes.length) :
    ∃ calls', recvAll splits n ⟨bytes, calls⟩ = some (bytes.take n, ⟨bytes.drop n, calls'⟩) := by
  induction n using Nat.strong_induction_on generalizing bytes calls with
  | _ n ih =>
    rw [recvAll]
    by_cases hn : n = 0
    · exact ⟨calls, by rw [hn]; rfl⟩
    · rw [if_neg hn]
      have hmin : min n bytes.length = n := Nat.min_eq_left h
      rw [hmin]
      have hr : min (splits calls + 1) n ≠ 0 := by omega
      have hle : min (splits calls + 1) n ≤ n := Nat.min_le_right _ _
      rw [dif_neg hr]
      generalize min (splits calls + 1) n = r at hr hle ⊢
      have hlen : n - r ≤ (bytes.drop r).length := by
        rw [length_drop]
        omega
      obtain ⟨calls', hrest⟩ : ∃ calls', recvAll splits (n - r) ⟨bytes.drop r, calls + 1⟩ =
          some ((bytes.drop r).take (n - r), ⟨(bytes.drop r).drop (n - r), calls'⟩) :=
        ih (n - r) (by omega) (calls + 1) hlen
      refine ⟨calls', ?_⟩
      rw [hrest]
      have htake : bytes.take r ++ (bytes.drop r).take (n - r) = bytes.take n := by
        rw [← take_add, Nat.add_sub_cancel' hle]
      have hdrop : (bytes.drop r).drop (n - r) = bytes.drop n := by
        rw [drop_drop, Nat.add_sub_cancel' hle]
      simp only [htake, hdrop]

lemma readFrame_writeFrame (body : Octets) :
    ∃ calls', readFrame splits ⟨writeFrame body ++ next, calls⟩ =
      if body.length % 2 ^ 32 = 0 ∨ maxFrameSize < body.length % 2 ^ 32 then none
      else some ((body ++ next).take (body.length % 2 ^ 32),
        ⟨(body ++ next).drop (body.length % 2 ^ 32), calls'⟩) := by
  have hlen : body.length % 2 ^ 32 < 256 ^ 4 := Nat.mod_lt _ (by norm_num)
  have hwidth : (leBytes 4 (body.length % 2 ^ 32)).length = 4 := leBytes_length _ _
  obtain ⟨calls₁, hhead⟩ : ∃ calls₁,
      recvAll splits 4 ⟨writeFrame body ++ next, calls⟩ =
        some (leBytes 4 (body.length % 2 ^ 32), ⟨body ++ next, calls₁⟩) := by
    have hframe : 4 ≤ (writeFrame body ++ next).length := by
      simp only [writeFrame, length_append]
      omega
    obtain ⟨calls₁, h⟩ := recvAll_eq splits calls hframe
    refine ⟨calls₁, h.trans ?_⟩
    rw [writeFrame, append_assoc, take_left' hwidth, drop_left' hwidth]
  have hpayload : body.length % 2 ^ 32 ≤ (body ++ next).length := by
    rw [length_append]
    exact (Nat.mod_le _ _).trans (Nat.le_add_right _ _)
  obtain ⟨calls₂, hbody⟩ := recvAll_eq splits calls₁ hpayload
  refine ⟨calls₂, ?_⟩
  rw [readFrame, hhead]
  simp only [bind_eq_bind, bind_some, leValue_leBytes hlen, hbody]

lemma readMsg_writeMsg {msg : Json} (hvalid : msg.Valid) (h : msg.encode.length ≤ maxFrameSize) :
    ∃ calls', readMsg splits ⟨writeMsg msg ++ next, calls⟩ =
    some (msg.canonical, ⟨next, calls'⟩) := by
  have hpos : 0 < msg.encode.length := encode_pos hvalid
  have hlt : msg.encode.length < 2 ^ 32 := h.trans_lt (by decide)
  have hread := readAll_encode hvalid hlt
  obtain ⟨calls', hframe⟩ := readFrame_writeFrame splits calls next msg.encode
  rw [Nat.mod_eq_of_lt hlt, if_neg (by omega), take_left, drop_left] at hframe
  refine ⟨calls', ?_⟩
  obtain ⟨v, hv, hfrom⟩ := bind_eq_some_iff.mp hread
  rw [readMsg, writeMsg, hframe]
  simp only [bind_eq_bind, bind_some, hv, hfrom]
  rfl

lemma readMsg_writeMsg_of_lt {msg msg' : Json} {calls' : Nat}
    (h : maxFrameSize < msg.encode.length) :
    readMsg splits ⟨writeMsg msg ++ next, calls⟩ ≠ some (msg', ⟨next, calls'⟩) := by
  intro hread
  obtain ⟨calls₁, hframe⟩ := readFrame_writeFrame splits calls next msg.encode
  rw [readMsg, writeMsg, hframe] at hread
  split_ifs at hread with hlen
  · cases hread
  · simp only [bind_eq_bind, bind_some] at hread
    obtain ⟨v, _, hread⟩ := bind_eq_some_iff.mp hread
    obtain ⟨j, _, hread⟩ := bind_eq_some_iff.mp hread
    simp only [Option.pure_def, some.injEq, Prod.mk.injEq, Stream.mk.injEq] at hread
    have hlength := congrArg List.length hread.2.1
    rw [length_drop, length_append] at hlength
    omega

end

section
variable {id : Int} {result value : Json}

lemma length_writeHead_text {n : Nat} (h : n < 32) : (writeHead (.text n)).length = 1 := by
  rw [writeHead, if_pos h]
  rfl

lemma length_writeHead_integer_le (n : Int) :
    (writeHead (if 0 ≤ n then .uint n.toNat else .int n)).length ≤ 9 := by
  split_ifs
  · simp only [writeHead, writeLength]
    split_ifs <;> simp
  · simp only [writeHead]
    split_ifs <;> simp

lemma length_response : (response id result).encode.length =
      20 + (writeHead (if 0 ≤ id then .uint id.toNat else .int id)).length +
        result.encode.length := by
  simp only [response, encode, encodeFields, length_append, length_nil]
  have hhead : (writeHead (.pairs (List.length [(ascii "type", string (ascii "res")),
      (ascii "id", .integer id), (ascii "result", result)]))).length = 1 := rfl
  have htype : (ascii "type").length = 4 := rfl
  have hres : (ascii "res").length = 3 := rfl
  have hid : (ascii "id").length = 2 := rfl
  have hresult : (ascii "result").length = 6 := rfl
  rw [length_writeHead_text (by decide),
    length_writeHead_text (by decide), length_writeHead_text (by decide),
    length_writeHead_text (by decide)]
  omega

lemma length_tableResult : (tableResult value).encode.length = 33 + value.encode.length := by
  simp only [tableResult, encode, encodeFields, length_append, length_nil]
  have hhead : (writeHead (.pairs (List.length [(ascii "success", boolean true),
      (ascii "value", value), (ascii "value_type", .string (ascii "table"))]))).length = 1 := rfl
  have hsuccess : (ascii "success").length = 7 := rfl
  have hvalue : (ascii "value").length = 5 := rfl
  have htype : (ascii "value_type").length = 10 := rfl
  have htable : (ascii "table").length = 5 := rfl
  have htrue : (writeHead (.boolean true)).length = 1 := rfl
  rw [hvalue, htype, htable, length_writeHead_text (by decide),
    length_writeHead_text (by decide), length_writeHead_text (by decide)]
  omega

lemma collectBody_eq {data : Octets} {chunks : List Octets}
    (h : data.length + chunks.flatten.length ≤ maxResponseBody) :
    collectBody data chunks = some (data ++ chunks.flatten) := by
  induction chunks generalizing data with
  | nil => simp [collectBody]
  | cons chunk rest ih =>
    rw [flatten_cons, length_append] at h
    rw [collectBody, if_neg (by omega), ih (by rw [length_append]; omega),
      append_assoc, flatten_cons]

lemma length_le_httpResult {status : Int} {headers : List (Octets × Json)}
    {chunks : List Octets} (h : chunks.flatten.length ≤ maxResponseBody) :
    chunks.flatten.length ≤ (httpResult status headers chunks).encode.length := by
  have hbody : collectBody [] chunks = some chunks.flatten :=
    collectBody_eq (by rwa [length_nil, Nat.zero_add])
  simp only [httpResult, hbody, encode, encodeFields, length_append]
  omega

end

/-- A message is read back, however the stream is split, exactly if its MessagePack is not longer than
the limit. The return values that the child allows itself are not. -/
theorem messages_read_iff (splits : Nat → Nat) : (∀ (msg : Message) (next : Octets) (calls : Nat),
      (∃ calls', readMsg splits ⟨writeMsg msg.json ++ next, calls⟩ =
          some (msg.json.canonical, ⟨next, calls'⟩)) ↔
        msg.json.encode.length ≤ maxFrameSize) ∧
    ∀ (id : Int) (value : Json), value.encode.length ≤ maxReturnValueSize →
      (response id value).encode.length ≤ maxFrameSize ∧
        (response id (tableResult value)).encode.length ≤ maxFrameSize := by
  constructor
  · intro msg next calls
    constructor
    · rintro ⟨calls', hread⟩
      by_contra hlt
      exact readMsg_writeMsg_of_lt splits calls next (Nat.lt_of_not_le hlt) hread
    · intro h
      exact readMsg_writeMsg splits calls next msg.valid h
  · intro id value h
    have hid := length_writeHead_integer_le id
    have hmax : maxReturnValueSize + 62 ≤ maxFrameSize := by decide
    rw [length_response, length_response, length_tableResult]
    omega

lemma readMsg_nil (splits : Nat → Nat) (calls : Nat) : readMsg splits ⟨[], calls⟩ = none := by
  rw [readMsg, readFrame, recvAll]
  rfl

def largeBody : List Octets := List.replicate 1024 (List.replicate 16384 97)

lemma length_largeBody : largeBody.flatten.length = maxFrameSize := by
  rw [largeBody, flatten_replicate_replicate, length_replicate]
  rfl

/-- A response with an HTTP body within its own limit is not read. -/
theorem largeBody_not_read : ¬ ∃ calls', readMsg (fun _ => 0)
        ⟨writeMsg (response 1 (httpResult 200 [] largeBody)) ++ [], 0⟩ =
      some ((response 1 (httpResult 200 [] largeBody)).canonical, ⟨[], calls'⟩) := by
  rintro ⟨calls', hread⟩
  refine readMsg_writeMsg_of_lt _ 0 [] ?_ hread
  have hbody : largeBody.flatten.length ≤ maxResponseBody := by
    rw [length_largeBody]
    decide
  have hresult : maxFrameSize ≤ (httpResult 200 [] largeBody).encode.length :=
    length_largeBody ▸ length_le_httpResult hbody
  rw [length_response]
  omega

end Millennium.Engine
