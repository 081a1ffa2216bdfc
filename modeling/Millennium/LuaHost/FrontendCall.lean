import Millennium.Engine.FrontendExpression
import Millennium.Lib.Utf8
import Millennium.LuaHost.Evaluate

/-!
# Calling the front end

In the child `lua_isstring` comes first and takes numbers too, and `lua_tostring` gives a C string;
in the parent a text is written as `atob` of its octets. So of numbers and texts only a text of
ASCII characters other than NUL reaches the front end as it is.
-/

namespace Millennium.LuaHost

open Bytes Engine List Json

def rawGeti (entries : List (LuaKey × LuaValue)) (i : Nat) : LuaValue :=
  (entries.lookup (.integer i)).getD .nil

def LuaValue.isNil : LuaValue → Bool
  | .nil => true
  | _ => false

/-- `lua_objlen`: the entries from the key one on. Without gaps there is no other border. -/
def objlen (entries : List (LuaKey × LuaValue)) : Nat :=
  ((List.range entries.length).takeWhile fun i => !(rawGeti entries (i + 1)).isNil).length

section
variable (lua : Lua)

/-- The parameter for an argument. The branch for numbers is never reached. -/
def argumentJson : LuaValue → Except Octets Json
  | .string s => .ok (.string (cString s))
  | .number bits => .ok (.string (cString (lua.numberText bits)))
  | .boolean b => .ok (.boolean b)
  | _ => .error (ascii "Millennium's IPC can only handle [boolean, string, number]")

/-- The loop over the arguments: as many as are left, from an index on. -/
def readParams (entries : List (LuaKey × LuaValue)) : Nat → Nat → Except Octets (List Json)
  | 0, _ => .ok []
  | n + 1, i => do
      let param ← argumentJson lua (rawGeti entries i)
      let rest ← readParams entries n (i + 1)
      return param :: rest

/-- The parameters that `RPC_CallFrontendMethod` makes of its argument, or its error. -/
def rpcCallParams : LuaValue → Except Octets (List Json)
  | .nil => .ok []
  | .table entries => readParams lua entries (toInt32 (objlen entries)).toNat 1
  | _ => .error (ascii "params must be a table")

end

structure FrontendCall where
  id : Int32
  methodName : Octets
  caller : Octets
  pluginIsV2 : Bool

def FrontendCall.request (call : FrontendCall) (params : List Json) : Json :=
  .object [(ascii "id", .integer call.id.toInt),
    (ascii "method", .string (ascii "call_frontend_method")),
    (ascii "params", .object [(ascii "caller", .string call.caller),
      (ascii "methodName", .string call.methodName), (ascii "params", .array params),
      (ascii "return_by_value", .boolean call.pluginIsV2)]),
    (ascii "type", .string (ascii "req"))]

def getBoolean : Json → Except TypeError Bool
  | .boolean b => .ok b
  | _ => .error .type302

def elements : Json → List Json
  | .null => []
  | .array items => items
  | .object fields => fields.map Prod.snd
  | j => [j]

section
variable (numbers : NumberText) (plugin : Octets)

def frontendData (params : Json) : Except TypeError Json := do
  let methodName ← params.value getString (ascii "methodName") []
  let caller ← params.value getString (ascii "caller") []
  let returnByValue ← params.value getBoolean (ascii "return_by_value") false
  return .object [(ascii "argumentList", (params.field? (ascii "params")).getD (.array [])),
    (ascii "caller", .string caller), (ascii "methodName", .string methodName),
    (ascii "pluginName", .string plugin), (ascii "return_by_value", .boolean returnByValue)]

def callFrontendMethod (data : Json) : Except TypeError Octets := do
  let params := (((data.field? (ascii "argumentList")).map elements).getD []).filterMap parameterOf
  let pluginName ← getString ((data.field? (ascii "pluginName")).getD .null)
  let methodName ← getString ((data.field? (ascii "methodName")).getD .null)
  return compileJavascriptExpression numbers pluginName methodName params

/-- What the reader thread evaluates in the front end for a message, if anything. -/
def handleRequest (msg : Json) : Except TypeError (Option Octets) := do
  let type ← msg.value getString (ascii "type") []
  if type = ascii "req" then
    let method ← msg.value getString (ascii "method") []
    let params ← msg.valueJson (ascii "params") (.object [])
    if method = ascii "call_frontend_method" then
      let data ← frontendData plugin params
      let script ← callFrontendMethod numbers data
      return some script
    else return none
  else return none

end

def sequence (i : Nat) : List LuaValue → List (LuaKey × LuaValue)
  | [] => []
  | v :: rest => (.integer i, v) :: sequence (i + 1) rest

/-- The same value in Lua and in JavaScript: UTF-8 octets and UTF-16 code units of the same
characters. -/
def SameValue : Scalar → JsValue → Prop
  | .boolean b, .boolean b' => b = b'
  | .number bits, .number bits' => bits = bits'
  | .string s, .string units => ∃ chars, s = Utf8.encode chars ∧ units = Utf8.utf16 chars
  | _, _ => False

/-- Where a call is made, and what follows its message in the stream. -/
structure Setting where
  lua : Lua
  numbers : NumberText
  splits : Nat → Nat
  calls : Nat
  next : Octets
  plugin : Octets
  call : FrontendCall

/-- The expression for a call has the arguments of the call: as many, and each the same value. -/
def Arrives (setting : Setting) (args : List Scalar) : Prop :=
  ∃ params msg calls' expression values,
    rpcCallParams setting.lua (.table (sequence 1 (args.map Scalar.toLua))) = .ok params ∧
    readMsg setting.splits ⟨writeMsg (setting.call.request params) ++ setting.next,
      setting.calls⟩ = some (msg, ⟨setting.next, calls'⟩) ∧
    handleRequest setting.numbers setting.plugin msg = .ok (some expression) ∧
    callArguments setting.numbers setting.plugin setting.call.methodName expression =
      some values ∧
    List.Forall₂ SameValue args values

/-- A truth value, or a text of ASCII characters other than NUL. -/
def Sendable : Scalar → Prop
  | .boolean _ => True
  | .number _ => False
  | .string s => ∀ b ∈ s, 0 < b.toNat ∧ b.toNat < 128

lemma rawGeti_sequence (vs : List LuaValue) (k i : Nat) :
    rawGeti (sequence k vs) (k + i) = vs[i]?.getD .nil := by
  induction vs generalizing k i with
  | nil => rfl
  | cons v rest ih =>
    cases i with
    | zero => rw [Nat.add_zero, sequence, rawGeti, lookup_cons_self]; rfl
    | succ i =>
      have hne : (LuaKey.integer ((k + (i + 1) : Nat) : Int) == .integer (k : Int)) = false := by
        rw [beq_eq_false_iff_ne]
        intro heq
        have := LuaKey.integer.inj heq
        omega
      rw [getElem?_cons_succ, ← ih (k + 1) i, sequence, rawGeti, lookup_cons, hne,
        Nat.add_right_comm]
      rfl

lemma length_sequence (vs : List LuaValue) (k : Nat) : (sequence k vs).length = vs.length := by
  induction vs generalizing k with
  | nil => rfl
  | cons v rest ih => rw [sequence, length_cons, length_cons, ih]

lemma isNil_toLua (a : Scalar) : a.toLua.isNil = false := by cases a <;> rfl

lemma objlen_sequence (args : List Scalar) :
    objlen (sequence 1 (args.map Scalar.toLua)) = args.length := by
  have hall : ∀ i ∈ List.range (sequence 1 (args.map Scalar.toLua)).length,
      (!(rawGeti (sequence 1 (args.map Scalar.toLua)) (i + 1)).isNil) = true := by
    intro i hi
    rw [mem_range, length_sequence, length_map] at hi
    rw [Nat.add_comm, rawGeti_sequence, getElem?_map, getElem?_eq_getElem hi]
    exact congrArg not (isNil_toLua _)
  rw [objlen, takeWhile_eq_self_iff.mpr hall, length_range, length_sequence, length_map]

def argumentOf (lua : Lua) : Scalar → Json
  | .boolean b => .boolean b
  | .number bits => .string (cString (lua.numberText bits))
  | .string s => .string (cString s)

def arrived (lua : Lua) : Scalar → JsValue
  | .boolean b => .boolean b
  | .number bits => .string ((cString (lua.numberText bits)).map UInt8.toNat)
  | .string s => .string ((cString s).map UInt8.toNat)

section
variable (lua : Lua)

lemma argumentJson_toLua (a : Scalar) : argumentJson lua a.toLua = .ok (argumentOf lua a) := by
  cases a <;> rfl

lemma readParams_eq {entries : List (LuaKey × LuaValue)} {args : List Scalar} {n k : Nat}
    (hn : n ≤ args.length)
    (h : ∀ i, rawGeti entries (k + i) = (args.map Scalar.toLua)[i]?.getD .nil) :
    readParams lua entries n k = .ok ((args.take n).map (argumentOf lua)) := by
  induction n generalizing args k with
  | zero => rfl
  | succ n ih =>
    cases args with
    | nil => cases hn
    | cons a args =>
      have hfirst : rawGeti entries k = a.toLua := h 0
      have hrest : ∀ i, rawGeti entries (k + 1 + i) = (args.map Scalar.toLua)[i]?.getD .nil := by
        intro i
        rw [Nat.add_right_comm]
        exact h (i + 1)
      rw [readParams, hfirst, argumentJson_toLua, ih (Nat.le_of_succ_le_succ hn) hrest]
      rfl

def passed (n : Nat) : Nat := (toInt32 n).toNat

lemma passed_of_lt {n : Nat} (h : n < 2 ^ 31) : passed n = n := by
  rw [passed, toInt32, Int.bmod_def]
  split_ifs <;> omega

lemma passed_le (n : Nat) : passed n ≤ n := by
  rw [passed, toInt32, Int.bmod_def]
  split_ifs <;> omega

lemma rpcCallParams_sequence (args : List Scalar) :
    rpcCallParams lua (.table (sequence 1 (args.map Scalar.toLua))) =
    .ok ((args.take (passed args.length)).map (argumentOf lua)) := by
  rw [rpcCallParams, objlen_sequence]
  exact readParams_eq lua (passed_le _) fun i => rawGeti_sequence _ 1 i

end

section
variable (lua : Lua) (numbers : NumberText) (plugin : Octets) (call : FrontendCall)
  (args : List Scalar)

lemma validItems_arguments : Json.ValidItems (args.map (argumentOf lua)) := by
  induction args with
  | nil => trivial
  | cons a args ih => exact ⟨by cases a <;> trivial, ih⟩

lemma canonicalItems_arguments :
    canonicalItems (args.map (argumentOf lua)) = args.map (argumentOf lua) := by
  induction args with
  | nil => rfl
  | cons a args ih =>
    rw [map_cons, canonicalItems, ih]
    cases a <;> rfl

lemma valid_request : (call.request (args.map (argumentOf lua))).Valid := by
  have hle := call.id.le_toInt
  have hlt := call.id.toInt_lt
  have hid : (integer call.id.toInt).Valid := ⟨by omega, by omega⟩
  have hkeys : [ascii "id", ascii "method", ascii "params", ascii "type"].Nodup := by decide
  have hparams : [ascii "caller", ascii "methodName", ascii "params",
      ascii "return_by_value"].Nodup := by decide
  have hitems := validItems_arguments lua args
  exact ⟨hkeys, hid, trivial, ⟨hparams, trivial, trivial, hitems, trivial, trivial⟩, trivial,
    trivial⟩

lemma reads_parameters :
    List.Forall₂ (ReadsAs numbers) ((args.map (argumentOf lua)).filterMap parameterOf)
      (args.map (arrived lua)) := by
  induction args with
  | nil => exact .nil
  | cons a args ih =>
    cases a with
    | boolean b => exact .cons (reads_boolean numbers b) ih
    | number | string => exact .cons (reads_string numbers _) ih

lemma handleRequest_request :
    handleRequest numbers plugin (call.request (args.map (argumentOf lua))).canonical =
    .ok (some (compileJavascriptExpression numbers plugin call.methodName
        ((args.map (argumentOf lua)).filterMap parameterOf))) := by
  have hrequest : (call.request (args.map (argumentOf lua))).canonical =
      .object [(ascii "id", (integer call.id.toInt).canonical),
        (ascii "method", .string (ascii "call_frontend_method")),
        (ascii "params", .object [(ascii "caller", .string call.caller),
          (ascii "methodName", .string call.methodName),
          (ascii "params", .array (canonicalItems (args.map (argumentOf lua)))),
          (ascii "return_by_value", .boolean call.pluginIsV2)]),
        (ascii "type", .string (ascii "req"))] := rfl
  rw [hrequest, canonicalItems_arguments]
  rfl

end

lemma sameValue_string_iff (s : Octets) :
    (∃ chars, s = Utf8.encode chars ∧ (cString s).map UInt8.toNat = Utf8.utf16 chars) ↔
    ∀ b ∈ s, 0 < b.toNat ∧ b.toNat < 128 := by
  constructor
  · rintro ⟨chars, rfl, hunits⟩ b hb
    have hzero : 0 ∉ Utf8.encode chars := by
      intro hmem
      have hunit := Utf8.zero_mem_utf16 hmem
      rw [← hunits] at hunit
      obtain ⟨x, hx, hx0⟩ := mem_map.mp hunit
      have hx' : x = 0 := UInt8.toNat_inj.mp hx0
      exact not_mem_cString (hx' ▸ hx)
    rw [cString_eq hzero] at hunits
    have hpos : b.toNat ≠ 0 := fun h0 => hzero ((UInt8.toNat_inj.mp h0 : b = 0) ▸ hb)
    exact ⟨Nat.pos_of_ne_zero hpos, (Utf8.utf16_eq_iff chars).mp hunits.symm b hb⟩
  · intro h
    obtain ⟨chars, rfl⟩ := Utf8.isUtf8_of_ascii fun b hb => (h b hb).2
    have hzero : 0 ∉ Utf8.encode chars := fun hmem => absurd (h 0 hmem).1 (by decide)
    refine ⟨chars, rfl, ?_⟩
    rw [cString_eq hzero]
    exact ((Utf8.utf16_eq_iff chars).mpr fun b hb => (h b hb).2).symm

lemma sameValue_arrived_iff (lua : Lua) (a : Scalar) : SameValue a (arrived lua a) ↔ Sendable a := by
  cases a with
  | boolean => exact ⟨fun _ => trivial, fun _ => rfl⟩
  | number => exact Iff.rfl
  | string s => exact sameValue_string_iff s

lemma argumentOf_of_sendable (lua : Lua) {a : Scalar} (h : Sendable a) :
    argumentOf lua a = a.toJson := by
  cases a with
  | boolean => rfl
  | number => exact h.elim
  | string s =>
    have hzero : 0 ∉ s := fun hmem => absurd (h 0 hmem).1 (by decide)
    exact congrArg string (cString_eq hzero)

lemma forall₂_arrived_iff (lua : Lua) (args : List Scalar) :
    List.Forall₂ SameValue args (args.map (arrived lua)) ↔ ∀ a ∈ args, Sendable a := by
  induction args with
  | nil => exact ⟨fun _ => forall_mem_nil _, fun _ => .nil⟩
  | cons a args ih =>
    rw [map_cons, forall₂_cons, forall_mem_cons, sameValue_arrived_iff, ih]

lemma length_le_request (lua : Lua) (call : FrontendCall) (args : List Scalar) :
    args.length ≤ (call.request (args.map (argumentOf lua))).encode.length := by
  have hitems := length_le_encodeItems (validItems_arguments lua args)
  rw [length_map] at hitems
  simp only [FrontendCall.request, encode, encodeFields, length_append]
  omega

lemma map_argumentOf_of_sendable (lua : Lua) {args : List Scalar}
    (h : ∀ a ∈ args, Sendable a) : args.map (argumentOf lua) = args.map Scalar.toJson :=
  map_congr_left fun a ha => argumentOf_of_sendable lua (h a ha)

lemma arrives_spec {setting : Setting} {args : List Scalar} : Arrives setting args ↔
    (setting.call.request ((args.take (passed args.length)).map
          (argumentOf setting.lua))).encode.length ≤ maxFrameSize ∧
    List.Forall₂ SameValue args
          ((args.take (passed args.length)).map (arrived setting.lua)) := by
  obtain ⟨lua, numbers, splits, calls, next, plugin, call⟩ := setting
  have hvalid := valid_request lua call (args.take (passed args.length))
  have hscript := handleRequest_request lua numbers plugin call (args.take (passed args.length))
  have harguments := callArguments_compile numbers
    (reads_parameters lua numbers (args.take (passed args.length))) plugin call.methodName
  constructor
  · rintro ⟨params, msg, calls', expression, values, hparams, hread, hhandle, hvalues, hsame⟩
    rw [rpcCallParams_sequence] at hparams
    obtain rfl := Except.ok.inj hparams
    have hfits : (call.request ((args.take (passed args.length)).map
        (argumentOf lua))).encode.length ≤ maxFrameSize := by
      by_contra hlt
      exact readMsg_writeMsg_of_lt splits calls next (Nat.lt_of_not_le hlt) hread
    obtain ⟨calls₁, hmsg⟩ := readMsg_writeMsg splits calls next hvalid hfits
    rw [hread] at hmsg
    obtain rfl := (Prod.mk.inj (Option.some.inj hmsg)).1
    rw [hscript] at hhandle
    obtain rfl := Option.some.inj (Except.ok.inj hhandle)
    rw [harguments] at hvalues
    obtain rfl := Option.some.inj hvalues
    exact ⟨hfits, hsame⟩
  · rintro ⟨hfits, hsame⟩
    obtain ⟨calls', hmsg⟩ := readMsg_writeMsg splits calls next hvalid hfits
    exact ⟨_, _, calls', _, _, rpcCallParams_sequence lua args, hmsg, hscript, harguments, hsame⟩

/-- The arguments of a call reach the front end as they are exactly if each of them is a truth value
or a text of ASCII characters other than NUL, and the message fits into a frame. -/
theorem arrives_iff (setting : Setting) (args : List Scalar) : Arrives setting args ↔
      (∀ a ∈ args, Sendable a) ∧
        (setting.call.request (args.map Scalar.toJson)).encode.length ≤ maxFrameSize := by
  rw [arrives_spec]
  constructor
  · rintro ⟨hfits, hsame⟩
    have hlength := hsame.length_eq
    rw [length_map, length_take] at hlength
    rw [take_of_length_le (by omega)] at hfits hsame
    have hsendable := (forall₂_arrived_iff setting.lua args).mp hsame
    rw [map_argumentOf_of_sendable setting.lua hsendable] at hfits
    exact ⟨hsendable, hfits⟩
  · rintro ⟨hsendable, hfits⟩
    rw [← map_argumentOf_of_sendable setting.lua hsendable] at hfits
    have hlt : args.length < 2 ^ 31 := by
      calc args.length ≤ _ := length_le_request setting.lua setting.call args
        _ ≤ maxFrameSize := hfits
        _ < 2 ^ 31 := by decide
    rw [passed_of_lt hlt, take_length]
    exact ⟨hfits, (forall₂_arrived_iff setting.lua args).mpr hsendable⟩

def someSetting : Setting where
  lua := { someLua with numberText := fun _ => ascii "1" }
  numbers := ⟨fun _ => ascii "1", fun _ => some 0x3FF0000000000000⟩
  splits := fun _ => 0
  calls := 0
  next := []
  plugin := ascii "example"
  call := ⟨1, ascii "receive", [], false⟩

/-- The number one arrives as a text. -/
theorem one_not_arrives : ¬ Arrives someSetting [.number 0x3FF0000000000000] := by
  intro harrives
  have hsame := (arrives_spec.mp harrives).2
  exact (forall₂_cons.mp hsame).1

end Millennium.LuaHost
