import Millennium.Engine.PluginIpc
import Millennium.LuaHost.Tables

/-!
# The result of an evaluation

`handle_evaluate` converts a table; it sends a text or a number as a C string, a truth value as
such, and all the rest as null. `ipc_main::lua_evaluate` takes a text that is JSON for the value it
says. So a value on its own and in a table can arrive as different values.
-/

namespace Millennium.LuaHost

open Bytes Engine List Json Option

/-- `ordered_json::parse` without exceptions. The text of a JSON string is longer than the string.
-/
structure JsonText where
  parse : Octets → Option Json
  length_lt : ∀ {text s}, parse text = some (.string s) → s.length < text.length

def scalarResult (value : Json) (valueType : Octets) : Json :=
  .object [(ascii "success", .boolean true), (ascii "value", value),
    (ascii "value_type", .string valueType)]

def failedResult (error : Octets) : Json :=
  .object [(ascii "success", .boolean false), (ascii "error", .string error)]

def tooLarge (wireSize : Nat) : Json :=
  failedResult (ascii "return value too large (" ++ ascii (toString wireSize) ++
    ascii " bytes, limit " ++ ascii (toString maxReturnValueSize) ++ ascii " bytes)")

/-- The result, unless it is too large. For a table only its value is measured. -/
def limited (measured result : Json) : Json :=
  if maxReturnValueSize < measured.encode.length then tooLarge measured.encode.length else result

section
variable (lua : Lua)

/-- What `handle_evaluate` makes of a value. Numbers are strings for `lua_isstring`, and texts C
strings. -/
def evaluateResult : LuaValue → Json
  | .table entries =>
    match luaTableToJson lua 0 entries with
    | none =>
      failedResult (ascii "table nesting exceeds maximum depth (possible cyclic table)")
    | some converted => limited converted (tableResult converted)
  | .string s => text (cString s)
  | .number bits => text (cString (lua.numberText bits))
  | .boolean b =>
    limited (scalarResult (.boolean b) (ascii "boolean"))
      (scalarResult (.boolean b) (ascii "boolean"))
  | _ => limited (scalarResult .null (ascii "nil")) (scalarResult .null (ascii "nil"))
where
  text (s : Octets) : Json :=
    limited (scalarResult (.string s) (ascii "string")) (scalarResult (.string s) (ascii "string"))

inductive VmCallResult where
  | success (value : Json)
  | failure (error : Octets)

def vmValue (text : JsonText) : Json → Json
  | .string s => (text.parse s).getD (.string s)
  | .unsigned n => .integer (Int.bmod n (2 ^ 64))
  | .binary _ => .null
  | value => value

/-- `ipc_main::lua_evaluate`, for what the child has answered. -/
def luaEvaluate (text : JsonText) (result : Json) : Except TypeError VmCallResult :=
  match result.field? (ascii "success") with
  | some (.boolean true) => .ok (.success (vmValue text ((result.field? (ascii "value")).getD .null)))
  | _ =>
    (result.value getString (ascii "error")
      (ascii "unknown error from child process")).map .failure

end

inductive Scalar where
  | boolean (b : Bool)
  | number (bits : UInt64)
  | string (s : Octets)

def Scalar.toLua : Scalar → LuaValue
  | .boolean b => .boolean b
  | .number bits => .number bits
  | .string s => .string s

def Scalar.toJson : Scalar → Json
  | .boolean b => .boolean b
  | .number bits => .float bits
  | .string s => .string s

/-- The front end receives the value on its own, and in an array, as the same value. -/
def Agrees (lua : Lua) (text : JsonText) (v : Scalar) : Prop :=
  ∃ x y, luaEvaluate text (evaluateResult lua v.toLua) = .ok (.success x) ∧
    luaEvaluate text (evaluateResult lua (.table [(.integer 1, v.toLua)])) =
      .ok (.success (.array [y])) ∧
    (x = y ∨ x.eqv y = true)

section
variable {lua : Lua} {text : JsonText}

lemma luaEvaluate_tooLarge {n : Nat} {x : Json} :
    luaEvaluate text (tooLarge n) ≠ .ok (.success x) := by
  intro h
  cases h

lemma luaTableToJson_single (v : Scalar) :
    luaTableToJson lua 0 [(.integer 1, v.toLua)] = some (.array [v.toJson]) := by
  have hconvert : convertEntries lua 1 [(.integer 1, v.toLua)] = some (indexed 1 [v.toJson]) := by
    cases v <;> rfl
  rw [luaTableToJson, hconvert, map_some, assemble_indexed (cons_ne_nil _ _)]

lemma luaEvaluate_table (v : Scalar) (h : (array [v.toJson]).encode.length ≤ maxReturnValueSize) :
    luaEvaluate text (evaluateResult lua (.table [(.integer 1, v.toLua)])) =
    .ok (.success (.array [v.toJson])) := by
  rw [evaluateResult, luaTableToJson_single]
  simp only [limited, if_neg (Nat.not_lt.mpr h)]
  rfl

lemma eq_toJson_of_table {v : Scalar} {y : Json}
    (h : luaEvaluate text (evaluateResult lua (.table [(.integer 1, v.toLua)])) =
    .ok (.success (.array [y]))) : y = v.toJson := by
  by_cases hsize : (array [v.toJson]).encode.length ≤ maxReturnValueSize
  · rw [luaEvaluate_table v hsize] at h
    cases h
    rfl
  · rw [evaluateResult, luaTableToJson_single] at h
    simp only [limited, if_pos (Nat.lt_of_not_le hsize)] at h
    exact absurd h luaEvaluate_tooLarge

lemma luaEvaluate_text_iff {s : Octets} {x : Json} :
    luaEvaluate text (evaluateResult.text s) = .ok (.success x) ↔
    (scalarResult (.string s) (ascii "string")).encode.length ≤ maxReturnValueSize ∧
    x = (text.parse s).getD (.string s) := by
  rw [evaluateResult.text, limited]
  split_ifs with hsize
  · constructor
    · intro h
      exact absurd h luaEvaluate_tooLarge
    · omega
  · constructor
    · intro h
      cases h
      exact ⟨Nat.le_of_not_lt hsize, rfl⟩
    · rintro ⟨_, rfl⟩
      rfl

lemma length_encode_float_le (bits : UInt64) : (float bits).encode.length ≤ 9 := by
  simp only [encode, writeHead]
  cases narrow bits <;> simp

lemma length_array_le (s : Octets) : (array [.string s]).encode.length ≤
    (scalarResult (.string s) (ascii "string")).encode.length := by
  have hhead : (writeHead (.items [string s].length)).length = 1 := rfl
  have hhead' : (writeHead (.pairs [(ascii "success", boolean true),
      (ascii "value", .string s), (ascii "value_type", .string (ascii "string"))].length)).length =
        1 := rfl
  simp only [scalarResult, encode, encodeItems, encodeFields, length_append]
  omega

end

/-- A value that arrives alike: a number whose text is JSON for it, a text without NUL that is not
JSON, within the limit. -/
def Passes (lua : Lua) (text : JsonText) : Scalar → Prop
  | .boolean _ => True
  | .number bits =>
    (scalarResult (.string (cString (lua.numberText bits))) (ascii "string")).encode.length ≤
        maxReturnValueSize ∧
      ∃ j, text.parse (cString (lua.numberText bits)) = some j ∧
        (j = .float bits ∨ j.eqv (.float bits) = true)
  | .string s =>
    0 ∉ s ∧ text.parse s = none ∧
      (scalarResult (.string s) (ascii "string")).encode.length ≤ maxReturnValueSize

section
variable {lua : Lua} {text : JsonText}

lemma agrees_boolean (b : Bool) : Agrees lua text (.boolean b) := by
  have hscalar : (scalarResult (.boolean b) (ascii "boolean")).encode.length ≤
      maxReturnValueSize := by cases b <;> decide
  have htable : (array [.boolean b]).encode.length ≤ maxReturnValueSize := by
    cases b <;> decide
  refine ⟨.boolean b, .boolean b, ?_, luaEvaluate_table (.boolean b) htable, Or.inl rfl⟩
  simp only [Scalar.toLua, evaluateResult, limited, if_neg (Nat.not_lt.mpr hscalar)]
  rfl

lemma agrees_number_iff (bits : UInt64) :
    Agrees lua text (.number bits) ↔ Passes lua text (.number bits) := by
  constructor
  · rintro ⟨x, y, hx, hy, hequal⟩
    obtain ⟨hsize, rfl⟩ := luaEvaluate_text_iff.mp hx
    have hy : y = .float bits := eq_toJson_of_table hy
    subst hy
    refine ⟨hsize, ?_⟩
    cases hparse : text.parse (cString (lua.numberText bits)) with
    | some j =>
      rw [hparse] at hequal
      exact ⟨j, rfl, hequal⟩
    | none =>
      rw [hparse] at hequal
      rcases hequal with h | h <;> cases h
  · rintro ⟨hsize, j, hparse, hequal⟩
    have htable : (array [.float bits]).encode.length ≤ maxReturnValueSize := by
      have hfloat := length_encode_float_le bits
      have hhead : (writeHead (.items [float bits].length)).length = 1 := rfl
      have hmax : 10 ≤ maxReturnValueSize := by decide
      simp only [encode, encodeItems, length_append, length_nil]
        at hfloat ⊢
      omega
    refine ⟨j, .float bits, luaEvaluate_text_iff.mpr ⟨hsize, ?_⟩,
      luaEvaluate_table (.number bits) htable, hequal⟩
    rw [hparse, getD_some]

lemma agrees_string_iff (s : Octets) :
    Agrees lua text (.string s) ↔ Passes lua text (.string s) := by
  constructor
  · rintro ⟨x, y, hx, hy, hequal⟩
    obtain ⟨hsize, rfl⟩ := luaEvaluate_text_iff.mp hx
    have hy : y = .string s := eq_toJson_of_table hy
    subst hy
    have hequal : (text.parse (cString s)).getD (.string (cString s)) = .string s := by
      rcases hequal with h | h
      · exact h
      · exact eqv_string_iff.mp h
    cases hparse : text.parse (cString s) with
    | some =>
      -- a text with quotes is longer than what is between them
      rw [hparse, getD_some] at hequal
      have hlt := text.length_lt (hequal ▸ hparse)
      have hle : (cString s).length ≤ s.length := (takeWhile_sublist _).length_le
      omega
    | none =>
      rw [hparse] at hequal
      have hs : cString s = s := string.inj hequal
      rw [hs] at hparse hsize
      exact ⟨hs ▸ not_mem_cString, hparse, hsize⟩
  · rintro ⟨hnul, hparse, hsize⟩
    have hs : cString s = s := cString_eq hnul
    refine ⟨.string s, .string s, luaEvaluate_text_iff.mpr ?_,
      luaEvaluate_table (.string s) ((length_array_le s).trans hsize), Or.inl rfl⟩
    rw [hs, hparse]
    exact ⟨hsize, rfl⟩

/-- Whether a value is received in the same way on its own and in a table. -/
theorem agrees_iff (lua : Lua) (text : JsonText) (v : Scalar) :
    Agrees lua text v ↔ Passes lua text v := by
  cases v with
  | boolean b => exact ⟨fun _ => trivial, fun _ => agrees_boolean b⟩
  | number bits => exact agrees_number_iff bits
  | string s => exact agrees_string_iff s

end

def trueText : JsonText where
  parse text := if text = ascii "true" then some (.boolean true) else none
  length_lt := by
    intro text s h
    split_ifs at h
    cases h

/-- The text `true` is received as a truth value, but as a text in a table. -/
theorem true_not_agrees : ¬ Agrees someLua trueText (.string (ascii "true")) := by
  rintro ⟨x, y, hx, hy, hequal⟩
  obtain ⟨_, rfl⟩ := luaEvaluate_text_iff.mp hx
  have hy : y = .string (ascii "true") := eq_toJson_of_table hy
  subst hy
  rcases hequal with h | h <;> cases h

/-- What the loop over the arguments pushes: signed numbers of 64 bits, and C strings. -/
def pushArgument : Json → Option LuaValue
  | .string s => some (.string (cString s))
  | .boolean b => some (.boolean b)
  | .integer n => some (.number (doubleOfInt n))
  | .unsigned n => some (.number (doubleOfInt (Int.bmod n (2 ^ 64))))
  | .float bits => some (.number bits)
  | .object fields => pushJsonAsLua 0 (.object fields)
  | .array items => pushJsonAsLua 0 (.array items)
  | .null | .binary _ => some .nil

def IsScalar : Json → Prop
  | .string _ | .boolean _ | .integer _ | .float _ => True
  | .unsigned n => n < 2 ^ 64
  | _ => False

def Fits : Json → Prop
  | .string s => 0 ∉ s
  | .unsigned n => n < 2 ^ 63
  | _ => True

lemma doubleOfNat_lt {n : Nat} (h : n < 2 ^ 64) : (doubleOfNat n).toNat < 2 ^ 63 := by
  have hofNat {m : Nat} (hm : m < 2 ^ 63) : (UInt64.ofNat m).toNat < 2 ^ 63 := by
    rw [UInt64.toNat_ofNat']
    omega
  rw [doubleOfNat]
  split_ifs with hzero
  · decide
  have hlog : n.log2 < 64 := (Nat.log2_lt hzero).mpr h
  have hn : n < 2 ^ (n.log2 + 1) := Nat.lt_log2_self
  generalize n.log2 = e at hlog hn ⊢
  dsimp only
  by_cases he : e ≤ 52
  · have hfraction : n * 2 ^ (52 - e) < 2 ^ 53 := by
      rw [show 53 = (e + 1) + (52 - e) by omega, pow_add]
      exact Nat.mul_lt_mul_of_pos_right hn (Nat.two_pow_pos _)
    rw [if_pos he]
    exact hofNat (by omega)
  · have hquotient : n / 2 ^ (e - 52) < 2 ^ 53 := by
      apply Nat.div_lt_of_lt_mul
      rw [← pow_add, show e - 52 + 53 = e + 1 by omega]
      exact hn
    split_ifs
    · exact hofNat (by omega)
    · exact hofNat (by omega)

lemma doubleOfInt_bmod_iff {n : Nat} (h : n < 2 ^ 64) :
    doubleOfInt (Int.bmod n (2 ^ 64)) = doubleOfNat n ↔ n < 2 ^ 63 := by
  have hbmod : Int.bmod n (2 ^ 64) = if n < 2 ^ 63 then (n : Int) else n - 2 ^ 64 := by
    rw [Int.bmod_def]
    split_ifs <;> omega
  rw [hbmod, doubleOfInt]
  constructor
  · intro heq
    by_contra hlarge
    rw [if_pos (by omega)] at heq
    have hbound := doubleOfNat_lt h
    rw [← heq] at hbound
    exact absurd (Nat.left_le_or.trans_lt hbound) (by decide)
  · intro hsmall
    rw [if_pos hsmall, if_neg (by omega), Int.natAbs_natCast]

end Millennium.LuaHost
