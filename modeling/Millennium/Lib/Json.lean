import Millennium.Lib.Bytes

/-!
# JSON values, their typed accessors, and MessagePack

Values as a C++ JSON library holds them: numbers keep their sign and format, texts are any octets,
and accessors throw where the type does not fit. A MessagePack value with a map key that is no text
is discarded.
-/

namespace Millennium

open Bytes

section
variable {α β : Type} [BEq α] [LawfulBEq α] {l : List (α × β)} {a : α} {b : β}

lemma mem_of_lookup_eq_some (h : l.lookup a = some b) : (a, b) ∈ l := by
  obtain ⟨l₁, l₂, rfl, -⟩ := List.lookup_eq_some_iff.mp h
  simp

lemma not_mem_of_lookup_eq_none (h : l.lookup a = none) : a ∉ l.map Prod.fst := by
  intro ha
  obtain ⟨e, he, rfl⟩ := List.mem_map.mp ha
  have hne := List.lookup_eq_none_iff.mp h e he
  simp at hne

end

/-- A text of the program, as the octets of its literal. -/
def ascii (s : String) : Octets := s.toList.map fun c => UInt8.ofNat c.toNat

/-- A JSON value. A number with a fraction is the 64 bits of a double. -/
inductive Json where
  | null
  | boolean (b : Bool)
  | integer (n : Int)
  | unsigned (n : Nat)
  | float (bits : UInt64)
  | string (s : Octets)
  | binary (data : Octets)
  | array (items : List Json)
  | object (fields : List (Octets × Json))
  deriving Repr, Inhabited

/-- What the accessors throw, by the number of the error. -/
inductive TypeError where
  | type302
  | type306
  deriving Repr, DecidableEq

namespace Json

def contains (j : Json) (key : Octets) : Bool :=
  match j with
  | .object fields => (fields.lookup key).isSome
  | _ => false

def getString : Json → Except TypeError Octets
  | .string s => .ok s
  | _ => .error .type302

/-- A 32-bit `int` with the low bits of a number. -/
def toInt32 (n : Int) : Int := n.bmod (2 ^ 32)

/-- `get<int>()` of numbers and truth values. Doubles that no `int` holds are left to the compiler.
-/
def getInt (truncate : UInt64 → Int) : Json → Except TypeError Int
  | .integer n => .ok (toInt32 n)
  | .unsigned n => .ok (toInt32 n)
  | .float bits => .ok (toInt32 (truncate bits))
  | .boolean b => .ok b.toNat
  | _ => .error .type302

/-- `value(key, default)`: the field, converted, or the default if there is none. -/
def value {α : Type} (convert : Json → Except TypeError α) (j : Json) (key : Octets)
    (default : α) : Except TypeError α :=
  match j with
  | .object fields =>
    match fields.lookup key with
    | some field => convert field
    | none => .ok default
  | _ => .error .type306

def valueJson (j : Json) (key : Octets) (default : Json) : Except TypeError Json :=
  j.value .ok key default

def IsString (j : Json) : Prop := ∃ s, j = .string s

def IsNumeric : Json → Prop
  | .integer _ | .unsigned _ | .float _ | .boolean _ => True
  | _ => False

def FieldIs (P : Json → Prop) (j : Json) (key : Octets) : Prop :=
  ∃ fields, j = .object fields ∧ ∀ field, fields.lookup key = some field → P field

end Json

section
variable {α : Type} {j : Json} {key : Octets} {truncate : UInt64 → Int}

lemma getString_isOk_iff : (∃ s, j.getString = .ok s) ↔ j.IsString := by
  constructor
  · rintro ⟨s, hs⟩
    cases j <;> cases hs
    exact ⟨s, rfl⟩
  · rintro ⟨s, rfl⟩
    exact ⟨s, rfl⟩

lemma getInt_isOk_iff : (∃ n, j.getInt truncate = .ok n) ↔ j.IsNumeric := by
  cases j <;> simp [Json.getInt, Json.IsNumeric]

lemma value_isOk_iff {convert : Json → Except TypeError α} {default : α} :
    (∃ a, j.value convert key default = .ok a) ↔
    j.FieldIs (fun field => ∃ a, convert field = .ok a) key := by
  unfold Json.value Json.FieldIs
  constructor
  · rintro ⟨a, ha⟩
    split at ha
    · rename_i fields
      refine ⟨fields, rfl, fun field hfield => ⟨a, ?_⟩⟩
      rw [hfield] at ha
      exact ha
    · cases ha
  · rintro ⟨fields, rfl, hconvert⟩
    cases hfield : fields.lookup key with
    | none => exact ⟨default, by simp only [hfield]⟩
    | some field =>
      obtain ⟨a, ha⟩ := hconvert field hfield
      exact ⟨a, by simp only [hfield, ha]⟩

lemma Json.FieldIs.isObject {P : Json → Prop} (h : j.FieldIs P key) :
    ∃ fields, j = .object fields := by
  obtain ⟨fields, hj, -⟩ := h
  exact ⟨fields, hj⟩

lemma Json.FieldIs.mono {P Q : Json → Prop} (h : j.FieldIs P key) (hPQ : ∀ field, P field → Q field) :
    j.FieldIs Q key := by
  obtain ⟨fields, hj, hP⟩ := h
  exact ⟨fields, hj, fun field hfield => hPQ field (hP field hfield)⟩

lemma fieldIs_congr {P Q : Json → Prop} (hPQ : ∀ field, P field ↔ Q field) :
    j.FieldIs P key ↔ j.FieldIs Q key :=
  ⟨fun h => h.mono fun field => (hPQ field).mp, fun h => h.mono fun field => (hPQ field).mpr⟩

lemma valueString_isOk_iff {default : Octets} :
    (∃ s, j.value Json.getString key default = .ok s) ↔ j.FieldIs Json.IsString key :=
  value_isOk_iff.trans (fieldIs_congr fun _ => getString_isOk_iff)

lemma valueInt_isOk_iff {default : Int} :
    (∃ n, j.value (Json.getInt truncate) key default = .ok n) ↔ j.FieldIs Json.IsNumeric key :=
  value_isOk_iff.trans (fieldIs_congr fun _ => getInt_isOk_iff)

lemma valueJson_isOk {fields : List (Octets × Json)} (default : Json) :
    ∃ v, (Json.object fields).valueJson key default = .ok v :=
  value_isOk_iff.mpr ⟨fields, rfl, fun field _ => ⟨field, rfl⟩⟩

end

inductive MsgPack where
  | nil
  | boolean (b : Bool)
  | int (n : Int)
  | uint (n : Nat)
  | float (bits : UInt64)
  | str (s : Octets)
  | bin (data : Octets)
  | ext (kind : UInt8) (data : Octets)
  | array (items : List MsgPack)
  | map (fields : List (MsgPack × MsgPack))
  deriving Repr, Inhabited

/-- A field of an object that is being built; a key that is there already is overwritten. -/
def insertField (key : Octets) (v : Json) : List (Octets × Json) → List (Octets × Json)
  | [] => [(key, v)]
  | (k, w) :: rest => if k = key then (k, v) :: rest else (k, w) :: insertField key v rest

mutual

/-- `from_msgpack` without exceptions: nothing if the value is discarded. -/
def fromMsgpack : MsgPack → Option Json
  | .nil => some .null
  | .boolean b => some (.boolean b)
  | .int n => some (.integer n)
  | .uint n => some (.unsigned n)
  | .float bits => some (.float bits)
  | .str s => some (.string s)
  | .bin data => some (.binary data)
  | .ext _ data => some (.binary data)
  | .array items => (fromItems items).map .array
  | .map fields => (fromFields fields []).map .object

def fromItems : List MsgPack → Option (List Json)
  | [] => some []
  | item :: rest =>
    match fromMsgpack item, fromItems rest with
    | some j, some js => some (j :: js)
    | _, _ => none

/-- The fields of a map, after those that were read already. A key is a text. -/
def fromFields : List (MsgPack × MsgPack) → List (Octets × Json) → Option (List (Octets × Json))
  | [], read => some read
  | (.str key, v) :: rest, read =>
    match fromMsgpack v with
    | some j => fromFields rest (insertField key j read)
    | none => none
  | _ :: _, _ => none

end

end Millennium
