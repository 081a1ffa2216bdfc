import Mathlib.Data.List.Nodup
import Mathlib.Data.List.Perm.Basic
import Mathlib.Data.List.TakeWhile
import Millennium.Lib.JsonObject

/-!
# JSON and Lua values

`push_json_as_lua` turns arguments into Lua values, `lua_value_to_json` turns results back. A table
is an array if its keys are the numbers from one to the number of its entries. A key of an object
ends at its first NUL.
-/

namespace Millennium.LuaHost

open Bytes List Prod Json Option

/-- A key of a table. A number that is integral is an integer. -/
inductive LuaKey where
  | integer (i : Int)
  | number (bits : UInt64)
  | string (s : Octets)
  | other (id : Nat)
  deriving Repr, DecidableEq

/-- A Lua value. A table is the list of its entries, a number the 64 bits of a double. -/
inductive LuaValue where
  | nil
  | boolean (b : Bool)
  | number (bits : UInt64)
  | string (s : Octets)
  | lightUserdata (pointer : Nat)
  | table (entries : List (LuaKey × LuaValue))
  | other

def setEntry (key : LuaKey) (v : LuaValue) :
    List (LuaKey × LuaValue) → List (LuaKey × LuaValue)
  | [] => [(key, v)]
  | (k, w) :: rest => if k = key then (k, v) :: rest else (k, w) :: setEntry key v rest

def assignEntry (key : LuaKey) (v : LuaValue) (entries : List (LuaKey × LuaValue)) :
    List (LuaKey × LuaValue) :=
  match v with
  | .nil => entries.filter fun e => e.1 ≠ key
  | v => setEntry key v entries

/-- What a function that takes a C string sees of a text. -/
def cString (s : Octets) : Octets := s.takeWhile (· ≠ 0)

/-- How Lua goes through a table, and how it prints numbers. -/
structure Lua where
  order : List (LuaKey × Option Json) → List (LuaKey × Option Json)
  order_perm : ∀ entries, (order entries).Perm entries
  integerText : Int → Octets
  numberText : UInt64 → Octets

def maxTableDepth : Nat := 64

def atDepth {α : Type} (depth : Nat) (a : Option α) : Option α :=
  if maxTableDepth < depth then none else a

mutual

def pushJsonAsLua (depth : Nat) : Json → Option LuaValue
  | .null => atDepth depth (some (.lightUserdata 0))
  | .boolean b => atDepth depth (some (.boolean b))
  | .integer n => atDepth depth (some (.number (doubleOfInt n)))
  | .unsigned n => atDepth depth (some (.number (doubleOfNat n)))
  | .float bits => atDepth depth (some (.number bits))
  | .string s => atDepth depth (some (.string s))
  | .binary _ => atDepth depth (some .nil)
  | .array items => atDepth depth ((pushItems (depth + 1) 1 [] items).map .table)
  | .object fields => atDepth depth ((pushFields (depth + 1) [] fields).map .table)

def pushItems (depth : Nat) (i : Int) (table : List (LuaKey × LuaValue)) :
    List Json → Option (List (LuaKey × LuaValue))
  | [] => some table
  | elem :: rest =>
    match pushJsonAsLua depth elem with
    | none => none
    | some v => pushItems depth (i + 1) (assignEntry (.integer i) v table) rest

def pushFields (depth : Nat) (table : List (LuaKey × LuaValue)) :
    List (Octets × Json) → Option (List (LuaKey × LuaValue))
  | [] => some table
  | (key, value) :: rest =>
    match pushJsonAsLua depth value with
    | none => none
    | some v => pushFields depth (assignEntry (.string (cString key)) v table) rest

end

structure Scan where
  maxIndex : Int := 0
  count : Nat := 0
  isArray : Bool := true

def Scan.next (s : Scan) (key : LuaKey) : Scan :=
  let index? := match key with
    | .integer i => if 1 ≤ i then some i else none
    | _ => none
  match s.isArray, index? with
  | true, some i => { s with maxIndex := max s.maxIndex i, count := s.count + 1 }
  | _, _ => { s with isArray := false, count := s.count + 1 }

def scan (keys : List LuaKey) : Scan := keys.foldl Scan.next {}

section
variable (lua : Lua)

def keyText : LuaKey → Option Octets
  | .string s => some s
  | .integer i => some (lua.integerText i)
  | .number bits => some (lua.numberText bits)
  | .other _ => none

def addEntry (obj : List (Octets × Json)) (e : LuaKey × Option Json) : List (Octets × Json) :=
  match keyText lua e.1, e.2 with
  | some key, some v => insertField key v obj
  | _, _ => obj

/-- What `lua_table_to_json` makes of entries. What is not supported is null in an array, and
dropped in an object. -/
def assemble (entries : List (LuaKey × Option Json)) : Json :=
  let ordered := lua.order entries
  let s := scan (ordered.map fst)
  if s.isArray && 0 < s.count && s.maxIndex == s.count then
    .array ((List.range s.count).map fun i =>
      ((entries.lookup (.integer (i + 1))).bind id).getD .null)
  else .object (ordered.foldl (addEntry lua) [])

mutual

/-- `lua_value_to_json`: nothing if it throws, and no value if the type is not supported. -/
def luaValueToJson (depth : Nat) : LuaValue → Option (Option Json)
  | .nil => atDepth depth (some (some .null))
  | .boolean b => atDepth depth (some (some (.boolean b)))
  | .number bits => atDepth depth (some (some (.float bits)))
  | .string s => atDepth depth (some (some (.string s)))
  | .lightUserdata pointer => atDepth depth (some (if pointer = 0 then some .null else none))
  | .table entries =>
    atDepth depth ((convertEntries (depth + 1) entries).map fun converted =>
      some (assemble lua converted))
  | .other => atDepth depth (some none)

/-- The values of a table. That of a key which is dropped is not converted. -/
def convertEntries (depth : Nat) :
    List (LuaKey × LuaValue) → Option (List (LuaKey × Option Json))
  | [] => some []
  | (.other id, _) :: rest =>
    match convertEntries depth rest with
    | none => none
    | some converted => some ((.other id, none) :: converted)
  | (key, v) :: rest =>
    match luaValueToJson depth v, convertEntries depth rest with
    | some j, some converted => some ((key, j) :: converted)
    | _, _ => none

end

def luaTableToJson (depth : Nat) (entries : List (LuaKey × LuaValue)) : Option Json :=
  (convertEntries lua (depth + 1) entries).map (assemble lua)

end

mutual

/-- Numbers are doubles, there are no binary values, and no key is there twice. -/
def Plain : Json → Prop
  | .integer _ | .unsigned _ | .binary _ => False
  | .array items => PlainItems items
  | .object fields => (fields.map fst).Nodup ∧ PlainFields fields
  | _ => True

def PlainItems : List Json → Prop
  | [] => True
  | item :: rest => Plain item ∧ PlainItems rest

def PlainFields : List (Octets × Json) → Prop
  | [] => True
  | (_, v) :: rest => Plain v ∧ PlainFields rest

end

mutual

def nesting : Json → Nat
  | .array items => nestingItems items
  | .object fields => nestingFields fields
  | _ => 0

def nestingItems : List Json → Nat
  | [] => 0
  | item :: rest => max (nesting item + 1) (nestingItems rest)

def nestingFields : List (Octets × Json) → Nat
  | [] => 0
  | (_, v) :: rest => max (nesting v + 1) (nestingFields rest)

end

mutual

def NulFree : Json → Prop
  | .array items => NulFreeItems items
  | .object fields => NulFreeFields fields
  | _ => True

def NulFreeItems : List Json → Prop
  | [] => True
  | item :: rest => NulFree item ∧ NulFreeItems rest

def NulFreeFields : List (Octets × Json) → Prop
  | [] => True
  | (key, v) :: rest => 0 ∉ key ∧ NulFree v ∧ NulFreeFields rest

end

mutual

/-- The same up to the order of keys, and to what is empty being an array or an object. -/
def Same (j' : Json) : Json → Prop
  | .array items => j' = .object [] ∧ items = [] ∨ ∃ items', j' = .array items' ∧ SameItems items' items
  | .object fields => j' = .array [] ∧ fields = [] ∨
      ∃ fields', j' = .object fields' ∧
        (fields'.map fst).Perm (fields.map fst) ∧ SameFields fields' fields
  | j => j' = j

def SameItems (items' : List Json) : List Json → Prop
  | [] => items' = []
  | item :: rest => ∃ item' rest', items' = item' :: rest' ∧ Same item' item ∧ SameItems rest' rest

def SameFields (fields' : List (Octets × Json)) : List (Octets × Json) → Prop
  | [] => True
  | (key, v) :: rest =>
    (∃ v', fields'.lookup key = some v' ∧ Same v' v) ∧ SameFields fields' rest

end

/-- What is pushed is read back as the same value. -/
def Survives (lua : Lua) (j : Json) : Prop :=
  ∃ v j', pushJsonAsLua 0 j = some v ∧ luaValueToJson lua 0 v = some (some j') ∧ Same j' j

section
variable {keys : List LuaKey} {s : Scan} {n : Int}

lemma foldl_next_integers (hs : s.isArray = true) (hmax : s.maxIndex ≤ n)
    (hkeys : ∀ key ∈ keys, ∃ i, key = .integer i ∧ 1 ≤ i ∧ i ≤ n) :
    (keys.foldl Scan.next s).isArray = true ∧
    (keys.foldl Scan.next s).count = s.count + keys.length ∧
    (keys.foldl Scan.next s).maxIndex ≤ n ∧
    s.maxIndex ≤ (keys.foldl Scan.next s).maxIndex ∧
    ∀ i, .integer i ∈ keys → i ≤ (keys.foldl Scan.next s).maxIndex := by
  induction keys generalizing s with
  | nil => exact ⟨hs, rfl, hmax, le_rfl, fun i hi => absurd hi not_mem_nil⟩
  | cons key rest ih =>
    obtain ⟨i, rfl, hpos, hle⟩ := hkeys key mem_cons_self
    have hnext : s.next (.integer i) =
        { s with maxIndex := max s.maxIndex i, count := s.count + 1 } := by
      simp only [Scan.next, hs, if_pos hpos]
    obtain ⟨harray, hcount, hupper, hlower, hall⟩ := ih (s := s.next (.integer i))
      (by rw [hnext]; exact hs) (by rw [hnext]; exact max_le hmax hle)
      (fun key hkey => hkeys key (mem_cons_of_mem _ hkey))
    have hnextMax : (s.next (.integer i)).maxIndex = max s.maxIndex i := by rw [hnext]
    have hnextCount : (s.next (.integer i)).count = s.count + 1 := by rw [hnext]
    rw [hnextMax] at hlower
    rw [foldl_cons]
    refine ⟨harray, ?_, hupper, (le_max_left _ _).trans hlower, ?_⟩
    · rw [hcount, length_cons]
      omega
    · intro k hk
      rcases mem_cons.mp hk with heq | hk
      · cases heq
        exact (le_max_right _ _).trans hlower
      · exact hall k hk

lemma foldl_next_other (h : s.isArray = false ∨ ∃ key ∈ keys, ∀ i, key ≠ .integer i) :
    (keys.foldl Scan.next s).isArray = false := by
  induction keys generalizing s with
  | nil =>
    rcases h with h | ⟨key, hkey, _⟩
    · exact h
    · cases hkey
  | cons key rest ih =>
    apply ih
    rcases h with h | ⟨key', hkey', hne⟩
    · left
      simp only [Scan.next, h]
    · rcases mem_cons.mp hkey' with rfl | hkey'
      · left
        cases key' with
        | integer i => exact absurd rfl (hne i)
        | number | string | other => cases hs : s.isArray <;> simp only [Scan.next, hs]
      · exact Or.inr ⟨key', hkey', hne⟩

end

def indexed (i : Int) : List Json → List (LuaKey × Option Json)
  | [] => []
  | j :: rest => (.integer i, some j) :: indexed (i + 1) rest

section
variable {lua : Lua} {i : Int} {items : List Json} {key : LuaKey}

lemma mem_keys_indexed :
    key ∈ (indexed i items).map fst ↔ ∃ k : Nat, k < items.length ∧ key = .integer (i + k) := by
  induction items generalizing i with
  | nil => simp [indexed]
  | cons j rest ih =>
    rw [indexed, map_cons, mem_cons, ih, length_cons]
    constructor
    · rintro (rfl | ⟨k, hk, rfl⟩)
      · exact ⟨0, by omega, by simp⟩
      · exact ⟨k + 1, by omega, by congr 1; omega⟩
    · rintro ⟨k, hk, rfl⟩
      cases k with
      | zero => exact Or.inl (by simp)
      | succ k => exact Or.inr ⟨k, by omega, by congr 1; omega⟩

lemma lookup_indexed {k : Nat} (hk : k < items.length) :
    (indexed i items).lookup (.integer (i + k)) = some (some items[k]) := by
  induction items generalizing i k with
  | nil => simp at hk
  | cons j rest ih =>
    cases k with
    | zero => simp [indexed]
    | succ k =>
      have hne : (LuaKey.integer (i + (k + 1 : Nat)) == LuaKey.integer i) = false := by
        simp
        omega
      have hshift : i + (k + 1 : Nat) = i + 1 + k := by omega
      rw [indexed, lookup_cons, hne, hshift]
      exact ih (Nat.lt_of_succ_lt_succ hk)

lemma length_indexed : (indexed i items).length = items.length := by
  induction items generalizing i with
  | nil => rfl
  | cons j rest ih => rw [indexed, length_cons, length_cons, ih]

lemma assemble_indexed (h : items ≠ []) : assemble lua (indexed 1 items) = .array items := by
  have hperm := (lua.order_perm (indexed 1 items)).map fst
  have hpos : 0 < items.length := length_pos_iff.mpr h
  have hkeys : ∀ key ∈ (lua.order (indexed 1 items)).map fst,
      ∃ i, key = .integer i ∧ 1 ≤ i ∧ i ≤ (items.length : Int) := by
    intro key hkey
    obtain ⟨k, hk, rfl⟩ := mem_keys_indexed.mp (hperm.mem_iff.mp hkey)
    exact ⟨_, rfl, by omega, by omega⟩
  obtain ⟨harray, hcount, hupper, _, hall⟩ :=
    foldl_next_integers (s := {}) rfl (Int.natCast_nonneg _) hkeys
  have hlast : (.integer items.length) ∈ (lua.order (indexed 1 items)).map fst := by
    rw [hperm.mem_iff, mem_keys_indexed]
    exact ⟨items.length - 1, by omega, by congr 1; omega⟩
  have hmax := le_antisymm hupper (hall _ hlast)
  have hlen : ((lua.order (indexed 1 items)).map fst).length = items.length := by
    rw [hperm.length_eq, length_map, length_indexed]
  rw [hlen, Nat.zero_add] at hcount
  rw [assemble, scan, harray, hcount, hmax]
  simp only [Bool.true_and, decide_eq_true hpos, beq_self_eq_true, if_true]
  congr 1
  apply ext_getElem
  · simp
  · intro k hk hk'
    have hlookup := lookup_indexed (i := 1) hk'
    rw [add_comm] at hlookup
    simp [hlookup]

end

def stringEntry (e : Octets × Json) : LuaKey × Option Json := (.string e.1, some e.2)

def stringField : LuaKey × Option Json → Option (Octets × Json)
  | (.string key, some v) => some (key, v)
  | _ => none

section
variable (lua : Lua) {fields : List (Octets × Json)}

lemma foldl_addEntry {entries : List (LuaKey × Option Json)} {obj : List (Octets × Json)}
    (h : ∀ e ∈ entries, ∃ field, e = stringEntry field) :
    entries.foldl (addEntry lua) obj = overlay obj (entries.filterMap stringField) := by
  induction entries generalizing obj with
  | nil => rfl
  | cons e rest ih =>
    obtain ⟨field, rfl⟩ := h e mem_cons_self
    exact ih fun e he => h e (mem_cons_of_mem _ he)

lemma assemble_nil : assemble lua [] = .object [] := by
  have horder : lua.order [] = [] := perm_nil.mp (lua.order_perm [])
  rw [assemble, horder]
  rfl

lemma assemble_strings (hnodup : (fields.map fst).Nodup) :
    ∃ fields', assemble lua (fields.map stringEntry) = .object fields' ∧ fields'.Perm fields := by
  have hperm := lua.order_perm (fields.map stringEntry)
  have hents : ∀ e ∈ lua.order (fields.map stringEntry), ∃ field, e = stringEntry field := by
    intro e he
    obtain ⟨field, _, rfl⟩ := mem_map.mp (hperm.mem_iff.mp he)
    exact ⟨field, rfl⟩
  have hfields : ((lua.order (fields.map stringEntry)).filterMap stringField).Perm fields := by
    have hback : (fields.map stringEntry).filterMap stringField = fields := by
      rw [filterMap_map]
      exact filterMap_some
    have hmapped := hperm.filterMap stringField
    rwa [hback] at hmapped
  have hobject : (scan ((lua.order (fields.map stringEntry)).map fst)).isArray = false ∨
      (scan ((lua.order (fields.map stringEntry)).map fst)).count = 0 := by
    cases horder : lua.order (fields.map stringEntry) with
    | nil => exact Or.inr rfl
    | cons e =>
      obtain ⟨field, rfl⟩ := hents e (horder ▸ mem_cons_self)
      refine Or.inl (foldl_next_other (Or.inr ⟨.string field.1, mem_cons_self, ?_⟩))
      intro i hi
      cases hi
  refine ⟨_, ?_, hfields⟩
  have hnot : ¬ ((scan ((lua.order (fields.map stringEntry)).map fst)).isArray &&
      0 < (scan ((lua.order (fields.map stringEntry)).map fst)).count &&
      (scan ((lua.order (fields.map stringEntry)).map fst)).maxIndex ==
        (scan ((lua.order (fields.map stringEntry)).map fst)).count) = true := by
    rcases hobject with hobject | hobject <;> simp [hobject]
  have hkeys : (([] ++ (lua.order (fields.map stringEntry)).filterMap stringField).map
      fst).Nodup := (hfields.map fst).nodup_iff.mpr hnodup
  rw [assemble]
  simp only [if_neg hnot, foldl_addEntry lua hents, overlay_eq_append hkeys, nil_append]

end

section
variable {lua : Lua} {depth : Nat} {table : List (LuaKey × LuaValue)}
  {acc : List (LuaKey × Option Json)} {fields : List (Octets × Json)} {v : LuaValue} {j : Json}

def convertEntry (lua : Lua) (depth : Nat) : LuaKey × LuaValue → Option (LuaKey × Option Json)
  | (.other id, _) => some (.other id, none)
  | (key, v) => (luaValueToJson lua depth v).map (key, ·)

lemma convertEntry_fst {e : LuaKey × LuaValue} {e' : LuaKey × Option Json}
    (h : convertEntry lua depth e = some e') : e'.1 = e.1 := by
  obtain ⟨key, w⟩ := e
  cases key with
  | other =>
    cases h
    rfl
  | _ =>
    obtain ⟨j, _, rfl⟩ := map_eq_some_iff.mp h
    rfl

lemma convertEntries_cons (e : LuaKey × LuaValue) : convertEntries lua depth (e :: table) =
    (convertEntry lua depth e).bind fun e' =>
        (convertEntries lua depth table).map (e' :: ·) := by
  obtain ⟨key, w⟩ := e
  cases key with
  | other => cases h : convertEntries lua depth table <;> simp [convertEntries, convertEntry, h]
  | _ =>
    cases hw : luaValueToJson lua depth w <;> cases h : convertEntries lua depth table <;>
      simp [convertEntries, convertEntry, hw, h]

lemma convertEntries_eq_some_iff : convertEntries lua depth table = some acc ↔
    List.Forall₂ (fun e e' => convertEntry lua depth e = some e') table acc := by
  induction table generalizing acc with
  | nil =>
    rw [forall₂_nil_left_iff]
    exact ⟨fun h => (some.inj h).symm, fun h => congrArg some h.symm⟩
  | cons e rest ih =>
    rw [convertEntries_cons, forall₂_cons_left_iff, bind_eq_some_iff]
    constructor
    · rintro ⟨e', he, h⟩
      obtain ⟨converted, hrest, rfl⟩ := map_eq_some_iff.mp h
      exact ⟨e', converted, he, ih.mp hrest, rfl⟩
    · rintro ⟨e', converted, he, hrest, rfl⟩
      exact ⟨e', he, map_eq_some_iff.mpr ⟨converted, ih.mpr hrest, rfl⟩⟩

lemma keys_convertEntries (h : convertEntries lua depth table = some acc) :
    acc.map fst = table.map fst := by
  have hents := convertEntries_eq_some_iff.mp h
  clear h
  induction hents with
  | nil => rfl
  | cons he _ ih => rw [map_cons, map_cons, convertEntry_fst he, ih]

lemma setEntry_of_not_mem {key : LuaKey} (h : key ∉ table.map fst) :
    setEntry key v table = table ++ [(key, v)] := by
  induction table with
  | nil => rfl
  | cons e rest ih =>
    simp only [map_cons, mem_cons, not_or] at h
    rw [setEntry, if_neg (Ne.symm h.1), ih h.2, cons_append]

lemma convertEntries_append {i : Int} (h : convertEntries lua depth table = some acc)
    (hv : luaValueToJson lua depth v = some (some j)) :
    convertEntries lua depth (table ++ [(.integer i, v)]) =
    some (acc ++ [(.integer i, some j)]) := by
  rw [convertEntries_eq_some_iff] at h ⊢
  have hlast : convertEntry lua depth (.integer i, v) = some (.integer i, some j) := by
    rw [convertEntry, hv]
    · rfl
    · exact fun _ => LuaKey.noConfusion
  exact rel_append h (.cons hlast .nil)

lemma convertEntries_setEntry {key : Octets}
    (h : convertEntries lua depth table = some (fields.map stringEntry))
    (hv : luaValueToJson lua depth v = some (some j)) :
    convertEntries lua depth (setEntry (.string key) v table) =
    some ((insertField key j fields).map stringEntry) := by
  rw [convertEntries_eq_some_iff] at h ⊢
  have hentry : convertEntry lua depth (.string key, v) = some (stringEntry (key, j)) := by
    rw [convertEntry, hv]
    · rfl
    · exact fun _ => LuaKey.noConfusion
  induction fields generalizing table with
  | nil =>
    rw [map_nil, forall₂_nil_right_iff] at h
    subst h
    exact .cons hentry .nil
  | cons field others ih =>
    obtain ⟨text, u⟩ := field
    rw [map_cons, forall₂_cons_right_iff] at h
    obtain ⟨⟨k, w⟩, rest, he, hrest, rfl⟩ := h
    have hkey : k = .string text := (convertEntry_fst he).symm
    subst hkey
    by_cases heq : text = key
    · subst heq
      rw [setEntry, if_pos rfl, insertField, if_pos rfl]
      exact .cons hentry hrest
    · have hne : ¬ LuaKey.string text = .string key := by simpa using heq
      rw [setEntry, if_neg hne, insertField, if_neg heq]
      exact .cons he (ih hrest)

lemma assignEntry_of_ne_nil {key : LuaKey} (h : v ≠ .nil) :
    assignEntry key v table = setEntry key v table := by
  cases v <;> first | rfl | exact absurd rfl h

end

/-- What comes back for a value: keys without NUL, and the same value if its keys are such. -/
structure Back (j' j : Json) : Prop where
  nulFree : NulFree j'
  same : NulFree j → Same j' j

structure BackItems (items' items : List Json) : Prop where
  nulFree : NulFreeItems items'
  same : NulFreeItems items → SameItems items' items

/-- What comes back for fields, under the keys that Lua sees. -/
structure BackFields (fields' fields : List (Octets × Json)) : Prop where
  keys : fields'.map fst = fields.map fun e => cString e.1
  nulFree : ∀ e ∈ fields', NulFree e.2
  same : NulFreeFields fields →
    List.Forall₂ (fun e' e => e'.1 = e.1 ∧ Same e'.2 e.2) fields' fields

section
variable {key : Octets} {fields fields' : List (Octets × Json)}

lemma not_mem_cString : 0 ∉ cString key := by
  intro h
  have hne := mem_takeWhile_imp h
  simp at hne

lemma cString_eq (h : 0 ∉ key) : cString key = key := by
  apply takeWhile_eq_self_iff.mpr
  intro b hb
  simp only [decide_eq_true_eq]
  rintro rfl
  exact h hb

lemma nulFreeFields_iff : NulFreeFields fields ↔ ∀ e ∈ fields, 0 ∉ e.1 ∧ NulFree e.2 := by
  induction fields with
  | nil => simp [NulFreeFields]
  | cons e rest ih =>
    simp [NulFreeFields, ih, and_assoc]

lemma lookup_of_mem {e : Octets × Json} (hnodup : (fields.map fst).Nodup)
    (h : e ∈ fields) : fields.lookup e.1 = some e.2 := by
  induction fields with
  | nil => cases h
  | cons e' rest ih =>
    rw [map_cons, nodup_cons] at hnodup
    rcases mem_cons.mp h with rfl | h
    · exact lookup_cons_self
    · have hne : (e.1 == e'.1) = false := by
        rw [beq_eq_false_iff_ne]
        intro heq
        exact hnodup.1 (heq ▸ mem_map_of_mem h)
      rw [lookup_cons, hne]
      exact ih hnodup.2 h

lemma sameFields_of_forall₂ {js : List (Octets × Json)}
    (hnodup : (fields'.map fst).Nodup) (hmem : ∀ e ∈ js, e ∈ fields')
    (h : List.Forall₂ (fun e' e => e'.1 = e.1 ∧ Same e'.2 e.2) js fields) :
    SameFields fields' fields := by
  induction h with
  | nil => exact trivial
  | @cons e' e js fields hfirst hrest ih =>
    refine ⟨⟨e'.2, ?_, hfirst.2⟩, ih fun e he => hmem e (mem_cons_of_mem _ he)⟩
    have hlookup := lookup_of_mem hnodup (hmem e' mem_cons_self)
    rwa [hfirst.1] at hlookup

end

section
variable {lua : Lua}

lemma atDepth_of_le {α : Type} {depth : Nat} {a : Option α} (h : depth ≤ maxTableDepth) :
    atDepth depth a = a :=
  if_neg (Nat.not_lt.mpr h)

def Trips (lua : Lua) (depth : Nat) (j : Json) : Prop :=
  ∃ v j', pushJsonAsLua depth j = some v ∧ v ≠ .nil ∧
    luaValueToJson lua depth v = some (some j') ∧ Back j' j

lemma back_scalar {j : Json} (h : NulFree j) (hsame : Same j j) : Back j j := ⟨h, fun _ => hsame⟩

lemma trips_array {depth : Nat} {items items' : List Json} {table : List (LuaKey × LuaValue)}
    (hdepth : depth ≤ maxTableDepth) (hpush : pushItems (depth + 1) 1 [] items = some table)
    (hconvert : convertEntries lua (depth + 1) table = some (indexed 1 items'))
    (hback : BackItems items' items) (hlen : items'.length = items.length) :
    Trips lua depth (.array items) := by
  refine ⟨.table table, assemble lua (indexed 1 items'), ?_, LuaValue.noConfusion, ?_, ?_⟩
  · rw [pushJsonAsLua, atDepth_of_le hdepth, hpush]
    rfl
  · rw [luaValueToJson, atDepth_of_le hdepth, hconvert]
    rfl
  · cases hitems : items' with
    | nil =>
      have hnil : items = [] := length_eq_zero_iff.mp (by rw [← hlen, hitems]; rfl)
      subst hnil
      have hempty : assemble lua (indexed 1 []) = .object [] := assemble_nil lua
      rw [hempty]
      exact ⟨trivial, fun _ => Or.inl ⟨rfl, rfl⟩⟩
    | cons item rest =>
      rw [assemble_indexed (cons_ne_nil item rest), ← hitems]
      exact ⟨hback.nulFree, fun h => Or.inr ⟨items', rfl, hback.same h⟩⟩

lemma trips_object {depth : Nat} {fields js : List (Octets × Json)}
    {table : List (LuaKey × LuaValue)} (hdepth : depth ≤ maxTableDepth)
    (hnodup : (fields.map fst).Nodup)
    (hpush : pushFields (depth + 1) [] fields = some table)
    (hconvert : convertEntries lua (depth + 1) table = some ((overlay [] js).map stringEntry))
    (hback : BackFields js fields) : Trips lua depth (.object fields) := by
  have hkeys : ((overlay [] js).map fst).Nodup := nodup_overlay nodup_nil
  obtain ⟨fields', hassemble, hperm⟩ := assemble_strings lua hkeys
  refine ⟨.table table, .object fields', ?_, LuaValue.noConfusion, ?_, ?_, ?_⟩
  · rw [pushJsonAsLua, atDepth_of_le hdepth, hpush]
    rfl
  · rw [luaValueToJson, atDepth_of_le hdepth, hconvert, ← hassemble]
    rfl
  · apply nulFreeFields_iff.mpr
    intro e he
    have hmem : e ∈ js := (mem_overlay (hperm.mem_iff.mp he)).resolve_left not_mem_nil
    have hkey : e.1 ∈ fields.map fun e => cString e.1 :=
      hback.keys ▸ mem_map_of_mem hmem
    obtain ⟨e', _, heq⟩ := mem_map.mp hkey
    exact ⟨heq ▸ not_mem_cString, hback.nulFree e hmem⟩
  · intro h
    have hsame := hback.same h
    have hjs : js.map fst = fields.map fst := by
      rw [hback.keys]
      apply map_congr_left
      intro e he
      exact cString_eq (nulFreeFields_iff.mp h e he).1
    have hoverlay : overlay [] js = js := overlay_eq_append (hjs ▸ hnodup)
    rw [hoverlay] at hperm
    refine Or.inr ⟨fields', rfl, hjs ▸ hperm.map fst, ?_⟩
    apply sameFields_of_forall₂ ((hperm.map fst).nodup_iff.mpr (hjs ▸ hnodup))
    · exact fun e he => hperm.mem_iff.mpr he
    · exact hsame

mutual

theorem trips : ∀ {j : Json} {depth : Nat}, Plain j → depth + nesting j ≤ maxTableDepth →
    Trips lua depth j
  | .null, depth, _, hdepth =>
    ⟨.lightUserdata 0, .null, atDepth_of_le hdepth, LuaValue.noConfusion, atDepth_of_le hdepth,
      back_scalar trivial rfl⟩
  | .boolean b, depth, _, hdepth =>
    ⟨.boolean b, .boolean b, atDepth_of_le hdepth, LuaValue.noConfusion, atDepth_of_le hdepth,
      back_scalar trivial rfl⟩
  | .float bits, depth, _, hdepth =>
    ⟨.number bits, .float bits, atDepth_of_le hdepth, LuaValue.noConfusion,
      atDepth_of_le hdepth, back_scalar trivial rfl⟩
  | .string s, depth, _, hdepth =>
    ⟨.string s, .string s, atDepth_of_le hdepth, LuaValue.noConfusion, atDepth_of_le hdepth,
      back_scalar trivial rfl⟩
  | .array items, depth, hplain, hdepth => by
    have hempty : convertEntries lua (depth + 1) [] = some [] := rfl
    obtain ⟨table, items', hpush, hconvert, hback, hlen⟩ :=
      trips_items (i := 1) hplain hdepth hempty (fun _ => not_mem_nil)
    exact trips_array (by omega) hpush hconvert hback hlen
  | .object fields, depth, hplain, hdepth => by
    have hempty : convertEntries lua (depth + 1) [] = some (List.map stringEntry []) := rfl
    obtain ⟨table, js, hpush, hconvert, hback⟩ := trips_fields hplain.2 hdepth hempty
    exact trips_object (by omega) hplain.1 hpush hconvert hback

theorem trips_items : ∀ {items : List Json} {depth : Nat} {i : Int}
    {table : List (LuaKey × LuaValue)} {acc : List (LuaKey × Option Json)},
    PlainItems items → depth + nestingItems items ≤ maxTableDepth →
    convertEntries lua (depth + 1) table = some acc →
    (∀ k : Nat, .integer (i + k) ∉ acc.map fst) →
    ∃ table' items', pushItems (depth + 1) i table items = some table' ∧
      convertEntries lua (depth + 1) table' = some (acc ++ indexed i items') ∧
      BackItems items' items ∧ items'.length = items.length
  | [], depth, i, table, acc, _, _, hconvert, _ =>
    ⟨table, [], rfl, by rw [hconvert, indexed, append_nil], ⟨trivial, fun _ => rfl⟩, rfl⟩
  | item :: rest, depth, i, table, acc, hplain, hdepth, hconvert, hfresh => by
    simp only [nestingItems] at hdepth
    obtain ⟨v, j', hpush, hnil, hread, hback⟩ : Trips lua (depth + 1) item :=
      trips hplain.1 (by omega)
    have hkey : .integer i ∉ table.map fst := by
      rw [← keys_convertEntries hconvert]
      simpa using hfresh 0
    have hset : convertEntries lua (depth + 1) (assignEntry (.integer i) v table) =
        some (acc ++ [(.integer i, some j')]) := by
      rw [assignEntry_of_ne_nil hnil, setEntry_of_not_mem hkey]
      exact convertEntries_append hconvert hread
    have hfresh' : ∀ k : Nat, .integer (i + 1 + k) ∉
        (acc ++ [(LuaKey.integer i, some j')]).map fst := by
      intro k
      have hk := hfresh (k + 1)
      rw [show i + (k + 1 : Nat) = i + 1 + k by push_cast; omega] at hk
      rw [map_append, mem_append, not_or]
      refine ⟨hk, ?_⟩
      simp
      omega
    obtain ⟨table', items', hpushRest, hconvertRest, hbackRest, hlen⟩ :=
      trips_items hplain.2 (by omega) hset hfresh'
    refine ⟨table', j' :: items', by rw [pushItems, hpush]; exact hpushRest, ?_,
      ⟨⟨hback.nulFree, hbackRest.nulFree⟩,
        fun h => ⟨j', items', rfl, hback.same h.1, hbackRest.same h.2⟩⟩,
      by rw [length_cons, length_cons, hlen]⟩
    rw [hconvertRest, indexed, append_assoc, singleton_append]

theorem trips_fields : ∀ {fields : List (Octets × Json)} {depth : Nat}
    {table : List (LuaKey × LuaValue)} {acc : List (Octets × Json)},
    PlainFields fields → depth + nestingFields fields ≤ maxTableDepth →
    convertEntries lua (depth + 1) table = some (acc.map stringEntry) →
    ∃ table' js, pushFields (depth + 1) table fields = some table' ∧
      convertEntries lua (depth + 1) table' = some ((overlay acc js).map stringEntry) ∧
      BackFields js fields
  | [], depth, table, acc, _, _, hconvert =>
    ⟨table, [], rfl, hconvert, rfl, fun e he => absurd he not_mem_nil, fun _ => .nil⟩
  | (key, value) :: rest, depth, table, acc, hplain, hdepth, hconvert => by
    simp only [nestingFields] at hdepth
    obtain ⟨v, j', hpush, hnil, hread, hback⟩ : Trips lua (depth + 1) value :=
      trips hplain.1 (by omega)
    have hset : convertEntries lua (depth + 1)
        (assignEntry (.string (cString key)) v table) =
          some ((insertField (cString key) j' acc).map stringEntry) := by
      rw [assignEntry_of_ne_nil hnil]
      exact convertEntries_setEntry hconvert hread
    obtain ⟨table', js, hpushRest, hconvertRest, hbackRest⟩ :=
      trips_fields hplain.2 (by omega) hset
    refine ⟨table', (cString key, j') :: js, by rw [pushFields, hpush]; exact hpushRest,
      hconvertRest, ?_, ?_, ?_⟩
    · rw [map_cons, map_cons, hbackRest.keys]
    · intro e he
      rcases mem_cons.mp he with rfl | he
      · exact hback.nulFree
      · exact hbackRest.nulFree e he
    · rintro ⟨hkey, hvalue, hrest⟩
      exact .cons ⟨cString_eq hkey, hback.same hvalue⟩ (hbackRest.same hrest)

end

end

mutual

theorem nulFree_of_same : ∀ {j j' : Json}, Same j' j → NulFree j' → NulFree j
  | .null, _, _, _ => trivial
  | .boolean _, _, _, _ => trivial
  | .integer _, _, _, _ => trivial
  | .unsigned _, _, _, _ => trivial
  | .float _, _, _, _ => trivial
  | .string _, _, _, _ => trivial
  | .binary _, _, _, _ => trivial
  | .array items, j', hsame, h => by
    rcases hsame with ⟨_, rfl⟩ | ⟨items', rfl, hitems⟩
    · exact trivial
    · exact nulFreeItems_of_same hitems h
  | .object fields, j', hsame, h => by
    rcases hsame with ⟨_, rfl⟩ | ⟨fields', rfl, hperm, hfields⟩
    · exact trivial
    · have hkeys : ∀ key ∈ fields.map fst, 0 ∉ key := by
        intro key hkey
        obtain ⟨e, he, rfl⟩ := mem_map.mp (hperm.mem_iff.mpr hkey)
        exact (nulFreeFields_iff.mp h e he).1
      exact nulFreeFields_of_same hkeys hfields (nulFreeFields_iff.mp h)

theorem nulFreeItems_of_same : ∀ {items items' : List Json}, SameItems items' items →
    NulFreeItems items' → NulFreeItems items
  | [], _, _, _ => trivial
  | item :: rest, items', hsame, h => by
    obtain ⟨item', rest', rfl, hitem, hrest⟩ := hsame
    exact ⟨nulFree_of_same hitem h.1, nulFreeItems_of_same hrest h.2⟩

theorem nulFreeFields_of_same : ∀ {fields fields' : List (Octets × Json)},
    (∀ key ∈ fields.map fst, 0 ∉ key) → SameFields fields' fields →
    (∀ e ∈ fields', 0 ∉ e.1 ∧ NulFree e.2) → NulFreeFields fields
  | [], _, _, _, _ => trivial
  | (key, v) :: rest, fields', hkeys, hsame, h => by
    obtain ⟨⟨v', hlookup, hv⟩, hrest⟩ := hsame
    have hmem := mem_of_lookup_eq_some hlookup
    refine ⟨hkeys key mem_cons_self, nulFree_of_same hv (h _ hmem).2, ?_⟩
    exact nulFreeFields_of_same (fun k hk => hkeys k (mem_cons_of_mem _ hk)) hrest h

end

/-- JSON that is not nested too deep survives the trip through Lua exactly if no key of an object has
a NUL in it. -/
theorem survives_iff (lua : Lua) {j : Json} (hplain : Plain j)
    (hdepth : nesting j ≤ maxTableDepth) : Survives lua j ↔ NulFree j := by
  obtain ⟨v, j', hpush, _, hread, hback⟩ : Trips lua 0 j := trips hplain (by omega)
  constructor
  · rintro ⟨w, k, hpush', hread', hsame⟩
    rw [hpush] at hpush'
    cases hpush'
    rw [hread] at hread'
    cases hread'
    exact nulFree_of_same hsame hback.nulFree
  · intro h
    exact ⟨v, j', hpush, hread, hback.same h⟩

def someLua : Lua where
  order entries := entries
  order_perm entries := List.Perm.refl entries
  integerText i := ascii (toString i)
  numberText _ := []

/-- An array with a null and an object that has a key of digits. -/
theorem survives_iff_example :
    Survives someLua (.array [.null, .object [(ascii "1", .boolean true)]]) ↔
      NulFree (.array [.null, .object [(ascii "1", .boolean true)]]) :=
  survives_iff someLua ⟨trivial, ⟨by decide, trivial, trivial⟩, trivial⟩ (by decide)

/-- The key `a\0b` comes back as `a`. -/
theorem nul_key_not_survives : ¬ Survives someLua (.object [([0], .boolean true)]) := by
  rintro ⟨v, j', hpush, hread, hsame⟩
  cases hpush
  cases hread
  rcases hsame with ⟨h, _⟩ | ⟨fields', hfields, _, ⟨w, hlookup, _⟩, _⟩
  · cases h
  · cases hfields
    cases hlookup

end Millennium.LuaHost
