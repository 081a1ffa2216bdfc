import Millennium.Lib.Json

/-!
# JSON objects as maps, and equality

Reading, assigning and erasing a field, and following a path of keys. Two values are equal when they
are of one kind and hold equal things; numbers are also compared across their kinds.
-/

namespace Millennium

open Bytes List Prod

def isNaN (bits : UInt64) : Bool :=
  bits &&& 0x7FF0000000000000 == 0x7FF0000000000000 && bits &&& 0x000FFFFFFFFFFFFF != 0

/-- `==` of two doubles: the zeros are equal, and nothing is equal to what is not a number. -/
def sameDouble (a b : UInt64) : Bool :=
  !isNaN a && !isNaN b && (a == b || (a ||| b) &&& 0x7FFFFFFFFFFFFFFF == 0)

/-- The double next to a number below `2^64`, the even one of two. -/
def doubleOfNat (n : Nat) : UInt64 :=
  if n = 0 then 0
  else
    let e := n.log2
    if e ≤ 52 then UInt64.ofNat ((e + 1022) * 2 ^ 52 + n * 2 ^ (52 - e))
    else
      let q := n / 2 ^ (e - 52)
      let rest := n % 2 ^ (e - 52)
      let half := 2 ^ (e - 53)
      -- a fraction that is rounded up to the next power of two carries into the exponent
      let q := if half < rest ∨ rest = half ∧ q % 2 = 1 then q + 1 else q
      UInt64.ofNat ((e + 1022) * 2 ^ 52 + q)

def doubleOfInt (n : Int) : UInt64 :=
  if n < 0 then 0x8000000000000000 ||| doubleOfNat n.natAbs else doubleOfNat n.natAbs

namespace Json

mutual

/-- `operator==`. Unsigned numbers are converted to signed ones, integers to doubles. -/
def eqv : Json → Json → Bool
  | .null, .null => true
  | .boolean a, .boolean b => a == b
  | .integer a, .integer b => a == b
  | .unsigned a, .unsigned b => a == b
  | .float a, .float b => sameDouble a b
  | .string a, .string b => a == b
  | .binary a, .binary b => a == b
  | .array a, .array b => eqvItems a b
  | .object a, .object b => a.length == b.length && eqvFields a b
  | .integer a, .float b => sameDouble (doubleOfInt a) b
  | .float a, .integer b => sameDouble a (doubleOfInt b)
  | .unsigned a, .float b => sameDouble (doubleOfNat a) b
  | .float a, .unsigned b => sameDouble a (doubleOfNat b)
  | .unsigned a, .integer b => Int.bmod a (2 ^ 64) == b
  | .integer a, .unsigned b => a == Int.bmod b (2 ^ 64)
  | _, _ => false

def eqvItems : List Json → List Json → Bool
  | [], [] => true
  | a :: as, b :: bs => eqv a b && eqvItems as bs
  | _, _ => false

def eqvFields : List (Octets × Json) → List (Octets × Json) → Bool
  | [], _ => true
  | (key, a) :: rest, fields =>
    (match fields.lookup key with
      | some b => eqv a b
      | none => false) && eqvFields rest fields

end

/-- What the operations on objects throw, by the number of the error. -/
inductive AccessError where
  /-- `operator[]` of something that is neither an object nor null. -/
  | type305
  | type306
  | type307
  deriving Repr, DecidableEq

def isObject : Json → Bool
  | .object _ => true
  | _ => false

def isNull : Json → Bool
  | .null => true
  | _ => false

lemma eqv_null {j : Json} : eqv .null j = j.isNull := by
  cases j <;> rfl

lemma eqv_object {a b : List (Octets × Json)} :
    eqv (.object a) (.object b) = (a.length == b.length && eqvFields a b) := rfl

lemma eqv_string_iff {j : Json} {s : Octets} : eqv j (.string s) = true ↔ j = .string s := by
  constructor
  · intro h
    cases j with
    | string => exact congrArg Json.string (eq_of_beq h)
    | null | boolean | integer | unsigned | float | binary | array | object =>
      exact (Bool.false_ne_true h).elim
  · rintro rfl
    exact beq_self_eq_true s

lemma eqv_array_iff {j : Json} {items : List Json} :
    eqv j (.array items) = true ↔ ∃ items', j = .array items' ∧ eqvItems items' items = true := by
  constructor
  · intro h
    cases j with
    | array items' => exact ⟨items', rfl, h⟩
    | null | boolean | integer | unsigned | float | string | binary | object =>
      exact (Bool.false_ne_true h).elim
  · rintro ⟨items', rfl, h⟩
    exact h

lemma isNull_iff {j : Json} : j.isNull = true ↔ j = .null := by
  cases j <;> simp [isNull]

def field? (j : Json) (key : Octets) : Option Json :=
  match j with
  | .object fields => fields.lookup key
  | _ => none

/-- `j[key] = v`. Null becomes an object. -/
def assign (j : Json) (key : Octets) (v : Json) : Except AccessError Json :=
  match j with
  | .object fields => .ok (.object (insertField key v fields))
  | .null => .ok (.object [(key, v)])
  | _ => .error .type305

def eraseField (key : Octets) (fields : List (Octets × Json)) : List (Octets × Json) :=
  fields.filter fun e => e.1 ≠ key

def erase (j : Json) (key : Octets) : Except AccessError Json :=
  match j with
  | .object fields => .ok (.object (eraseField key fields))
  | _ => .error .type307

/-- `items()`: the fields of an object, an array by index, anything else but null under the empty
key. -/
def items : Json → List (Octets × Json)
  | .null => []
  | .object fields => fields
  | .array items => items.mapIdx fun i item => (ascii (toString i), item)
  | j => [([], j)]

/-- `result[k] = v` for each item, on the fields of an object. -/
def overlay (fields items : List (Octets × Json)) : List (Octets × Json) :=
  items.foldl (fun result e => insertField e.1 e.2 result) fields

def path? : Json → List Octets → Option Json
  | j, [] => some j
  | j, key :: rest => (j.field? key).bind (path? · rest)

section
variable {fields : List (Octets × Json)} {key key' : Octets} {v w j : Json}

@[simp] lemma lookup_insertField_self : (insertField key v fields).lookup key = some v := by
  induction fields with
  | nil => simp [insertField]
  | cons e rest ih =>
    obtain ⟨k, w⟩ := e
    by_cases hk : k = key
    · simp [insertField, hk]
    · have hne : (key == k) = false := by simpa using Ne.symm hk
      simp [insertField, hk, lookup_cons, hne, ih]

lemma lookup_insertField_of_ne (h : key' ≠ key) :
    (insertField key v fields).lookup key' = fields.lookup key' := by
  have hne : (key' == key) = false := by simpa using h
  induction fields with
  | nil => simp only [insertField, lookup_cons, hne]
  | cons e rest ih =>
    obtain ⟨k, w⟩ := e
    by_cases hk : k = key
    · simp [insertField, hk, lookup_cons, hne]
    · simp [insertField, hk, lookup_cons, ih]

lemma length_insertField : (insertField key v fields).length =
      if (fields.lookup key).isSome then fields.length else fields.length + 1 := by
  induction fields with
  | nil => rfl
  | cons e rest ih =>
    obtain ⟨k, w⟩ := e
    by_cases hk : k = key
    · simp [insertField, hk]
    · have hne : (key == k) = false := by simpa using Ne.symm hk
      have hlookup : ((k, w) :: rest).lookup key = rest.lookup key := by
        simp only [lookup_cons, hne]
      rw [hlookup]
      simp only [insertField, hk, if_false, length_cons, ih]
      split_ifs <;> rfl

lemma lookup_eraseField_self : (eraseField key fields).lookup key = none := by
  rw [lookup_eq_none_iff]
  intro e he
  have hne : e.1 ≠ key := by simpa using (mem_filter.mp he).2
  simpa using Ne.symm hne

lemma lookup_eraseField_of_ne (h : key' ≠ key) :
    (eraseField key fields).lookup key' = fields.lookup key' := by
  induction fields with
  | nil => rfl
  | cons e rest ih =>
    obtain ⟨k, w⟩ := e
    by_cases hk : k = key
    · subst hk
      have hne : (key' == k) = false := by simpa using h
      simp only [eraseField, filter_cons, ne_eq, lookup_cons, hne]
      exact ih
    · simp only [eraseField, filter_cons, ne_eq, hk, not_false_eq_true, decide_true, if_true,
        lookup_cons]
      simp only [eraseField] at ih
      rw [ih]

lemma length_eraseField_le : (eraseField key fields).length ≤ fields.length :=
  length_filter_le _ _

@[simp] lemma field?_object : (Json.object fields).field? key = fields.lookup key := rfl

lemma contains_eq : j.contains key = (j.field? key).isSome := by
  cases j <;> rfl

lemma field?_eq_none (h : j.isObject = false) : j.field? key = none := by
  cases j <;> first | rfl | cases h

@[simp] lemma path?_nil : j.path? [] = some j := rfl

lemma path?_cons {rest : List Octets} :
    j.path? (key :: rest) = (j.field? key).bind (path? · rest) := rfl

lemma exists_object (h : j.isObject = true) : ∃ fields, j = .object fields := by
  cases j <;> first | exact ⟨_, rfl⟩ | cases h

end

section
variable {fields items : List (Octets × Json)} {key key' : Octets} {v w : Json}

lemma insertField_insertField :
    insertField key v (insertField key w fields) = insertField key v fields := by
  induction fields with
  | nil => simp [insertField]
  | cons e rest ih =>
    obtain ⟨k, u⟩ := e
    by_cases hk : k = key
    · simp [insertField, hk]
    · simp [insertField, hk, ih]

lemma mem_insertField {e : Octets × Json} (h : e ∈ insertField key v fields) :
    e = (key, v) ∨ e ∈ fields := by
  induction fields with
  | nil => exact Or.inl (mem_singleton.mp h)
  | cons e' rest ih =>
    rw [insertField] at h
    split_ifs at h with heq
    · rcases mem_cons.mp h with h | h
      · exact Or.inl (heq ▸ h)
      · exact Or.inr (mem_cons_of_mem _ h)
    · rcases mem_cons.mp h with h | h
      · exact Or.inr (h ▸ mem_cons_self)
      · exact (ih h).imp id (mem_cons_of_mem _)

lemma insertField_comm (hne : key' ≠ key) (h : key ∈ fields.map fst) :
    insertField key v (insertField key' w fields) =
    insertField key' w (insertField key v fields) := by
  induction fields with
  | nil => cases h
  | cons e rest ih =>
    obtain ⟨k, u⟩ := e
    by_cases hk : k = key
    · subst hk
      simp [insertField, hne.symm]
    · have hrest : key ∈ rest.map fst := by
        simpa [Ne.symm hk] using h
      by_cases hk' : k = key'
      · subst hk'
        simp [insertField, hk]
      · simp [insertField, hk, hk', ih hrest]

lemma mem_keys_insertField (h : key' ∈ fields.map fst ∨ key' = key) :
    key' ∈ (insertField key v fields).map fst := by
  induction fields with
  | nil =>
    rcases h with h | rfl
    · cases h
    · simp [insertField]
  | cons e =>
    obtain ⟨k, u⟩ := e
    by_cases hk : k = key
    · simp only [insertField, hk, if_true, map_cons, mem_cons] at h ⊢
      tauto
    · simp only [insertField, hk, if_false, map_cons, mem_cons] at h ⊢
      tauto

lemma overlay_insertField_of_mem (hfields : key ∈ fields.map fst) (hitems : key ∉ items.map fst) :
    overlay (insertField key v fields) items = insertField key v (overlay fields items) := by
  induction items generalizing fields with
  | nil => rfl
  | cons e rest ih =>
    obtain ⟨k, u⟩ := e
    simp only [map_cons, mem_cons, not_or] at hitems
    have hstep : overlay (insertField k u (insertField key v fields)) rest =
        insertField key v (overlay (insertField k u fields) rest) := by
      rw [← insertField_comm (Ne.symm hitems.1) hfields]
      exact ih (mem_keys_insertField (Or.inl hfields)) hitems.2
    exact hstep

lemma overlay_insertField (h : (items.map fst).Nodup) :
    overlay fields (insertField key v items) = insertField key v (overlay fields items) := by
  induction items generalizing fields with
  | nil => rfl
  | cons e rest ih =>
    obtain ⟨k, u⟩ := e
    rw [map_cons, nodup_cons] at h
    by_cases hk : k = key
    · subst hk
      have hfirst : k ∈ (insertField k u fields).map fst :=
        mem_keys_insertField (Or.inr rfl)
      calc overlay fields (insertField k v ((k, u) :: rest))
          = overlay (insertField k v (insertField k u fields)) rest := by
            rw [insertField_insertField]
            simp [insertField, overlay]
        _ = insertField k v (overlay (insertField k u fields) rest) :=
            overlay_insertField_of_mem hfirst h.1
    · have hcons : insertField key v ((k, u) :: rest) = (k, u) :: insertField key v rest := by
        simp [insertField, hk]
      rw [hcons]
      exact ih h.2

lemma insertField_of_not_mem
    (h : key ∉ fields.map fst) : insertField key v fields = fields ++ [(key, v)] := by
  induction fields with
  | nil => rfl
  | cons e rest ih =>
    simp only [map_cons, mem_cons, not_or] at h
    rw [insertField, if_neg (Ne.symm h.1), ih h.2, cons_append]

lemma overlay_eq_append (h : ((fields ++ items).map fst).Nodup) :
    overlay fields items = fields ++ items := by
  induction items generalizing fields with
  | nil => exact (append_nil fields).symm
  | cons e rest ih =>
    have hkey : e.1 ∉ fields.map fst := by
      intro hmem
      rw [map_append, nodup_append] at h
      exact h.2.2 _ hmem _ mem_cons_self rfl
    have happend : fields ++ e :: rest = (fields ++ [e]) ++ rest := by simp
    rw [happend] at h ⊢
    rw [← ih h, overlay, foldl_cons, insertField_of_not_mem hkey]
    rfl

lemma mem_overlay {e : Octets × Json} (h : e ∈ overlay fields items) : e ∈ fields ∨ e ∈ items := by
  induction items generalizing fields with
  | nil => exact Or.inl h
  | cons e' rest ih =>
    rcases ih h with h | h
    · rcases mem_insertField h with rfl | h
      · exact Or.inr mem_cons_self
      · exact Or.inl h
    · exact Or.inr (mem_cons_of_mem e' h)

lemma lookup_overlay (h : (items.map fst).Nodup) :
    (overlay fields items).lookup key = (items.lookup key).or (fields.lookup key) := by
  induction items generalizing fields with
  | nil => rfl
  | cons e rest ih =>
    obtain ⟨k, u⟩ := e
    rw [map_cons, nodup_cons] at h
    have hrest : (overlay fields ((k, u) :: rest)).lookup key =
        (rest.lookup key).or ((insertField k u fields).lookup key) := ih h.2
    rw [hrest, lookup_cons]
    by_cases hk : key = k
    · have hnone : rest.lookup key = none := by
        rw [hk]
        cases hlookup : rest.lookup k with
        | none => rfl
        | some =>
          exact absurd (mem_map.mpr ⟨_, mem_of_lookup_eq_some hlookup, rfl⟩) h.1
      rw [hnone, hk, lookup_insertField_self, beq_self_eq_true]
      rfl
    · rw [lookup_insertField_of_ne hk, beq_eq_false_iff_ne.mpr hk]

lemma nodup_insertField (h : (fields.map fst).Nodup) :
    ((insertField key v fields).map fst).Nodup := by
  by_cases hmem : key ∈ fields.map fst
  · have hkeys : (insertField key v fields).map fst = fields.map fst := by
      clear h
      induction fields with
      | nil => cases hmem
      | cons e rest ih =>
        obtain ⟨k, w⟩ := e
        by_cases hk : k = key
        · simp [insertField, hk]
        · have hrest : key ∈ rest.map fst := by simpa [Ne.symm hk] using hmem
          simp [insertField, hk, ih hrest]
    rwa [hkeys]
  · rw [insertField_of_not_mem hmem, map_append, nodup_append]
    refine ⟨h, by simp, ?_⟩
    intro a ha b hb hab
    rw [map_singleton, mem_singleton] at hb
    rw [hab, hb] at ha
    exact hmem ha

lemma nodup_overlay (h : (fields.map fst).Nodup) : ((overlay fields items).map fst).Nodup := by
  induction items generalizing fields with
  | nil => exact h
  | cons e rest ih => exact ih (nodup_insertField h)

end

end Json

end Millennium
