import Millennium.Lib.JsonObject
import Millennium.Lib.Outcome

/-!
# Reading and writing the config store

`config_manager::set` makes objects of what is in its way and writes at the end of the path, unless
what is there compares equal; a missing key counts as null in that. Listeners are left out.
-/

namespace Millennium.System

open Bytes Outcome List Json

structure Segments where
  before : List Octets
  last : Octets
  deriving Repr, DecidableEq

def Segments.toList (q : Segments) : List Octets := q.before ++ [q.last]

namespace ConfigManager

def get (current : Json) (segments : List Octets) (default : Json) : Json :=
  match segments with
  | [] => default
  | [last] =>
    match current.field? last with
    | none => default
    | some v => v
  | segment :: rest =>
    match current.field? segment with
    | none => default
    | some next => get next rest default

/-- What `config_manager::set` leaves: the store, and the old value if it was replaced. -/
structure SetOutcome where
  data : Json
  replaced : Option Json

def inside (current : Json) (segment : Octets) : List (Octets × Json) :=
  match current.field? segment with
  | some (.object fields) => fields
  | _ => []

/-- `config_manager::set` from a node on: the loop over the segments, and the write at the last. -/
def setFrom (value : Json) (current : Json) (last : Octets) :
    List Octets → Except Json.AccessError SetOutcome
  | [] =>
    let current := if current.isObject then current else .object []
    let oldValue := (current.field? last).getD .null
    if oldValue.eqv value then .ok ⟨current, none⟩
    else do
      let data ← current.assign last value
      .ok ⟨data, some oldValue⟩
  | segment :: rest => do
      let next := object (inside current segment)
      -- `(*current)[*it]` throws here if the root is neither an object nor null
      let current ← current.assign segment next
      let inner ← setFrom value next last rest
      let data ← current.assign segment inner.data
      .ok ⟨data, inner.replaced⟩

def set (data : Json) (q : Segments) (value : Json) : Except Json.AccessError SetOutcome :=
  setFrom value data q.last q.before

/-- `config_manager::get_all`: the defaults, with the items of the store over them. -/
def getAll (defaults : List (Octets × Json)) (data : Json) : Json :=
  .object (overlay defaults data.items)

section
variable {current : Json} {segments : List Octets} {default : Json}

lemma get_eq (h : segments ≠ []) :
    get current segments default = (current.path? segments).getD default := by
  induction segments generalizing current with
  | nil => contradiction
  | cons segment rest ih =>
    cases rest with
    | nil => cases hfield : current.field? segment <;> simp [get, path?, hfield]
    | cons next rest =>
      cases hfield : current.field? segment with
      | none => simp [get, path?, hfield]
      | some inner =>
        have hinner : get inner (next :: rest) default = _ := ih (cons_ne_nil next rest)
        simp [get, hfield, hinner, path?_cons]

lemma get_congr {current' : Json} (h : current'.path? segments = current.path? segments) :
    get current' segments default = get current segments default := by
  by_cases hnil : segments = []
  · rw [hnil]
    rfl
  · rw [get_eq hnil, get_eq hnil, h]

end

/-- What is at the end of the path after a write: the old value if it compares equal. -/
def afterSet (old : Option Json) (value : Json) : Option Json :=
  if (old.getD .null).eqv value then old else some value

/-- A write at a path: an object, with the value at the end, unchanged where neither path goes
through the other. -/
structure Writes (current : Json) (path : List Octets) (value : Json) (data : Json) : Prop where
  isObject : data.isObject = true
  written : data.path? path = afterSet (current.path? path) value
  frame : ∀ r, ¬ path <+: r → ¬ r <+: path → data.path? r = current.path? r

section
variable {value current : Json} {last segment : Octets} {before : List Octets}

lemma writes_last (fields : List (Octets × Json)) :
    ∃ out, setFrom value (.object fields) last [] = .ok out ∧
    Writes (.object fields) [last] value out.data := by
  simp only [setFrom, isObject, if_true, field?_object]
  by_cases heq : ((fields.lookup last).getD .null).eqv value = true
  · refine ⟨⟨.object fields, none⟩, by rw [if_pos heq], rfl, ?_, fun _ _ _ => rfl⟩
    have hpath : (object fields).path? [last] = fields.lookup last := by
      simp [path?]
    rw [hpath, afterSet, if_pos heq]
  · refine ⟨⟨.object (insertField last value fields), _⟩, by rw [if_neg heq]; rfl, rfl, ?_, ?_⟩
    · have hpath : (object fields).path? [last] = fields.lookup last := by
        simp [path?]
      rw [hpath, afterSet, if_neg heq]
      simp [path?]
    · intro r hbehind hbefore
      cases r with
      | nil => exact absurd nil_prefix hbefore
      | cons key =>
        have hne : key ≠ last := by
          intro hkey
          exact hbehind (hkey ▸ cons_prefix_cons.mpr ⟨rfl, nil_prefix⟩)
        simp [path?_cons, lookup_insertField_of_ne hne]

lemma path?_inside {key : Octets} {rest : List Octets} :
    (object (inside current segment)).path? (key :: rest) =
    current.path? (segment :: key :: rest) := by
  rw [inside, show current.path? (segment :: key :: rest) =
    (current.field? segment).bind (·.path? (key :: rest)) from rfl]
  cases current.field? segment with
  | none => rfl
  | some v =>
    by_cases hobject : v.isObject = true
    · obtain ⟨fields, rfl⟩ := exists_object hobject
      rfl
    · cases v <;> rfl

lemma writes_cons {fields : List (Octets × Json)} {path : List Octets} {data : Json}
    (hpath : path ≠ [])
    (h : Writes (.object (inside (.object fields) segment)) path value data) :
    Writes (.object fields) (segment :: path) value
      (.object (insertField segment data
        (insertField segment (.object (inside (.object fields) segment)) fields))) := by
  have hself : ∀ rest, (object (insertField segment data
      (insertField segment (.object (inside (.object fields) segment)) fields))).path?
        (segment :: rest) = data.path? rest := by
    simp [path?_cons]
  refine ⟨rfl, ?_, ?_⟩
  · cases path with
    | nil => contradiction
    | cons => rw [hself, h.written, path?_inside]
  · intro r hbehind hbefore
    cases r with
    | nil => exact absurd nil_prefix hbefore
    | cons key rest =>
      by_cases hkey : key = segment
      · subst hkey
        cases rest with
        | nil => exact absurd (cons_prefix_cons.mpr ⟨rfl, nil_prefix⟩) hbefore
        | cons =>
          rw [hself, ← path?_inside]
          apply h.frame
          · intro hprefix
            exact hbehind (cons_prefix_cons.mpr ⟨rfl, hprefix⟩)
          · intro hprefix
            exact hbefore (cons_prefix_cons.mpr ⟨rfl, hprefix⟩)
      · simp [path?_cons, lookup_insertField_of_ne hkey]

lemma setFrom_writes (fields : List (Octets × Json)) :
    ∃ out, setFrom value (.object fields) last before = .ok out ∧
    Writes (.object fields) (before ++ [last]) value out.data := by
  induction before generalizing fields with
  | nil => exact writes_last fields
  | cons segment rest ih =>
    obtain ⟨inner, hinner, hwrites⟩ := ih (inside (.object fields) segment)
    refine ⟨⟨_, inner.replaced⟩, ?_, writes_cons (by simp) hwrites⟩
    simp [setFrom, assign, hinner]

end

lemma set_writes (fields : List (Octets × Json)) (q : Segments) (value : Json) :
    ∃ out, set (.object fields) q value = .ok out ∧
    Writes (.object fields) q.toList value out.data :=
  setFrom_writes fields

def fieldsAt (current : Json) (path : List Octets) : List (Octets × Json) :=
  match current.path? path with
  | some (.object fields) => fields
  | _ => []

def writeField (fields : List (Octets × Json)) (last : Octets) (value : Json) :
    List (Octets × Json) :=
  if ((fields.lookup last).getD .null).eqv value then fields else insertField last value fields

section
variable {value : Json} {last segment : Octets} {before rest : List Octets}
  {fields : List (Octets × Json)} {out : SetOutcome}

lemma fieldsAt_inside {current : Json} :
    fieldsAt (.object (inside current segment)) rest = fieldsAt current (segment :: rest) := by
  cases rest with
  | cons => simp only [fieldsAt, path?_inside]
  | nil =>
    have hpath : current.path? [segment] = current.field? segment := by
      rw [path?_cons]
      cases current.field? segment <;> rfl
    simp [fieldsAt, hpath, inside]

lemma setFrom_parent (h : setFrom value (.object fields) last before = .ok out) :
    out.data.path? before =
    some (.object (writeField (fieldsAt (.object fields) before) last value)) := by
  induction before generalizing fields out with
  | nil =>
    have hfields : fieldsAt (.object fields) [] = fields := rfl
    rw [hfields, writeField]
    simp only [setFrom, isObject, if_true, field?_object] at h
    by_cases heq : ((fields.lookup last).getD .null).eqv value = true
    · rw [if_pos heq] at h ⊢
      cases h
      rfl
    · rw [if_neg heq] at h ⊢
      cases h
      rfl
  | cons segment rest ih =>
    simp only [setFrom, assign, ok_bind] at h
    obtain ⟨inner, hinner, h⟩ := bind_eq_ok_iff.mp h
    cases h
    rw [← fieldsAt_inside, ← ih hinner]
    simp [path?_cons]

end

lemma set_parent {fields : List (Octets × Json)} {q : Segments} {value : Json}
    {out : SetOutcome} (h : set (.object fields) q value = .ok out) :
    out.data.path? q.before =
    some (.object (writeField (fieldsAt (.object fields) q.before) q.last value)) :=
  setFrom_parent h

/-- What `get` gives after a `set` with the same path. -/
def expected (old : Option Json) (value default : Json) : Json :=
  match old with
  | none => if value.isNull then default else value
  | some old => if old.eqv value then old else value

end ConfigManager

end Millennium.System
