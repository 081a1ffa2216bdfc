import Millennium.Bindings.PluginConfig

/-!
# A key is set while another one is deleted

`plugin_config::del` writes back the whole config that it has read, so a `set` that writes
in between is undone. Otherwise both updates last.
-/

namespace Millennium.Bindings.PluginConfig

open Bytes Transitions Millennium.System State Json

inductive Side where
  | setter
  | deleter
  deriving Repr, DecidableEq

structure Updates where
  pluginName : Octets
  setKey : Octets
  value : Json
  deletedKey : Octets

def Updates.requests (u : Updates) : Side → Request
  | .setter => .set u.pluginName u.setKey u.value
  | .deleter => .del u.pluginName u.deletedKey

/-- The key that is set holds the value, or what compares equal to it. -/
def Updates.IsSet (u : Updates) (config : Json) : Prop :=
  ∃ w, config.field? u.setKey = some w ∧ (w = u.value ∨ w.eqv u.value = true)

structure Updates.Kept (u : Updates) (config : Json) : Prop where
  isSet : u.IsSet config
  deleted : config.field? u.deletedKey = none

/-- Updates that are to last: different keys, none empty, no reserved name, a value within the
limits that is not null. -/
structure Updates.Proper (dump : Json → Option Octets) (u : Updates) (data : Json) : Prop where
  isRoot : ConfigManager.IsRoot data
  notReserved : isReservedName u.pluginName = false
  setKey_ne_nil : u.setKey ≠ []
  deletedKey_ne_nil : u.deletedKey ≠ []
  keys_ne : u.deletedKey ≠ u.setKey
  value_ne_null : u.value ≠ .null
  entry : EntryOk dump (u.setKey, u.value)
  room : HasRoom (configOf data u.pluginName) u.setKey

/-- `set` does not write between the read and the write of `del`. -/
def NotBetween (s : State Side) (i : Side) : Prop :=
  i = .setter → s.phases .setter = .validated → ∀ config, s.phases .deleter ≠ .fetched config

def Updates.SetterOk (u : Updates) (config : Json) : Phase → Prop
  | .finished _ => u.IsSet config
  | _ => True

/-- Between its two steps `del` has the config that is stored, without its key. -/
def Updates.DeleterOk (u : Updates) (config : Json) : Phase → Prop
  | .fetched fetched => config.erase u.deletedKey = .ok fetched
  | .finished _ => config.field? u.deletedKey = none
  | _ => True

structure Updates.Inv (u : Updates) (s : State Side) : Prop where
  isRoot : ConfigManager.IsRoot s.data
  room : HasRoom (configOf s.data u.pluginName) u.setKey
  setter : u.SetterOk (configOf s.data u.pluginName) (s.phases .setter)
  deleter : u.DeleterOk (configOf s.data u.pluginName) (s.phases .deleter)

section
variable {config erased : Json} {key key' : Octets}

lemma field?_erase_of_ne (h : config.erase key = .ok erased) (hne : key' ≠ key) :
    erased.field? key' = config.field? key' := by
  cases config <;> cases h
  exact lookup_eraseField_of_ne hne

lemma field?_erase_self (h : config.erase key = .ok erased) : erased.field? key = none := by
  cases config <;> cases h
  exact lookup_eraseField_self

lemma field?_of_erase_error {e : Json.AccessError} (h : config.erase key = .error e) :
    config.field? key = none := by
  cases config <;> first | rfl | cases h

lemma field?_of_eqv_erase (h : config.erase key = .ok erased)
    (heqv : config.eqv erased = true) : config.field? key = none := by
  cases hobject : config.isObject with
  | false => exact field?_eq_none hobject
  | true =>
    obtain ⟨fields, rfl⟩ := exists_object hobject
    cases h
    rw [eqv_object, Bool.and_eq_true, beq_iff_eq] at heqv
    have hsame : eraseField key fields = fields :=
      List.filter_eq_self.mpr (List.length_filter_eq_length_iff.mp heqv.1.symm)
    rw [← hsame]
    exact lookup_eraseField_self

end

section
variable {dump : Json → Option Octets} {u : Updates} {data₀ : Json} {s : State Side}

lemma Updates.Inv.initial (h : u.Proper dump data₀) : u.Inv (initial data₀) where
  isRoot := h.isRoot
  room := h.room
  setter := trivial
  deleter := trivial

lemma Updates.DeleterOk.congr {config config' : Json} {phase : Phase}
    (h : u.DeleterOk config phase) (hphase : ∀ fetched, phase ≠ .fetched fetched)
    (heq : config'.field? u.deletedKey = config.field? u.deletedKey) :
    u.DeleterOk config' phase := by
  cases phase with
  | start | validated => exact trivial
  | fetched fetched => exact absurd rfl (hphase fetched)
  | finished => exact heq.trans h

lemma Updates.SetterOk.congr {config config' : Json} {phase : Phase} (h : u.SetterOk config phase)
    (heq : config'.field? u.setKey = config.field? u.setKey) : u.SetterOk config' phase := by
  cases phase with
  | start | validated | fetched => exact trivial
  | finished =>
    obtain ⟨w, hw, hequal⟩ := h
    exact ⟨w, heq.trans hw, hequal⟩

lemma Updates.Inv.next_setter (h : u.Inv s) (hproper : u.Proper dump data₀)
    (hbetween : NotBetween s .setter) : u.Inv (s.next dump u.requests .setter) := by
  cases hphase : s.phases .setter with
  | start =>
    have hadvance := advance_validates hproper.setKey_ne_nil hproper.notReserved hproper.entry
      h.room
    rw [next_eq (hphase ▸ hadvance)]
    exact ⟨h.isRoot, h.room, trivial, h.deleter⟩
  | validated =>
    obtain ⟨data', hwrite, hwritten⟩ := write_key h.isRoot u.pluginName u.setKey u.value
    have hisSet : u.IsSet (configOf data' u.pluginName) := by
      rw [hwritten.config]
      exact lookup_writeField_self hproper.value_ne_null
    have hdeleted : (configOf data' u.pluginName).field? u.deletedKey =
        (configOf s.data u.pluginName).field? u.deletedKey := by
      rw [hwritten.config, field?_object, lookup_writeField_of_ne hproper.keys_ne, lookup_fieldsOf]
    have hnext : s.next dump u.requests .setter =
        ⟨data', Function.update s.phases .setter (.finished .success)⟩ := by
      apply next_eq
      rw [hphase]
      exact hwrite
    rw [hnext]
    refine ⟨hwritten.isRoot, ?_, hisSet, h.deleter.congr (hbetween rfl hphase) hdeleted⟩
    obtain ⟨w, hw, _⟩ := hisSet
    exact Or.inl (by rw [contains_eq, hw]; rfl)
  | fetched | finished =>
    rw [next_stays (by rw [hphase]; rfl)]
    exact h

lemma erase_write_config {data fetched : Json} {plugin key : Octets}
    (hroot : ConfigManager.IsRoot data)
    (hfetched : (configOf data plugin).erase key = .ok fetched) :
    ∃ data', write data (configSegments plugin) fetched = (.finished .success, data') ∧
    ConfigManager.IsRoot data' ∧
    (configOf data' plugin).field? key = none ∧
    (∀ key', key' ≠ key → (configOf data' plugin).field? key' =
    (configOf data plugin).field? key') ∧
    size (configOf data' plugin) ≤ size (configOf data plugin) := by
  obtain ⟨config, data', hwrite, hwritten, hconfig⟩ := write_config hroot plugin fetched
  refine ⟨data', hwrite, hwritten.isRoot, ?_⟩
  rw [hwritten.config]
  rcases hconfig with rfl | ⟨rfl, heqv⟩
  · exact ⟨field?_erase_self hfetched, fun key' hne => field?_erase_of_ne hfetched hne,
      size_erase_le hfetched⟩
  · refine ⟨field?_of_eqv_erase hfetched ?_, fun _ _ => rfl, le_rfl⟩
    rw [configOf_eq] at hfetched ⊢
    cases hpath : data.path? (configSegments plugin).toList with
    | some =>
      rw [hpath] at heqv
      exact heqv
    | none =>
      rw [hpath] at heqv hfetched
      cases hfetched
      cases heqv

lemma Updates.Proper.next_deleter_start (hproper : u.Proper dump data₀)
    (hphase : s.phases .deleter = .start) :
    s.next dump u.requests .deleter =
      ⟨s.data, Function.update s.phases .deleter
        (match (configOf s.data u.pluginName).erase u.deletedKey with
          | .error e => .finished (.thrown (.access e))
          | .ok fetched => .fetched fetched)⟩ := by
  apply next_eq
  rw [hphase]
  simp only [Updates.requests, advance, hproper.notReserved, if_neg hproper.deletedKey_ne_nil]
  cases (configOf s.data u.pluginName).erase u.deletedKey <;> rfl

lemma Updates.Inv.next_deleter (h : u.Inv s) (hproper : u.Proper dump data₀) :
    u.Inv (s.next dump u.requests .deleter) := by
  have hdeleter := h.deleter
  cases hphase : s.phases .deleter with
  | start =>
    rw [hproper.next_deleter_start hphase]
    cases herase : (configOf s.data u.pluginName).erase u.deletedKey with
    | error => exact ⟨h.isRoot, h.room, h.setter, field?_of_erase_error herase⟩
    | ok => exact ⟨h.isRoot, h.room, h.setter, herase⟩
  | validated | finished =>
    rw [next_stays (by rw [hphase]; rfl)]
    exact h
  | fetched =>
    rw [hphase] at hdeleter
    obtain ⟨data', hwrite, hroot, hself, hothers, hsize⟩ := erase_write_config h.isRoot hdeleter
    have hset := hothers u.setKey hproper.keys_ne.symm
    have hnext : s.next dump u.requests .deleter =
        ⟨data', Function.update s.phases .deleter (.finished .success)⟩ := by
      apply next_eq
      rw [hphase]
      exact hwrite
    rw [hnext]
    refine ⟨hroot, ?_, h.setter.congr hset, hself⟩
    rcases h.room with hcontains | hlt
    · exact Or.inl (by rwa [contains_eq, hset, ← contains_eq])
    · exact Or.inr (hsize.trans_lt hlt)

end

def someUpdates : Updates := ⟨ascii "p", ascii "a", .boolean true, ascii "b"⟩

lemma someUpdates_proper : someUpdates.Proper dumpTrue (.object []) where
  isRoot := Or.inl rfl
  notReserved := by decide
  setKey_ne_nil := by decide
  deletedKey_ne_nil := by decide
  keys_ne := by decide
  value_ne_null := Json.noConfusion
  entry := ⟨by decide, ascii "true", rfl, by decide⟩
  room := Or.inr (by decide)

end Millennium.Bindings.PluginConfig
