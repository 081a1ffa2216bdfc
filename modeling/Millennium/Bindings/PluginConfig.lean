import Millennium.System.ConfigFile

/-!
# The configs of plugins

Each request reaches the config store in two locked steps: `set` checks the limits and then writes
the key, `del` reads the whole config and then writes it back. Between them other requests run. The
save to disk and the notifications are left out.
-/

namespace Millennium.Bindings.PluginConfig

open Bytes Transitions Millennium.System List Json Function ConfigManager Segments
open System.ConfigManager (writeField fieldsAt)

inductive Request where
  | set (pluginName key : Octets) (value : Json)
  | del (pluginName key : Octets)
  | deleteAll (pluginName : Octets)

inductive Result where
  | success
  | failed (message : Octets)
  | thrown (fault : ConfigFault)

inductive Phase where
  | start
  | validated
  /-- `del` has read the config and erased its key there, and is about to write it back. -/
  | fetched (config : Json)
  | finished (result : Result)

def isReservedName (name : Octets) : Bool := name == ascii "enabledPlugins"

def maxKeys : Nat := 256

def maxValueBytes : Nat := 256 * 1024

def maxKeyBytes : Nat := 512

/-- `size()`: the number of items, or one for what has no items. -/
def size : Json → Nat
  | .null => 0
  | .object fields => fields.length
  | .array items => items.length
  | _ => 1

def configSegments (pluginName : Octets) : Segments :=
  ⟨[ascii "plugins", pluginName], ascii "config"⟩

def keySegments (pluginName key : Octets) : Segments :=
  ⟨(configSegments pluginName).toList, key⟩

/-- `CONFIG.get({ "plugins", plugin_name, "config" }, nlohmann::json::object())`. -/
def configOf (data : Json) (pluginName : Octets) : Json :=
  get data (configSegments pluginName).toList (.object [])

section
variable (dump : Json → Option Octets)

/-- `validate_limits`: what is wrong, if anything. `dump` gives nothing where it throws. -/
def validateLimits (data : Json) (pluginName key : Octets) (value : Json) :
    Except ConfigFault (Option Octets) :=
  if isReservedName pluginName then .ok (some (ascii "reserved plugin name: " ++ pluginName))
  else if maxKeyBytes < key.length then .ok (some (ascii "config key too long (max 512 bytes)"))
  else
    let current := configOf data pluginName
    if !current.contains key && maxKeys ≤ size current then
      .ok (some (ascii "plugin config key limit exceeded (max 256)"))
    else
      match dump value with
      | none => .error .type316
      | some text =>
        if maxValueBytes < text.length then
          .ok (some (ascii "plugin config value too large (max 256KB)"))
        else .ok none

def write (data : Json) (q : Segments) (value : Json) : Phase × Json :=
  match set data q value with
  | .error e => (.finished (.thrown (.access e)), data)
  | .ok out => (.finished .success, out.data)

/-- `set`, `del` and `delete_all`, one locked step at a time. -/
def advance (request : Request) (phase : Phase) (data : Json) : Phase × Json :=
  match request, phase with
  | .set pluginName key value, .start =>
    if key = [] then (.finished (.failed (ascii "missing key")), data)
    else
      match validateLimits dump data pluginName key value with
      | .error e => (.finished (.thrown e), data)
      | .ok (some err) => (.finished (.failed err), data)
      | .ok none => (.validated, data)
  | .set pluginName key value, .validated => write data (keySegments pluginName key) value
  | .del pluginName key, .start =>
    if isReservedName pluginName then
      (.finished (.failed (ascii "reserved plugin name: " ++ pluginName)), data)
    else if key = [] then (.finished (.failed (ascii "missing key")), data)
    else
      match (configOf data pluginName).erase key with
      | .error e => (.finished (.thrown (.access e)), data)
      | .ok config => (.fetched config, data)
  | .del pluginName _, .fetched config => write data (configSegments pluginName) config
  | .deleteAll pluginName, .start =>
    if pluginName = [] then (.finished (.failed (ascii "missing pluginName")), data)
    else if isReservedName pluginName then
      (.finished (.failed (ascii "reserved plugin name: " ++ pluginName)), data)
    else write data (configSegments pluginName) (.object [])
  | _, phase => (phase, data)

end

/-- The store, and how far each request is, from its start on. -/
structure State (ι : Type*) where
  data : Json
  phases : ι → Phase

section
variable {ι : Type*} [DecidableEq ι]

def State.initial (data : Json) : State ι := ⟨data, fun _ => .start⟩

def State.next (dump : Json → Option Octets) (requests : ι → Request) (s : State ι) (i : ι) :
    State ι :=
  let (phase, data) := advance dump (requests i) (s.phases i) s.data
  ⟨data, update s.phases i phase⟩

inductive Step (dump : Json → Option Octets) (requests : ι → Request)
    (allowed : State ι → ι → Prop) (s : State ι) : State ι → Prop where
  | next (i : ι) (h : allowed s i) : Step dump requests allowed s (s.next dump requests i)

end

open State

structure ConfigWrite (data : Json) (pluginName : Octets) (config data' : Json) : Prop where
  isRoot : ConfigManager.IsRoot data'
  config : configOf data' pluginName = config
  others : ∀ other, other ≠ pluginName → configOf data' other = configOf data other

section
variable {data value : Json} {plugin other key : Octets}

lemma configOf_eq : configOf data plugin =
    (data.path? (configSegments plugin).toList).getD (.object []) :=
  get_eq (by simp [toList])

def fieldsOf : Json → List (Octets × Json)
  | .object fields => fields
  | _ => []

lemma fieldsAt_config :
    fieldsAt data (configSegments plugin).toList = fieldsOf (configOf data plugin) := by
  rw [configOf_eq, fieldsAt]
  cases data.path? (configSegments plugin).toList with
  | none => rfl
  | some config => cases config <;> rfl

lemma configOf_of_writes {data' : Json} {path rest : List Octets}
    (h : ConfigManager.Writes data path value data')
    (hpath : path = (configSegments plugin).toList ++ rest) (hne : other ≠ plugin) :
    configOf data' other = configOf data other := by
  subst hpath
  rw [configOf_eq, configOf_eq, h.frame]
  · simp [configSegments, toList, Ne.symm hne]
  · simp [configSegments, toList, hne]

lemma set_root (hroot : ConfigManager.IsRoot data) (q : Segments) :
    ∃ out, set data q value = .ok out ∧
    ConfigManager.Writes data q.toList value out.data ∧
    out.data.path? q.before =
    some (.object (writeField (fieldsAt data q.before) q.last value)) := by
  rcases hroot with hroot | rfl
  · obtain ⟨fields, rfl⟩ := exists_object hroot
    obtain ⟨out, hset, hwrites⟩ := set_writes fields q value
    exact ⟨out, hset, hwrites, set_parent hset⟩
  · obtain ⟨out, hset, hwrites⟩ := set_writes [] q value
    have hnull : ∀ path, path ≠ [] → null.path? path = (object []).path? path := by
      intro path hpath
      cases path with
      | nil => contradiction
      | cons => rfl
    have hset' : set .null q value = .ok out := by
      rw [← hset]
      obtain ⟨before, last⟩ := q
      cases before <;> rfl
    have hfields : fieldsAt .null q.before = fieldsAt (.object []) q.before := by
      cases hbefore : q.before <;> rfl
    refine ⟨out, hset', ⟨hwrites.isObject, ?_, ?_⟩, hfields ▸ set_parent hset⟩
    · rw [hnull _ (by simp [toList]), hwrites.written]
    · intro r hbehind hbefore
      rw [hnull r (fun hr => hbefore (hr ▸ nil_prefix)), hwrites.frame r hbehind hbefore]

lemma write_key (hroot : ConfigManager.IsRoot data) (plugin key : Octets) (value : Json) :
    ∃ data', write data (keySegments plugin key) value = (.finished .success, data') ∧
    ConfigWrite data plugin
        (.object (writeField (fieldsOf (configOf data plugin)) key value)) data' := by
  obtain ⟨out, hset, hwrites, hpar⟩ := set_root hroot (keySegments plugin key)
  refine ⟨out.data, by rw [write, hset], Or.inl hwrites.isObject, ?_,
    fun other => configOf_of_writes hwrites rfl⟩
  have hpath : (configSegments plugin).toList = (keySegments plugin key).before := rfl
  rw [configOf_eq, hpath, hpar, ← hpath, fieldsAt_config]
  rfl

lemma write_config (hroot : ConfigManager.IsRoot data) (plugin : Octets) (value : Json) :
    ∃ config data', write data (configSegments plugin) value = (.finished .success, data') ∧
    ConfigWrite data plugin config data' ∧
    (config = value ∨ config = configOf data plugin ∧
    ((data.path? (configSegments plugin).toList).getD .null).eqv value = true) := by
  obtain ⟨out, hset, hwrites, _⟩ := set_root hroot (configSegments plugin)
  refine ⟨configOf out.data plugin, out.data, by rw [write, hset],
    ⟨Or.inl hwrites.isObject, rfl, ?_⟩, ?_⟩
  · intro other
    exact configOf_of_writes hwrites (append_nil _).symm
  · rw [configOf_eq, configOf_eq, hwrites.written, afterSet]
    split_ifs with heq
    · exact Or.inr ⟨rfl, heq⟩
    · exact Or.inl rfl

end

/-- What a step does to the store and to the request that takes it. -/
inductive Does (dump : Json → Option Octets) (data : Json) :
    Request → Phase → Phase → Json → Prop where
  | stays (request : Request) (phase : Phase) : Does dump data request phase phase data
  | gives (request : Request) (result : Result) :
      Does dump data request .start (.finished result) data
  | validates {pluginName key : Octets} {value : Json}
      (h : validateLimits dump data pluginName key value = .ok none) :
      Does dump data (.set pluginName key value) .start .validated data
  | fetches {pluginName key : Octets} {config : Json}
      (h : (configOf data pluginName).erase key = .ok config) :
      Does dump data (.del pluginName key) .start (.fetched config) data
  | setsKey {pluginName key : Octets} {value data' : Json}
      (h : ConfigWrite data pluginName
        (.object (writeField (fieldsOf (configOf data pluginName)) key value)) data') :
      Does dump data (.set pluginName key value) .validated (.finished .success) data'
  | setsConfig {pluginName key : Octets} {fetched config data' : Json}
      (h : ConfigWrite data pluginName config data')
      (hconfig : config = fetched ∨ config = configOf data pluginName) :
      Does dump data (.del pluginName key) (.fetched fetched) (.finished .success) data'
  | clears {pluginName : Octets} {config data' : Json}
      (h : ConfigWrite data pluginName config data')
      (hconfig : config = .object [] ∨ config = configOf data pluginName) :
      Does dump data (.deleteAll pluginName) .start (.finished .success) data'

lemma advance_does (dump : Json → Option Octets) {data : Json}
    (hroot : ConfigManager.IsRoot data) (request : Request) (phase : Phase) :
    Does dump data request phase (advance dump request phase data).1
      (advance dump request phase data).2 := by
  cases request with
  | set plugin key value =>
    cases phase with
    | start =>
      simp only [advance]
      split_ifs
      · exact .gives _ _
      · split
        · exact .gives _ _
        · exact .gives _ _
        · next h => exact .validates h
    | validated =>
      obtain ⟨data', hwrite, hconfig⟩ := write_key hroot plugin key value
      simp only [advance, hwrite]
      exact .setsKey hconfig
    | fetched | finished => exact .stays _ _
  | del plugin =>
    cases phase with
    | start =>
      simp only [advance]
      split_ifs
      · exact .gives _ _
      · exact .gives _ _
      · split
        · exact .gives _ _
        · next h => exact .fetches h
    | validated | finished => exact .stays _ _
    | fetched fetched =>
      obtain ⟨config, data', hwrite, hconfig, hcases⟩ := write_config hroot plugin fetched
      simp only [advance, hwrite]
      exact .setsConfig hconfig (hcases.imp id And.left)
  | deleteAll plugin =>
    cases phase with
    | start =>
      simp only [advance]
      split_ifs
      · exact .gives _ _
      · exact .gives _ _
      · obtain ⟨config, data', hwrite, hconfig, hcases⟩ :=
          write_config hroot plugin (.object [])
        rw [hwrite]
        exact .clears hconfig (hcases.imp id And.left)
    | validated | fetched | finished => exact .stays _ _

lemma ConfigWrite.forall {data config data' : Json} {plugin : Octets} {P : Json → Prop}
    (h : ConfigWrite data plugin config data') (hnew : P config)
    (hold : ∀ other, P (configOf data other)) (other : Octets) : P (configOf data' other) := by
  by_cases heq : other = plugin
  · rw [heq, h.config]
    exact hnew
  · rw [h.others other heq]
    exact hold other

section
variable {fields : List (Octets × Json)} {key key' : Octets} {value : Json}

lemma lookup_fieldsOf {config : Json} : (fieldsOf config).lookup key = config.field? key := by
  cases config <;> rfl

lemma lookup_writeField_self (hvalue : value ≠ .null) :
    ∃ w, (writeField fields key value).lookup key = some w ∧ (w = value ∨ w.eqv value = true) := by
  rw [writeField]
  split_ifs with heq
  · cases hold : fields.lookup key with
    | some w =>
      rw [hold] at heq
      exact ⟨w, rfl, Or.inr heq⟩
    | none =>
      rw [hold, Option.getD_none, eqv_null] at heq
      exact absurd (isNull_iff.mp heq) hvalue
  · exact ⟨value, lookup_insertField_self, Or.inl rfl⟩

lemma lookup_writeField_of_ne (hne : key' ≠ key) :
    (writeField fields key value).lookup key' = fields.lookup key' := by
  rw [writeField]
  split_ifs
  · rfl
  · exact lookup_insertField_of_ne hne

lemma mem_writeField {e : Octets × Json} (h : e ∈ writeField fields key value) :
    e = (key, value) ∨ e ∈ fields := by
  rw [writeField] at h
  split_ifs at h
  · exact Or.inr h
  · exact mem_insertField h

end

section
variable (dump : Json → Option Octets)

structure EntryOk (e : Octets × Json) : Prop where
  key : e.1.length ≤ maxKeyBytes
  value : ∃ text, dump e.2 = some text ∧ text.length ≤ maxValueBytes

def EntriesOk (config : Json) : Prop :=
  ∃ fields, config = .object fields ∧ ∀ e ∈ fields, EntryOk dump e

/-- There is room for a key: it is there already, or there are less than the most. -/
def HasRoom (config : Json) (key : Octets) : Prop :=
  config.contains key = true ∨ size config < maxKeys

variable {dump} {data value : Json} {plugin key : Octets}

lemma validateLimits_eq_none_iff : validateLimits dump data plugin key value = .ok none ↔
    isReservedName plugin = false ∧ EntryOk dump (key, value) ∧
    HasRoom (configOf data plugin) key := by
  have hroom : (!(configOf data plugin).contains key &&
      decide (maxKeys ≤ size (configOf data plugin))) = true ↔
        ¬ HasRoom (configOf data plugin) key := by
    simp [HasRoom]
  constructor
  · intro h
    simp only [validateLimits] at h
    split_ifs at h with hreserved hlen hfull
    · cases h
    · cases h
    · cases h
    · cases hdump : dump value with
      | none =>
        rw [hdump] at h
        cases h
      | some text =>
        rw [hdump] at h
        dsimp only at h
        split_ifs at h with htext
        · cases h
        · exact ⟨by simpa using hreserved,
            ⟨Nat.le_of_not_lt hlen, text, hdump, Nat.le_of_not_lt htext⟩,
            not_not.mp (mt hroom.mpr hfull)⟩
  · rintro ⟨hreserved, ⟨hlen, text, hdump, htext⟩, hkey⟩
    have hfull := mt hroom.mp (not_not.mpr hkey)
    simp only [validateLimits, hreserved, Bool.false_eq_true, if_false,
      if_neg (Nat.not_lt.mpr hlen), if_neg hfull, hdump, if_neg (Nat.not_lt.mpr htext)]

end

lemma advance_validates {dump : Json → Option Octets} {data value : Json}
    {plugin key : Octets} (hkey : key ≠ [])
    (hreserved : isReservedName plugin = false) (hentry : EntryOk dump (key, value))
    (hroom : HasRoom (configOf data plugin) key) :
    advance dump (.set plugin key value) .start data = (.validated, data) := by
  have hlimits : validateLimits dump data plugin key value = .ok none :=
    validateLimits_eq_none_iff.mpr ⟨hreserved, hentry, hroom⟩
  simp only [advance, if_neg hkey, hlimits]

section
variable (dump : Json → Option Octets)

/-- What a request is about to write is within the limits. -/
def PhaseOk : Request → Phase → Prop
  | .set _ key value, .validated => EntryOk dump (key, value)
  | _, .fetched config => EntriesOk dump config
  | _, _ => True

variable {dump} {data data' config : Json} {request : Request} {phase phase' : Phase}
  {key : Octets}

lemma EntriesOk.erase (h : EntriesOk dump config) {erased : Json}
    (herase : config.erase key = .ok erased) : EntriesOk dump erased := by
  obtain ⟨fields, rfl, hfields⟩ := h
  cases herase
  exact ⟨_, rfl, fun e he => hfields e (mem_of_mem_filter he)⟩

lemma EntriesOk.writeField (h : EntriesOk dump config) {value : Json}
    (hentry : EntryOk dump (key, value)) :
    EntriesOk dump (.object (writeField (fieldsOf config) key value)) := by
  obtain ⟨fields, rfl, hfields⟩ := h
  refine ⟨_, rfl, ?_⟩
  intro e he
  rcases mem_writeField he with rfl | he
  · exact hentry
  · exact hfields e he

lemma Does.isRoot (h : Does dump data request phase phase' data')
    (hroot : ConfigManager.IsRoot data) : ConfigManager.IsRoot data' := by
  cases h with
  | stays | gives | validates | fetches => exact hroot
  | setsKey h | setsConfig h | clears h => exact h.isRoot

lemma Does.entriesOk (h : Does dump data request phase phase' data')
    (hconfs : ∀ plugin, EntriesOk dump (configOf data plugin))
    (hphase : PhaseOk dump request phase) :
    (∀ plugin, EntriesOk dump (configOf data' plugin)) ∧
    PhaseOk dump request phase' := by
  cases h with
  | stays => exact ⟨hconfs, hphase⟩
  | gives => exact ⟨hconfs, by cases request <;> exact trivial⟩
  | validates hlimits => exact ⟨hconfs, (validateLimits_eq_none_iff.mp hlimits).2.1⟩
  | fetches herase => exact ⟨hconfs, (hconfs _).erase herase⟩
  | setsKey hwrite =>
    exact ⟨hwrite.forall ((hconfs _).writeField hphase) hconfs, trivial⟩
  | setsConfig hwrite hconfig =>
    refine ⟨hwrite.forall ?_ hconfs, trivial⟩
    rcases hconfig with rfl | rfl
    · exact hphase
    · exact hconfs _
  | clears hwrite hconfig =>
    refine ⟨hwrite.forall ?_ hconfs, trivial⟩
    rcases hconfig with rfl | rfl
    · exact ⟨[], rfl, fun e he => absurd he not_mem_nil⟩
    · exact hconfs _

end

section

/-- What a request is about to write leaves no more keys than allowed. -/
def PhaseCounts (data : Json) : Request → Phase → Prop
  | .set pluginName key _, .validated => HasRoom (configOf data pluginName) key
  | _, .fetched config => size config ≤ maxKeys
  | _, _ => True

def aboutToWrite : Request → Phase → Option Octets
  | .set pluginName _ _, .validated => some pluginName
  | .del pluginName _, .fetched _ => some pluginName
  | _, _ => none

def checked : Request → Phase → Option Octets
  | .set pluginName _ _, .validated => some pluginName
  | _, _ => none

variable {dump : Json → Option Octets} {data data' config : Json} {request other : Request}
  {phase phase' otherPhase : Phase} {key : Octets} {value : Json}

lemma size_erase_le {erased : Json} (h : config.erase key = .ok erased) :
    size erased ≤ size config := by
  cases config <;> cases h
  exact length_eraseField_le

lemma length_fieldsOf_le : (fieldsOf config).length ≤ size config := by
  cases config <;> simp [fieldsOf, size]

lemma length_writeField_le (hroom : HasRoom config key) (hsize : size config ≤ maxKeys) :
    (writeField (fieldsOf config) key value).length ≤ maxKeys := by
  have hlen : (fieldsOf config).length ≤ size config := length_fieldsOf_le
  rw [writeField]
  split_ifs
  · omega
  · rw [length_insertField, lookup_fieldsOf, ← contains_eq]
    split_ifs with hcontains
    · omega
    · have hlt : size config < maxKeys := hroom.resolve_left hcontains
      omega

lemma Does.counts (h : Does dump data request phase phase' data')
    (hconfs : ∀ plugin, size (configOf data plugin) ≤ maxKeys)
    (hphase : PhaseCounts data request phase) :
    (∀ plugin, size (configOf data' plugin) ≤ maxKeys) ∧
    PhaseCounts data' request phase' := by
  cases h with
  | stays => exact ⟨hconfs, hphase⟩
  | gives => exact ⟨hconfs, by cases request <;> exact trivial⟩
  | validates hlimits => exact ⟨hconfs, (validateLimits_eq_none_iff.mp hlimits).2.2⟩
  | fetches herase => exact ⟨hconfs, (size_erase_le herase).trans (hconfs _)⟩
  | setsKey hwrite =>
    refine ⟨hwrite.forall (P := (size · ≤ maxKeys)) ?_ hconfs, trivial⟩
    exact length_writeField_le hphase (hconfs _)
  | setsConfig hwrite hconfig =>
    refine ⟨hwrite.forall (P := (size · ≤ maxKeys)) ?_ hconfs, trivial⟩
    rcases hconfig with rfl | rfl
    · exact hphase
    · exact hconfs _
  | clears hwrite hconfig =>
    refine ⟨hwrite.forall (P := (size · ≤ maxKeys)) ?_ hconfs, trivial⟩
    rcases hconfig with rfl | rfl
    · exact Nat.zero_le _
    · exact hconfs _

lemma Does.counts_other (h : Does dump data request phase phase' data')
    (hother : PhaseCounts data other otherPhase)
    (hundisturbed : ∀ plugin, aboutToWrite request phase = some plugin →
    checked other otherPhase ≠ some plugin) :
    PhaseCounts data' other otherPhase := by
  -- only the room that another `set` has found depends on the store
  cases other with
  | del | deleteAll => cases otherPhase <;> exact hother
  | set plugin =>
    cases otherPhase with
    | start | fetched | finished => exact hother
    | validated =>
      cases h with
      | stays | gives | validates | fetches => exact hother
      | setsKey hwrite | setsConfig hwrite =>
        have hne : plugin ≠ _ := fun heq => hundisturbed _ rfl (congrArg some heq)
        simp only [PhaseCounts, hwrite.others _ hne]
        exact hother
      | @clears cleared config data' hwrite hconfig =>
        by_cases heq : plugin = cleared
        · subst heq
          simp only [PhaseCounts, hwrite.config]
          rcases hconfig with rfl | rfl
          · exact Or.inr (by decide)
          · exact hother
        · simp only [PhaseCounts, hwrite.others _ heq]
          exact hother

end

section
variable {ι : Type*} [DecidableEq ι]

/-- No plugin's config is written between the check and the write of another `set`. -/
def Undisturbed (requests : ι → Request) (s : State ι) (i : ι) : Prop :=
  ∀ j, j ≠ i → ∀ pluginName, aboutToWrite (requests i) (s.phases i) = some pluginName →
    checked (requests j) (s.phases j) ≠ some pluginName

/-- Every key and every value is within the limits, those that are about to be written too. -/
structure Sound (dump : Json → Option Octets) (requests : ι → Request) (s : State ι) : Prop where
  isRoot : ConfigManager.IsRoot s.data
  configs : ∀ pluginName, EntriesOk dump (configOf s.data pluginName)
  phases : ∀ i, PhaseOk dump (requests i) (s.phases i)

/-- No config has too many keys, those that are about to be written neither. -/
structure Counted (requests : ι → Request) (s : State ι) : Prop where
  configs : ∀ pluginName, size (configOf s.data pluginName) ≤ maxKeys
  phases : ∀ i, PhaseCounts s.data (requests i) (s.phases i)

variable {dump : Json → Option Octets} {reqs : ι → Request} {s s' : State ι}
  {allowed : State ι → ι → Prop}

lemma State.next_eq {i : ι} {phase : Phase} {data : Json}
    (h : advance dump (reqs i) (s.phases i) s.data = (phase, data)) :
    s.next dump reqs i = ⟨data, update s.phases i phase⟩ := by
  rw [State.next, h]

lemma State.next_stays {i : ι}
    (h : advance dump (reqs i) (s.phases i) s.data = (s.phases i, s.data)) :
    s.next dump reqs i = s := by
  rw [next_eq h, update_eq_self]

lemma reachable_next {start : State ι → Prop}
    (h : Reachable (Step dump reqs allowed) start s) (i : ι) (hi : allowed s i) :
    Reachable (Step dump reqs allowed) start (s.next dump reqs i) :=
  h.tail (.next i hi)

lemma State.next_does (dump : Json → Option Octets) (reqs : ι → Request)
    (hroot : ConfigManager.IsRoot s.data) (i : ι) :
    ∃ phase', s.next dump reqs i =
    ⟨(s.next dump reqs i).data, update s.phases i phase'⟩ ∧
    Does dump s.data (reqs i) (s.phases i) phase' (s.next dump reqs i).data :=
  ⟨_, rfl, advance_does dump hroot (reqs i) (s.phases i)⟩

lemma Sound.next (h : Sound dump reqs s) (i : ι) :
    Sound dump reqs (s.next dump reqs i) := by
  obtain ⟨phase', hnext, hdoes⟩ := next_does dump reqs h.isRoot i
  obtain ⟨hconfs, hphase⟩ := hdoes.entriesOk h.configs (h.phases i)
  rw [hnext]
  refine ⟨hdoes.isRoot h.isRoot, hconfs, ?_⟩
  intro j
  by_cases hj : j = i
  · subst hj
    simpa using hphase
  · simpa [hj] using h.phases j

lemma Counted.next (h : Counted reqs s) (hroot : ConfigManager.IsRoot s.data) (i : ι)
    (hundisturbed : Undisturbed reqs s i) : Counted reqs (s.next dump reqs i) := by
  obtain ⟨phase', hnext, hdoes⟩ := next_does dump reqs hroot i
  obtain ⟨hconfs, hphase⟩ := hdoes.counts h.configs (h.phases i)
  rw [hnext]
  refine ⟨hconfs, ?_⟩
  intro j
  by_cases hj : j = i
  · subst hj
    simpa using hphase
  · simpa [hj] using hdoes.counts_other (h.phases j) (hundisturbed j hj)

omit [DecidableEq ι] in
lemma sound_initial : Sound dump reqs (initial (.object [])) where
  isRoot := Or.inl rfl
  configs _ := ⟨[], rfl, fun e he => absurd he not_mem_nil⟩
  phases i := by
    simp only [initial]
    cases reqs i <;> exact trivial

omit [DecidableEq ι] in
lemma counted_initial : Counted reqs (initial (.object [])) where
  configs _ := Nat.zero_le _
  phases i := by
    simp only [initial]
    cases reqs i <;> exact trivial

lemma sound_of_reachable (h : Reachable (Step dump reqs allowed) (· = initial (.object [])) s) :
    Sound dump reqs s := by
  apply h.invariant
  · rintro s rfl
    exact sound_initial
  · rintro s s' hs ⟨i, _⟩
    exact hs.next i

/-- Keys and values are always within the limits. The number of keys is as well, as long as nothing
is written to a config between the check and the write of a `set`. -/
theorem limits_hold (dump : Json → Option Octets) (requests : ι → Request) :
    (∀ s, Reachable (Step dump requests fun _ _ => True) (· = initial (.object [])) s →
      ∀ pluginName, EntriesOk dump (configOf s.data pluginName)) ∧
    (∀ s, Reachable (Step dump requests (Undisturbed requests)) (· = initial (.object [])) s →
      ∀ pluginName, size (configOf s.data pluginName) ≤ maxKeys) := by
  constructor
  · intro s hs
    exact (sound_of_reachable hs).configs
  · intro s hs
    have hinv : Sound dump requests s ∧ Counted requests s := by
      apply hs.invariant
      · rintro s rfl
        exact ⟨sound_initial, counted_initial⟩
      · rintro s s' ⟨hsound, hcounted⟩ ⟨i, hundisturbed⟩
        exact ⟨hsound.next i, hcounted.next hsound.isRoot i hundisturbed⟩
    exact hinv.2.configs

end

def manySets (i : Nat) : Request :=
  .set (ascii "p") (List.replicate (i + 1) 97) (.boolean true)

def dumpTrue (_ : Json) : Option Octets := some (ascii "true")

lemma exists_all_checked (n : Nat) (hn : n ≤ maxKeyBytes) :
    ∃ s, Reachable (Step dumpTrue manySets fun _ _ => True) (· = initial (.object [])) s ∧
    s.data = .object [] ∧ (∀ i < n, s.phases i = .validated) ∧
    ∀ i ≥ n, s.phases i = .start := by
  induction n with
  | zero =>
    refine ⟨_, .init rfl, rfl, ?_, fun i _ => rfl⟩
    intro i hi
    exact absurd hi (Nat.not_lt_zero i)
  | succ n ih =>
    obtain ⟨s, hs, hdata, hbelow, habove⟩ := ih (Nat.le_of_succ_le hn)
    have hentry : EntryOk dumpTrue (List.replicate (n + 1) 97, .boolean true) := by
      refine ⟨?_, ascii "true", rfl, by decide⟩
      rw [length_replicate]
      exact hn
    have hroom : HasRoom (configOf s.data (ascii "p")) (List.replicate (n + 1) 97) := by
      rw [hdata]
      exact Or.inr (by decide)
    have hnext : s.next dumpTrue manySets n =
        ⟨s.data, update s.phases n .validated⟩ := by
      apply next_eq
      rw [habove n le_rfl]
      exact advance_validates (cons_ne_nil _ _) (by decide) hentry hroom
    refine ⟨_, reachable_next hs n trivial, ?_, ?_, ?_⟩
    · rw [hnext]
      exact hdata
    · intro i hi
      rw [hnext]
      by_cases heq : i = n
      · simp [heq]
      · simpa [heq] using hbelow i (by omega)
    · intro i hi
      rw [hnext]
      simpa [show i ≠ n by omega] using habove i (by omega)

lemma exists_all_written (n : Nat) (hn : n ≤ 257) :
    ∃ s, Reachable (Step dumpTrue manySets fun _ _ => True) (· = initial (.object [])) s ∧
    ConfigManager.IsRoot s.data ∧ (∀ i, n ≤ i → i < 257 → s.phases i = .validated) ∧
    ∃ fields, configOf s.data (ascii "p") = .object fields ∧ fields.length = n ∧
    ∀ i ≥ n, fields.lookup (List.replicate (i + 1) 97) = none := by
  induction n with
  | zero =>
    obtain ⟨s, hs, hdata, hbelow, _⟩ := exists_all_checked 257 (by decide)
    refine ⟨s, hs, Or.inl (hdata ▸ rfl), fun i _ hi => hbelow i hi, [], ?_, rfl, fun i _ => rfl⟩
    rw [hdata]
    rfl
  | succ n ih =>
    obtain ⟨s, hs, hroot, hphases, fields, hconfig, hlen, hlookup⟩ :=
      ih (Nat.le_of_succ_le hn)
    obtain ⟨data', hwrite, hwritten⟩ :=
      write_key hroot (ascii "p") (List.replicate (n + 1) 97) (.boolean true)
    have hfields : writeField (fieldsOf (configOf s.data (ascii "p")))
        (List.replicate (n + 1) 97) (.boolean true) =
          insertField (List.replicate (n + 1) 97) (.boolean true) fields := by
      rw [hconfig, fieldsOf, writeField, hlookup n le_rfl, Option.getD_none]
      rfl
    have hnext : s.next dumpTrue manySets n =
        ⟨data', update s.phases n (.finished .success)⟩ := by
      apply next_eq
      rw [hphases n le_rfl hn]
      exact hwrite
    refine ⟨_, reachable_next hs n trivial, ?_, ?_,
      insertField (List.replicate (n + 1) 97) (.boolean true) fields, ?_, ?_, ?_⟩
    · rw [hnext]
      exact hwritten.isRoot
    · intro i hi hlt
      rw [hnext]
      simpa [show i ≠ n by omega] using hphases i (by omega) hlt
    · rw [hnext, hwritten.config, hfields]
    · rw [length_insertField, hlookup n le_rfl, hlen]
      rfl
    · intro i hi
      have hne : List.replicate (i + 1) (97 : UInt8) ≠ List.replicate (n + 1) 97 := by
        intro heq
        have hlengths := congrArg List.length heq
        simp only [length_replicate] at hlengths
        omega
      rw [lookup_insertField_of_ne hne]
      exact hlookup i (by omega)

/-- When all have checked the limits before the first one writes, more keys are stored than
allowed. -/
theorem too_many_keys :
    ¬ ∀ s, Reachable (Step dumpTrue manySets fun _ _ => True) (· = initial (.object [])) s →
      ∀ pluginName, size (configOf s.data pluginName) ≤ maxKeys := by
  intro h
  obtain ⟨s, hs, _, _, fields, hconfig, hlength, _⟩ := exists_all_written 257 le_rfl
  have hsize := h s hs (ascii "p")
  rw [hconfig, size, hlength] at hsize
  exact absurd hsize (by decide)

end Millennium.Bindings.PluginConfig
