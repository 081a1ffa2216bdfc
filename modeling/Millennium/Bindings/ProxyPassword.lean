import Millennium.Bindings.BackendConfig
import Millennium.System.Crypto

/-!
# The proxy password on its way into use

A new proxy password that `Core_SetBackendConfig` gets is encrypted before it is stored; the mark
that the front end is shown stands for the stored one. `apply_proxy` reads the store for each
request.
-/

namespace Millennium.Bindings

open Bytes Outcome Millennium.System ConfigManager Crypto Option Json List

inductive SetFault where
  | type (e : TypeError)
  | access (e : Json.AccessError)
  deriving Repr, DecidableEq

def passwordPath : List Octets := [ascii "network", ascii "proxyPassword"]

def eraseProxyPassword (incoming : Json) : Except Json.AccessError Json := do
  let network ← ((incoming.field? (ascii "network")).getD .null).erase (ascii "proxyPassword")
  incoming.assign (ascii "network") network

section
variable (cipher : Crypto.Gcm) (nonce : Option Crypto.Nonce)

/-- The config that `Core_SetBackendConfig` stores, for the one it was given and the store. -/
def preparedConfig (incoming data : Json) : Except SetFault Json :=
  match incoming.path? passwordPath with
  | none => .ok incoming
  | some field => do
      let pw ← field.getString.mapError .type
      if pw = storedSentinel then
        (assignProxyPassword incoming (get data passwordPath (.string []))).mapError
          .access
      else if pw ≠ [] then
        let encrypted := encrypt cipher nonce pw
        if encrypted ≠ [] then
          (assignProxyPassword incoming (.string encrypted)).mapError .access
        else (eraseProxyPassword incoming).mapError .access
      else .ok incoming

def coreSetBackendConfig (format : TextFormat) (incoming : Json) (skipPropagation : Bool)
    (saved : SaveOutcome) (s : ConfigState) : Except SetFault Json × ConfigState :=
  match preparedConfig cipher nonce incoming s.data with
  | .error e => (.error e, s)
  | .ok config =>
    let (result, s') := setAll format config skipPropagation saved s
    (.ok result, s')

def proxyPassword (data : Json) : Except TypeError Octets := do
  let storedPw ← (get data passwordPath (.string [])).getString
  .ok (if isEncrypted storedPw then decrypt cipher storedPw else storedPw)

end

structure KeyedStore where
  state : ConfigState
  nodup : (state.data.items.map Prod.fst).Nodup

section
variable (cipher : Crypto.Gcm) (nonce : Option Crypto.Nonce) (format : TextFormat)
  (skipPropagation : Bool) (saved : SaveOutcome) (store : KeyedStore)

def UsesWhatWasSet (incoming : Json) (p : Octets) : Prop :=
  proxyPassword cipher
    (coreSetBackendConfig cipher nonce format incoming skipPropagation saved store.state).2.data =
      .ok p

/-- Setting what was got leaves the stored password. -/
def GetSetKeeps (defaults : List (Octets × Json)) : Prop :=
  ∃ shown, coreGetBackendConfig defaults store.state.data = .ok shown ∧
    get
        (coreSetBackendConfig cipher nonce format shown skipPropagation saved store.state).2.data
        passwordPath (.string []) =
      get store.state.data passwordPath (.string [])

end

structure HasNetwork (config : Json) (fields network : List (Octets × Json)) : Prop where
  config_eq : config = .object fields
  network_eq : fields.lookup (ascii "network") = some (.object network)

section
variable {config field v : Json} {fields network : List (Octets × Json)}

lemma exists_network (h : config.path? passwordPath = some field) :
    ∃ fields network, HasNetwork config fields network ∧
    network.lookup (ascii "proxyPassword") = some field := by
  obtain ⟨inner, hnet, h⟩ := bind_eq_some_iff.mp h
  obtain ⟨found, hfield, h⟩ := bind_eq_some_iff.mp h
  obtain rfl : found = field := some.inj h
  cases config with
  | object fields =>
    cases inner with
    | object network => exact ⟨fields, network, ⟨rfl, hnet⟩, hfield⟩
    | _ => cases hfield
  | _ => cases hnet

lemma HasNetwork.assign (h : HasNetwork config fields network) (v : Json) :
    ∃ config', assignProxyPassword config v = .ok config' ∧
    config'.path? passwordPath = some v := by
  refine ⟨.object (insertField (ascii "network")
    (.object (insertField (ascii "proxyPassword") v network)) fields), ?_, ?_⟩
  · simp [assignProxyPassword, h.config_eq, h.network_eq, Json.assign]
  · simp [passwordPath, Json.path?]

lemma HasNetwork.erase (h : HasNetwork config fields network) :
    ∃ config', eraseProxyPassword config = .ok config' ∧ config'.path? passwordPath = none := by
  refine ⟨.object (insertField (ascii "network")
    (.object (Json.eraseField (ascii "proxyPassword") network)) fields), ?_, ?_⟩
  · simp [eraseProxyPassword, h.config_eq, h.network_eq, Json.erase, Json.assign]
  · simp [passwordPath, Json.path?_cons, Json.lookup_eraseField_self]

end

lemma get_password (data : Json) : get data passwordPath (.string []) =
    (data.path? passwordPath).getD (.string []) :=
  get_eq (cons_ne_nil _ _)

section
variable {cipher : Crypto.Gcm} {nonce : Option Crypto.Nonce} {format : TextFormat}
  {skip : Bool} {saved : SaveOutcome} {s : ConfigState} {incoming config : Json}
  {p : Octets}

lemma setAll_data :
    (setAll format config skip saved s).2.data = config := by
  unfold setAll
  dsimp only
  split_ifs
  · rfl
  · have hdata := @saveToDisk_data format { s with data := config } saved
    split
    · rename_i hsave
      rw [hsave] at hdata
      exact hdata
    · rename_i hsave
      rw [hsave] at hdata
      exact hdata

lemma coreSet_data :
    (coreSetBackendConfig cipher nonce format incoming skip saved s).2.data =
      match preparedConfig cipher nonce incoming s.data with
      | .error _ => s.data
      | .ok config => config := by
  unfold coreSetBackendConfig
  cases preparedConfig cipher nonce incoming s.data with
  | error => rfl
  | ok => exact setAll_data

lemma coreSet_sentinel (h : incoming.path? passwordPath = some (.string storedSentinel)) :
    get
        (coreSetBackendConfig cipher nonce format incoming skip saved s).2.data
        passwordPath (.string []) =
    get s.data passwordPath (.string []) := by
  obtain ⟨fields, network, hnet, -⟩ := exists_network h
  obtain ⟨config, hassign, hpath⟩ :=
    hnet.assign (get s.data passwordPath (.string []))
  have hprepared : preparedConfig cipher nonce incoming s.data = .ok config := by
    unfold preparedConfig
    rw [h, hassign]
    rfl
  rw [coreSet_data, hprepared, get_password, hpath]
  rfl

lemma coreSet_password (h : incoming.path? passwordPath = some (.string p)) (hp : p ≠ [])
    (hsentinel : p ≠ storedSentinel) :
    get
        (coreSetBackendConfig cipher nonce format incoming skip saved s).2.data
        passwordPath (.string []) = .string (encrypt cipher nonce p) := by
  obtain ⟨fields, network, hnet, -⟩ := exists_network h
  by_cases hempty : encrypt cipher nonce p = []
  · obtain ⟨config, herase, hpath⟩ := hnet.erase
    have hprepared : preparedConfig cipher nonce incoming s.data = .ok config := by
      unfold preparedConfig
      rw [h, herase]
      simp [getString, Except.mapError, hsentinel, hp, hempty]
    rw [coreSet_data, hprepared, get_password, hpath, hempty]
    rfl
  · obtain ⟨config, hassign, hpath⟩ := hnet.assign (.string (encrypt cipher nonce p))
    have hprepared : preparedConfig cipher nonce incoming s.data = .ok config := by
      unfold preparedConfig
      rw [h]
      simp [getString, Except.mapError, hsentinel, hp, hempty, hassign]
    rw [coreSet_data, hprepared, get_password, hpath]
    rfl

end

section
variable {dflt : List (Octets × Json)}

lemma ascii_index_ne (i : Nat) : ascii (toString i) ≠ ascii "network" := by
  intro h
  have hn : (0x6E : UInt8) ∈ ascii (toString i) := by
    rw [h]
    decide
  obtain ⟨c, hc, hcode⟩ := mem_map.mp hn
  have hmem : c ∈ Nat.toDigits 10 i := by
    have hlist : (toString i).toList = Nat.toDigits 10 i := String.toList_ofList
    rwa [hlist] at hc
  have hdigit := Nat.isDigit_of_mem_toDigits (by decide) (by decide) hmem
  rw [Char.isDigit, Bool.and_eq_true, decide_eq_true_iff, decide_eq_true_iff] at hdigit
  have hle : c.toNat ≤ 57 := hdigit.2
  have heq := congrArg UInt8.toNat hcode
  rw [UInt8.toNat_ofNat'] at heq
  have hval : (0x6E : UInt8).toNat = 110 := rfl
  omega

lemma lookup_items_network (data : Json) :
    data.items.lookup (ascii "network") = data.field? (ascii "network") := by
  cases data with
  | object => rfl
  | null => rfl
  | array items =>
    have hnone : (array items).items.lookup (ascii "network") = none := by
      rw [lookup_eq_none_iff]
      intro e he
      obtain ⟨i, hi, rfl⟩ := mem_mapIdx.mp he
      simpa using Ne.symm (ascii_index_ne i)
    rw [hnone]
    rfl
  | _ => rfl

lemma getAll_network (store : KeyedStore) :
    (getAll dflt store.state.data).field? (ascii "network") =
    (store.state.data.field? (ascii "network")).or (dflt.lookup (ascii "network")) := by
  rw [getAll, field?_object, lookup_overlay store.nodup,
    lookup_items_network]

lemma getAll_password (store : KeyedStore)
    (h : (store.state.data.field? (ascii "network")).isSome) :
    (getAll dflt store.state.data).path? passwordPath =
    store.state.data.path? passwordPath := by
  obtain ⟨network, hnet⟩ := isSome_iff_exists.mp h
  rw [passwordPath, path?_cons, path?_cons, getAll_network, hnet]
  rfl

lemma get_password_of_shown (store : KeyedStore)
    (h : (getAll dflt store.state.data).path? passwordPath = none ∨
    (getAll dflt store.state.data).path? passwordPath = some (.string [])) :
    get store.state.data passwordPath (.string []) = .string [] := by
  rw [get_password]
  cases hnet : store.state.data.field? (ascii "network") with
  | none =>
    rw [passwordPath, path?_cons, hnet]
    rfl
  | some =>
    rw [getAll_password store (by rw [hnet]; rfl)] at h
    rcases h with h | h
    · rw [h]
      rfl
    · rw [h]
      rfl

end

section
variable {dflt : List (Octets × Json)} {data : Json}

lemma coreGetBackendConfig_of_string {stored : Octets}
    (h : (getAll dflt data).path? passwordPath = some (.string stored)) :
    coreGetBackendConfig dflt data = assignProxyPassword (getAll dflt data)
      (.string (if stored = [] then [] else storedSentinel)) := by
  rw [passwordPath] at h
  unfold coreGetBackendConfig
  dsimp only
  rw [h]

lemma coreGetBackendConfig_of_not_string (h : ∀ stored,
    (getAll dflt data).path? passwordPath ≠ some (.string stored)) :
    coreGetBackendConfig dflt data = .ok (getAll dflt data) := by
  unfold coreGetBackendConfig
  dsimp only
  split
  · next stored hpath => exact absurd hpath (h stored)
  · rfl

end

lemma getSetKeeps (cipher : Crypto.Gcm) (nonce : Option Crypto.Nonce) (format : TextFormat)
    (skip : Bool) (saved : SaveOutcome) (store : KeyedStore)
    (dflt : List (Octets × Json)) :
    GetSetKeeps cipher nonce format skip saved store dflt := by
  -- what is shown, as it is, when it is no text that is masked
  have hplain (hpath : ∀ stored,
      (getAll dflt store.state.data).path? passwordPath ≠ some (.string stored)) :
      get (coreSetBackendConfig cipher nonce format
          (getAll dflt store.state.data) skip saved
          store.state).2.data passwordPath (.string []) =
        get store.state.data passwordPath (.string []) := by
    rw [coreSet_data]
    unfold preparedConfig
    cases hshown : (getAll dflt store.state.data).path? passwordPath with
    | none =>
      rw [get_password_of_shown store (.inl hshown), get_password, hshown]
      rfl
    | some field =>
      cases field with
      | string stored => exact absurd hshown (hpath stored)
      | _ => rfl
  cases hshown : (getAll dflt store.state.data).path? passwordPath with
  | none =>
    have hno : ∀ stored, (getAll dflt store.state.data).path? passwordPath ≠
        some (.string stored) := by simp [hshown]
    exact ⟨_, coreGetBackendConfig_of_not_string hno, hplain hno⟩
  | some field =>
    cases field with
    | string stored =>
      obtain ⟨fields, network, hnet, -⟩ := exists_network hshown
      obtain ⟨shown, hassign, hpath⟩ :=
        hnet.assign (.string (if stored = [] then [] else storedSentinel))
      refine ⟨shown, (coreGetBackendConfig_of_string hshown).trans hassign, ?_⟩
      by_cases hempty : stored = []
      · rw [if_pos hempty] at hpath
        rw [hempty] at hshown
        have hprepared : preparedConfig cipher nonce shown store.state.data = .ok shown := by
          unfold preparedConfig
          rw [hpath]
          rfl
        rw [coreSet_data, hprepared, get_password_of_shown store (.inr hshown), get_password, hpath]
        rfl
      · rw [if_neg hempty] at hpath
        exact coreSet_sentinel hpath
    | _ =>
      have hno : ∀ stored, (getAll dflt store.state.data).path?
          passwordPath ≠ some (.string stored) := by simp [hshown]
      exact ⟨_, coreGetBackendConfig_of_not_string hno, hplain hno⟩

section
variable {cipher : Crypto.Gcm} {nonce : Option Crypto.Nonce} {data data' : Json} {p : Octets}

lemma proxyPassword_congr (h : get data passwordPath (.string []) =
    get data' passwordPath (.string [])) :
    proxyPassword cipher data = proxyPassword cipher data' := by
  rw [proxyPassword, proxyPassword, h]

lemma proxyPassword_of_get {stored : Octets}
    (h : get data passwordPath (.string []) = .string stored) :
    proxyPassword cipher data =
      .ok (if isEncrypted stored then decrypt cipher stored else stored) := by
  rw [proxyPassword, h]
  rfl

end

/-- The password in use is the one that was set exactly when it is not the mark, and could be
encrypted, or when it is the mark and was in use before. What was got can always be set. -/
theorem password_used_iff (cipher : Crypto.Gcm) (nonce : Option Crypto.Nonce) (format : TextFormat)
    (skipPropagation : Bool) (saved : SaveOutcome) (store : KeyedStore)
    (defaults : List (Octets × Json)) (incoming : Json) (p : Octets)
    (hincoming : incoming.path? passwordPath = some (.string p)) (hp : p ≠ [])
    (hlength : p.length < 2 ^ 31) :
    UsesWhatWasSet cipher nonce format skipPropagation saved store incoming p ∧
        GetSetKeeps cipher nonce format skipPropagation saved store defaults ↔
      (p ≠ storedSentinel ∧ nonce.isSome ∨
        p = storedSentinel ∧ proxyPassword cipher store.state.data = .ok p) := by
  rw [and_iff_left (getSetKeeps cipher nonce format skipPropagation saved store defaults)]
  unfold UsesWhatWasSet
  by_cases hsentinel : p = storedSentinel
  · rw [hsentinel] at hincoming
    rw [proxyPassword_congr (coreSet_sentinel hincoming)]
    simp [hsentinel]
  · rw [proxyPassword_of_get (coreSet_password hincoming hp hsentinel)]
    cases nonce with
    | none =>
      have hnone : encrypt cipher none p = [] := by
        rw [encrypt, if_neg hp]
      rw [hnone]
      simp [hsentinel, isEncrypted, Ne.symm hp]
    | some =>
      rw [isEncrypted_encrypt hp, decrypt_encrypt hp hlength]
      simp [hsentinel]

def plainCipher : Crypto.Gcm where
  encrypt _ text := (text, replicate 16 0)
  decrypt _ _ ciphertext := some ciphertext
  length_ciphertext _ _ _ := rfl
  length_tag _ _ := rfl
  decrypt_encrypt _ _ _ := rfl

def zeroNonce : Crypto.Nonce := ⟨replicate 12 0, rfl⟩

def freshStore : KeyedStore where
  state := ⟨.object (getDefaultConfig false false).fields, false, none⟩
  nodup := by decide

def configWith (p : Octets) : Json :=
  .object [(ascii "network", .object [(ascii "proxyPassword", .string p)])]

/-- A password that is not the mark is in use once it is set. -/
theorem password_used_secret :
    UsesWhatWasSet plainCipher (some zeroNonce) .rootOnly true .renamed freshStore
        (configWith (ascii "secret")) (ascii "secret") ∧
      GetSetKeeps plainCipher (some zeroNonce) .rootOnly true .renamed freshStore
        (getDefaultConfig false false).fields :=
  (password_used_iff plainCipher (some zeroNonce) .rootOnly true .renamed freshStore
    (getDefaultConfig false false).fields (configWith (ascii "secret")) (ascii "secret") rfl
    (by decide) (by decide)).mpr (.inl ⟨by decide, rfl⟩)

/-- The password `__SET__` is taken for the mark, and no password is in use. -/
theorem sentinel_password_not_used :
    ¬ UsesWhatWasSet plainCipher (some zeroNonce) .rootOnly true .renamed freshStore
      (configWith (ascii "__SET__")) (ascii "__SET__") := by
  intro h
  have hused : proxyPassword plainCipher freshStore.state.data = .ok (ascii "__SET__") := by
    rw [← h]
    exact (proxyPassword_congr (coreSet_sentinel rfl)).symm
  have hempty : proxyPassword plainCipher freshStore.state.data = .ok [] := rfl
  exact absurd (Except.ok.inj hused) (by decide)

end Millennium.Bindings
