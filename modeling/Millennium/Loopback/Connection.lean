import Mathlib.Logic.Function.Basic
import Millennium.Lib.Transitions

/-!
# The patch lists that a connection is sent

`register_loopback_conn` adds a listener, sends the patch list, marks the connection as ready and
sends the list again. Whoever changes the registry then calls `notify`. A list is built before
`conn_write_frame` takes `write_mu`. Every write succeeds here.
-/

namespace Millennium.Loopback

open Relation Transitions

abbrev PatchRegistry (E : Type*) := String → Option (List E)

inductive RegistryUpdate (E : Type*) where
  | set (plugin : String) (patches : List E)
  | remove (plugin : String)
  deriving Repr

def RegistryUpdate.apply {E : Type*} : RegistryUpdate E → PatchRegistry E → PatchRegistry E
  | .set plugin patches, registry => Function.update registry plugin (some patches)
  | .remove plugin, registry => Function.update registry plugin none

/-- Where the thread of the connection is, with the list that it has built. -/
inductive ConnPc (E : Type*) where
  | wantsNotifier
  | adds
  | buildsFirst
  | wantsFirst (payload : PatchRegistry E)
  | writesFirst (payload : PatchRegistry E)
  | releasesFirst
  | setsReady
  | buildsSecond
  | wantsSecond (payload : PatchRegistry E)
  | writesSecond (payload : PatchRegistry E)
  | releasesSecond
  | reads

/-- Where a thread that changes the registry is. From `looksUp` on it holds the notifier's mutex. -/
inductive UpdaterPc (E : Type*) where
  | idle
  | wantsNotifier
  | looksUp
  | checksReady
  | builds
  | wantsWrite (payload : PatchRegistry E)
  | writes (payload : PatchRegistry E)
  | releasesWrite
  | releasesNotifier

inductive ConnHolder where
  | connection
  | updater (i : Nat)
  deriving Repr, DecidableEq

structure ConnState (E : Type*) where
  registry : PatchRegistry E
  listening : Bool
  ready : Bool
  notifierMutex : Option ConnHolder
  writeMutex : Option ConnHolder
  frames : List (PatchRegistry E)
  conn : ConnPc E
  updater : Nat → UpdaterPc E

def ConnState.start {E : Type*} (registry : PatchRegistry E) : ConnState E :=
  ⟨registry, false, false, none, none, [], .wantsNotifier, fun _ => .idle⟩

section
variable {E : Type*}

inductive ConnThreadStep (s : ConnState E) : ConnState E → Prop
  | locksNotifier (hpc : s.conn = .wantsNotifier) (hfree : s.notifierMutex = none) :
      ConnThreadStep s { s with notifierMutex := some .connection, conn := .adds }
  | adds (hpc : s.conn = .adds) :
      ConnThreadStep s { s with listening := true, notifierMutex := none, conn := .buildsFirst }
  | buildsFirst (hpc : s.conn = .buildsFirst) :
      ConnThreadStep s { s with conn := .wantsFirst s.registry }
  | locksFirst {payload : PatchRegistry E} (hpc : s.conn = .wantsFirst payload)
      (hfree : s.writeMutex = none) :
      ConnThreadStep s { s with writeMutex := some .connection, conn := .writesFirst payload }
  | writesFirst {payload : PatchRegistry E} (hpc : s.conn = .writesFirst payload) :
      ConnThreadStep s { s with frames := payload :: s.frames, conn := .releasesFirst }
  | releasesFirst (hpc : s.conn = .releasesFirst) :
      ConnThreadStep s { s with writeMutex := none, conn := .setsReady }
  | setsReady (hpc : s.conn = .setsReady) :
      ConnThreadStep s { s with ready := true, conn := .buildsSecond }
  | buildsSecond (hpc : s.conn = .buildsSecond) :
      ConnThreadStep s { s with conn := .wantsSecond s.registry }
  | locksSecond {payload : PatchRegistry E} (hpc : s.conn = .wantsSecond payload)
      (hfree : s.writeMutex = none) :
      ConnThreadStep s { s with writeMutex := some .connection, conn := .writesSecond payload }
  | writesSecond {payload : PatchRegistry E} (hpc : s.conn = .writesSecond payload) :
      ConnThreadStep s { s with frames := payload :: s.frames, conn := .releasesSecond }
  | releasesSecond (hpc : s.conn = .releasesSecond) :
      ConnThreadStep s { s with writeMutex := none, conn := .reads }

/-- A thread that changes the registry and then calls `notify`, as often as it likes. -/
inductive UpdaterStep (s : ConnState E) (i : Nat) : ConnState E → Prop
  | updates (hpc : s.updater i = .idle) (update : RegistryUpdate E) :
      UpdaterStep s i { s with
        registry := update.apply s.registry
        updater := Function.update s.updater i .wantsNotifier }
  | locksNotifier (hpc : s.updater i = .wantsNotifier) (hfree : s.notifierMutex = none) :
      UpdaterStep s i { s with
        notifierMutex := some (.updater i), updater := Function.update s.updater i .looksUp }
  | finds (hpc : s.updater i = .looksUp) (hlistening : s.listening = true) :
      UpdaterStep s i { s with updater := Function.update s.updater i .checksReady }
  | findsNone (hpc : s.updater i = .looksUp) (hlistening : s.listening = false) :
      UpdaterStep s i { s with updater := Function.update s.updater i .releasesNotifier }
  | passes (hpc : s.updater i = .checksReady) (hready : s.ready = true) :
      UpdaterStep s i { s with updater := Function.update s.updater i .builds }
  | returns (hpc : s.updater i = .checksReady) (hready : s.ready = false) :
      UpdaterStep s i { s with updater := Function.update s.updater i .releasesNotifier }
  | builds (hpc : s.updater i = .builds) :
      UpdaterStep s i { s with updater := Function.update s.updater i (.wantsWrite s.registry) }
  | locksWrite {payload : PatchRegistry E} (hpc : s.updater i = .wantsWrite payload)
      (hfree : s.writeMutex = none) :
      UpdaterStep s i { s with
        writeMutex := some (.updater i)
        updater := Function.update s.updater i (.writes payload) }
  | writes {payload : PatchRegistry E} (hpc : s.updater i = .writes payload) :
      UpdaterStep s i { s with
        frames := payload :: s.frames, updater := Function.update s.updater i .releasesWrite }
  | releasesWrite (hpc : s.updater i = .releasesWrite) :
      UpdaterStep s i { s with
        writeMutex := none, updater := Function.update s.updater i .releasesNotifier }
  | releasesNotifier (hpc : s.updater i = .releasesNotifier) :
      UpdaterStep s i { s with
        notifierMutex := none, updater := Function.update s.updater i .idle }

inductive LoopbackStep (s s' : ConnState E) : Prop
  | connection (h : ConnThreadStep s s')
  | updater (i : Nat) (h : UpdaterStep s i s')

end

section
variable {E : Type*}

def ConnState.IsStart (s : ConnState E) : Prop := ∃ registry, s = ConnState.start registry

/-- The connection waits for messages, and nobody is changing the registry or notifying. -/
def ConnState.Idle (s : ConnState E) : Prop := s.conn = .reads ∧ ∀ i, s.updater i = .idle

def ConnState.Current (s : ConnState E) : Prop := s.frames.head? = some s.registry

def ConnPc.second : ConnPc E → Option (PatchRegistry E)
  | .wantsSecond payload | .writesSecond payload => some payload
  | _ => none

/-- Between building and writing the second list nobody else writes a frame. -/
def Undisturbed (s s' : ConnState E) : Prop :=
  s.conn.second ≠ none → s'.conn = s.conn → s'.frames = s.frames

end

section
variable {E : Type*}

def UpdaterPc.payload : UpdaterPc E → Option (PatchRegistry E)
  | .wantsWrite payload | .writes payload => some payload
  | _ => none

def UpdaterPc.fresh : UpdaterPc E → Bool
  | .wantsNotifier | .looksUp | .checksReady | .builds => true
  | _ => false

def UpdaterPc.holds : UpdaterPc E → Bool
  | .idle | .wantsNotifier => false
  | _ => true

def ConnPc.added : ConnPc E → Bool
  | .wantsNotifier | .adds => false
  | _ => true

def ConnPc.isReady : ConnPc E → Bool
  | .buildsSecond | .wantsSecond _ | .writesSecond _ | .releasesSecond | .reads => true
  | _ => false

def ConnPc.sent : ConnPc E → Bool
  | .releasesSecond | .reads => true
  | _ => false

/-- The thread is going to write what is in the registry, or something newer. -/
def UpdaterPc.Sends (registry : PatchRegistry E) (pc : UpdaterPc E) : Prop :=
  pc.fresh = true ∨ pc.payload = some registry

def ConnState.Pending (s : ConnState E) : Prop := ∃ i, (s.updater i).Sends s.registry

structure Sending (s : ConnState E) : Prop where
  adding : s.conn = .adds → s.notifierMutex = some .connection
  owned : ∀ i, (s.updater i).holds = true → s.notifierMutex = some (.updater i)
  listening : s.conn.added = true → s.listening = true
  ready : s.conn.isReady = true → s.ready = true
  /-- Whoever holds an old list is followed by somebody who waits for the notifier. -/
  followed : ∀ i payload, (s.updater i).payload = some payload →
    payload = s.registry ∨ ∃ j, s.updater j = .wantsNotifier
  second : ∀ payload, s.conn.second = some payload → payload = s.registry ∨ s.Pending
  last : s.conn.sent = true → s.Current ∨ s.Pending

end

section
variable {E : Type*} {s s' : ConnState E}

lemma Sending.start (reg : PatchRegistry E) : Sending (ConnState.start reg) where
  adding := by simp [ConnState.start]
  owned := by simp [ConnState.start, UpdaterPc.holds]
  listening := by simp [ConnState.start, ConnPc.added]
  ready := by simp [ConnState.start, ConnPc.isReady]
  followed := by simp [ConnState.start, UpdaterPc.payload]
  second := by simp [ConnState.start, ConnPc.second]
  last := by simp [ConnState.start, ConnPc.sent]

lemma Sending.conn_step (hs : Sending s) (h : ConnThreadStep s s') : Sending s' := by
  obtain ⟨hadding, howned, hlistening, hready, hfollowed, hsecond, hlast⟩ := hs
  cases h with
  | locksNotifier hpc hfree =>
    refine ⟨fun _ => rfl, fun i hi => ?_, by simp [ConnPc.added], by simp [ConnPc.isReady], hfollowed,
      by simp [ConnPc.second], by simp [ConnPc.sent]⟩
    have := howned i hi
    rw [hfree] at this
    cases this
  | adds hpc =>
    refine ⟨by simp, fun i hi => ?_, fun _ => rfl, by simp [ConnPc.isReady], hfollowed,
      by simp [ConnPc.second], by simp [ConnPc.sent]⟩
    have := howned i hi
    rw [hadding hpc] at this
    cases this
  | buildsFirst hpc | locksFirst hpc | writesFirst hpc | releasesFirst hpc =>
    exact ⟨by simp, howned, fun _ => hlistening (by rw [hpc]; rfl), by simp [ConnPc.isReady],
      hfollowed, by simp [ConnPc.second], by simp [ConnPc.sent]⟩
  | setsReady hpc =>
    exact ⟨by simp, howned, fun _ => hlistening (by rw [hpc]; rfl), fun _ => rfl,
      hfollowed, by simp [ConnPc.second], by simp [ConnPc.sent]⟩
  | buildsSecond hpc =>
    refine ⟨by simp, howned, fun _ => hlistening (by rw [hpc]; rfl),
      fun _ => hready (by rw [hpc]; rfl), hfollowed, ?_, by simp [ConnPc.sent]⟩
    rintro body ⟨⟩
    exact .inl rfl
  | locksSecond hpc =>
    refine ⟨by simp, howned, fun _ => hlistening (by rw [hpc]; rfl),
      fun _ => hready (by rw [hpc]; rfl), hfollowed, ?_, by simp [ConnPc.sent]⟩
    rintro body ⟨⟩
    exact hsecond _ (by rw [hpc]; rfl)
  | writesSecond hpc =>
    refine ⟨by simp, howned, fun _ => hlistening (by rw [hpc]; rfl),
      fun _ => hready (by rw [hpc]; rfl), hfollowed, by simp [ConnPc.second], fun _ => ?_⟩
    exact (hsecond _ (by rw [hpc]; rfl)).imp_left (congrArg some)
  | releasesSecond hpc =>
    exact ⟨by simp, howned, fun _ => hlistening (by rw [hpc]; rfl),
      fun _ => hready (by rw [hpc]; rfl), hfollowed, by simp [ConnPc.second],
      fun _ => hlast (by rw [hpc]; rfl)⟩

lemma UpdaterPc.holds_of_payload {pc : UpdaterPc E} {body : PatchRegistry E}
    (h : pc.payload = some body) : pc.holds = true := by
  cases pc <;> first | rfl | cases h

lemma Sending.owned_updater_step {i : Nat} (hs : Sending s) (h : UpdaterStep s i s') :
    (s'.conn = .adds → s'.notifierMutex = some .connection) ∧
    ∀ j, (s'.updater j).holds = true → s'.notifierMutex = some (.updater j) := by
  have hadding := hs.adding
  have howned := hs.owned
  cases h <;> constructor <;> grind [UpdaterPc.holds]

section
variable {updater : Nat → UpdaterPc E} {i : Nat} {pc : UpdaterPc E} {reg : PatchRegistry E}

lemma exists_waiting_update (hi : updater i ≠ .wantsNotifier)
    (h : ∃ k, updater k = .wantsNotifier) :
    ∃ k, Function.update updater i pc k = .wantsNotifier := by
  obtain ⟨k, hk⟩ := h
  have hne : k ≠ i := fun heq => hi (heq ▸ hk)
  exact ⟨k, by rw [Function.update_of_ne hne, hk]⟩

lemma followed_update (hi : updater i ≠ .wantsNotifier)
    (hpc : ∀ body, pc.payload = some body →
    body = reg ∨ (updater i).payload = some body)
    (h : ∀ j body, (updater j).payload = some body →
    body = reg ∨ ∃ k, updater k = .wantsNotifier) (j : Nat)
    (body : PatchRegistry E) (hj : (Function.update updater i pc j).payload = some body) :
    body = reg ∨ ∃ k, Function.update updater i pc k = .wantsNotifier := by
  by_cases hji : j = i
  · subst hji
    rw [Function.update_self] at hj
    rcases hpc body hj with hcurrent | hold
    · exact .inl hcurrent
    · exact (h j body hold).imp_right (exists_waiting_update hi)
  · rw [Function.update_of_ne hji] at hj
    exact (h j body hj).imp_right (exists_waiting_update hi)

lemma pending_update (hpc : (updater i).Sends reg → pc.Sends reg)
    (h : ∃ j, (updater j).Sends reg) :
    ∃ j, (Function.update updater i pc j).Sends reg := by
  obtain ⟨j, hj⟩ := h
  by_cases hji : j = i
  · subst hji
    exact ⟨j, by rw [Function.update_self]; exact hpc hj⟩
  · exact ⟨j, by rw [Function.update_of_ne hji]; exact hj⟩

end

lemma Sending.followed_updater_step {i : Nat} (hs : Sending s) (h : UpdaterStep s i s') :
    ∀ j body, (s'.updater j).payload = some body →
    body = s'.registry ∨ ∃ k, s'.updater k = .wantsNotifier := by
  cases h with
  | updates => exact fun j body _ => .inr ⟨i, Function.update_self ..⟩
  | locksNotifier hpc hfree =>
    -- nobody has a list while the mutex is free
    have hnone : ∀ j body, (s.updater j).payload ≠ some body := by
      intro j body hpayload
      have hmutex := hs.owned j (UpdaterPc.holds_of_payload hpayload)
      rw [hfree] at hmutex
      cases hmutex
    intro j body hpayload
    by_cases hj : j = i
    · subst hj
      simp [UpdaterPc.payload] at hpayload
    · simp only [Function.update_of_ne hj] at hpayload
      exact (hnone j body hpayload).elim
  | builds hpc =>
    refine followed_update (by simp [hpc]) ?_ hs.followed
    rintro body ⟨⟩
    exact .inl rfl
  | locksWrite hpc =>
    refine followed_update (by simp [hpc]) ?_ hs.followed
    rintro body ⟨⟩
    exact .inr (by rw [hpc]; rfl)
  | finds hpc _ | findsNone hpc _ | passes hpc _ | returns hpc _ | writes hpc | releasesWrite hpc
  | releasesNotifier hpc =>
    exact followed_update (by simp [hpc]) (by simp [UpdaterPc.payload]) hs.followed

lemma Sending.pending_updater_step {i : Nat} (hs : Sending s) (h : UpdaterStep s i s')
    (hready : s.conn.isReady = true) (hframes : s'.frames = s.frames) (hpending : s.Pending) :
    s'.Pending := by
  have hadded : s.conn.added = true := by
    revert hready
    cases s.conn <;> simp [ConnPc.isReady, ConnPc.added]
  cases h with
  | updates => exact ⟨i, .inl (by simp [UpdaterPc.fresh])⟩
  | locksNotifier | finds | passes =>
    exact pending_update (fun _ => .inl rfl) hpending
  | builds => exact pending_update (fun _ => .inr rfl) hpending
  | locksWrite hpc =>
    refine pending_update (fun hsends => ?_) hpending
    simpa [UpdaterPc.Sends, hpc, UpdaterPc.fresh, UpdaterPc.payload] using hsends
  | findsNone hpc hlistening =>
    rw [hs.listening hadded] at hlistening
    exact Bool.noConfusion hlistening
  | returns hpc hnot =>
    rw [hs.ready hready] at hnot
    exact Bool.noConfusion hnot
  | writes => exact (List.cons_ne_self _ _ hframes).elim
  | releasesWrite hpc | releasesNotifier hpc =>
    refine pending_update (fun hsends => ?_) hpending
    simp [UpdaterPc.Sends, hpc, UpdaterPc.fresh, UpdaterPc.payload] at hsends

lemma UpdaterStep.conn_eq {i : Nat} (h : UpdaterStep s i s') :
    s'.conn = s.conn ∧ s'.listening = s.listening ∧ s'.ready = s.ready := by
  cases h <;> exact ⟨rfl, rfl, rfl⟩

lemma UpdaterStep.registry_or_pending {i : Nat} (h : UpdaterStep s i s') :
    s'.registry = s.registry ∨ s'.Pending := by
  cases h with
  | updates => exact .inr ⟨i, .inl (by simp [UpdaterPc.fresh])⟩
  | _ => exact .inl rfl

lemma UpdaterStep.frames_eq {i : Nat} (h : UpdaterStep s i s') :
    s'.frames = s.frames ∨ ∃ body, s.updater i = .writes body ∧
    s'.frames = body :: s.frames ∧ s'.registry = s.registry ∧
    s'.updater = Function.update s.updater i .releasesWrite := by
  cases h with
  | writes hpc => exact .inr ⟨_, hpc, rfl, rfl, rfl⟩
  | _ => exact .inl rfl

lemma Sending.updater_step {i : Nat} (hs : Sending s) (h : UpdaterStep s i s')
    (hundisturbed : Undisturbed s s') : Sending s' := by
  obtain ⟨hconn, hlistening, hready⟩ := h.conn_eq
  obtain ⟨hadding, howned⟩ := hs.owned_updater_step h
  refine ⟨hadding, howned, ?_, ?_, hs.followed_updater_step h, ?_, ?_⟩
  · rw [hconn, hlistening]
    exact hs.listening
  · rw [hconn, hready]
    exact hs.ready
  · intro body hsecond
    rw [hconn] at hsecond
    have hisReady : s.conn.isReady = true := by
      revert hsecond
      cases s.conn <;> simp [ConnPc.second, ConnPc.isReady]
    have hframes := hundisturbed (by rw [hsecond]; exact Option.some_ne_none _) hconn
    rcases hs.second body hsecond with rfl | hpending
    · exact h.registry_or_pending.imp_left Eq.symm
    · exact .inr (hs.pending_updater_step h hisReady hframes hpending)
  · intro hsent
    rw [hconn] at hsent
    have hisReady : s.conn.isReady = true := by
      revert hsent
      cases s.conn <;> simp [ConnPc.sent, ConnPc.isReady]
    rcases h.frames_eq with hframes | ⟨body, hpc, hframes, hregistry, hupdater⟩
    · rcases hs.last hsent with hcurrent | hpending
      · refine h.registry_or_pending.imp_left fun hregistry => ?_
        rw [ConnState.Current, hframes, hregistry]
        exact hcurrent
      · exact .inr (hs.pending_updater_step h hisReady hframes hpending)
    · -- this frame is up to date, or somebody waits to write the next one
      rcases hs.followed i body (by rw [hpc]; rfl) with rfl | hwaiting
      · exact .inl (by rw [ConnState.Current, hframes, hregistry]; rfl)
      · obtain ⟨k, hk⟩ : ∃ k, s'.updater k = .wantsNotifier := by
          rw [hupdater]
          exact exists_waiting_update (by simp [hpc]) hwaiting
        exact .inr ⟨k, .inl (by rw [hk]; rfl)⟩

lemma Sending.step (hs : Sending s) (h : Allowed LoopbackStep Undisturbed s s') : Sending s' := by
  cases h.step with
  | connection hconn => exact hs.conn_step hconn
  | updater i hupdater => exact hs.updater_step hupdater h.allowed

lemma Sending.current_of_idle (hs : Sending s) (hidle : s.Idle) : s.Current := by
  rcases hs.last (by rw [hidle.1]; rfl) with hcurrent | ⟨i, hsends⟩
  · exact hcurrent
  · rw [UpdaterPc.Sends, hidle.2 i] at hsends
    simp [UpdaterPc.fresh, UpdaterPc.payload] at hsends

/-- In every run in which nobody writes a frame while the second list is on its way, the last
frame has what is in the registry once all threads are idle. -/
theorem last_frame_current (h : Reachable (Allowed LoopbackStep Undisturbed) ConnState.IsStart s)
    (hidle : s.Idle) : s.Current := by
  have hsending : Sending s := by
    refine h.invariant Sending ?_ fun _ _ hs hstep => hs.step hstep
    rintro _ ⟨registry, rfl⟩
    exact Sending.start registry
  exact hsending.current_of_idle hidle

lemma undisturbed_of_none (h : s.conn.second = none) : Undisturbed s s' :=
  fun hsecond => (hsecond h).elim

def ConnState.announced (registry : PatchRegistry E) : ConnState E :=
  ⟨registry, true, true, none, none, [registry], .buildsSecond, fun _ => .idle⟩

lemma reachable_announced (reg : PatchRegistry E) :
    Reachable (Allowed LoopbackStep Undisturbed) ConnState.IsStart
      (ConnState.announced reg) := by
  have h0 : Reachable (Allowed LoopbackStep Undisturbed) ConnState.IsStart
      (ConnState.start reg) := Reachable.init ⟨reg, rfl⟩
  have h1 := h0.tail ⟨.connection (.locksNotifier rfl rfl), undisturbed_of_none rfl⟩
  have h2 := h1.tail ⟨.connection (.adds rfl), undisturbed_of_none rfl⟩
  have h3 := h2.tail ⟨.connection (.buildsFirst rfl), undisturbed_of_none rfl⟩
  have h4 := h3.tail ⟨.connection (.locksFirst rfl rfl), undisturbed_of_none rfl⟩
  have h5 := h4.tail ⟨.connection (.writesFirst rfl), undisturbed_of_none rfl⟩
  have h6 := h5.tail ⟨.connection (.releasesFirst rfl), undisturbed_of_none rfl⟩
  exact h6.tail ⟨.connection (.setsReady rfl), undisturbed_of_none rfl⟩

lemma notifies {allowed : ConnState E → ConnState E → Prop} {reg : PatchRegistry E}
    {frames : List (PatchRegistry E)} {conn : ConnPc E}
    (hallowed : ∀ s s' : ConnState E, s.conn = conn → allowed s s') (update : RegistryUpdate E) :
    ReflTransGen (Allowed LoopbackStep allowed)
      ⟨reg, true, true, none, none, frames, conn, fun _ => .idle⟩
      ⟨update.apply reg, true, true, none, none, update.apply reg :: frames, conn,
    fun _ => .idle⟩ := by
  have hstep : ∀ {s s' : ConnState E}, UpdaterStep s 0 s' → s.conn = conn →
      Allowed LoopbackStep allowed s s' :=
    fun h hconn => ⟨.updater 0 h, hallowed _ _ hconn⟩
  have h1 := ReflTransGen.single (hstep (s := ⟨reg, true, true, none, none, frames, conn,
    fun _ => .idle⟩) (.updates rfl update) rfl)
  have h2 := h1.tail (hstep (.locksNotifier (by simp) rfl) rfl)
  have h3 := h2.tail (hstep (.finds (by simp) rfl) rfl)
  have h4 := h3.tail (hstep (.passes (by simp) rfl) rfl)
  have h5 := h4.tail (hstep (.builds (by simp)) rfl)
  have h6 := h5.tail (hstep (@UpdaterStep.locksWrite _ _ _ (update.apply reg) (by simp) rfl) rfl)
  have h7 := h6.tail (hstep (@UpdaterStep.writes _ _ _ (update.apply reg) (by simp)) rfl)
  have h8 := h7.tail (hstep (.releasesWrite (by simp)) rfl)
  have h9 := h8.tail (hstep (.releasesNotifier (by simp)) rfl)
  have hidle : Function.update (fun _ => UpdaterPc.idle) 0 .idle =
      (fun _ => .idle : Nat → UpdaterPc E) := Function.update_eq_self 0 _
  simpa only [Function.update_idem, hidle] using h9

/-- The second list is sent before the registry changes. -/
theorem last_frame_current_after_update :
    ∃ s : ConnState Nat, s.Idle ∧ s.registry "p" = some [1] ∧ s.Current := by
  have hsecond := ((reachable_announced (fun _ => none : PatchRegistry Nat)).tail
    ⟨.connection (.buildsSecond rfl), undisturbed_of_none rfl⟩).tail
    ⟨.connection (.locksSecond rfl rfl), fun _ _ => rfl⟩
  have hreads := (hsecond.tail ⟨.connection (.writesSecond rfl), fun _ hconn => by cases hconn⟩).tail
    ⟨.connection (.releasesSecond rfl), undisturbed_of_none rfl⟩
  have hnotified := hreads.steps (notifies (fun s s' hconn => undisturbed_of_none
    (by rw [hconn]; rfl)) (.set "p" [1]))
  exact ⟨_, ⟨rfl, fun _ => rfl⟩, rfl, last_frame_current hnotified ⟨rfl, fun _ => rfl⟩⟩

/-- The second list is built, the registry changes and the new list is sent, and then the
second list is sent. -/
theorem stale_list_sent_last :
    ∃ s : ConnState Nat, Reachable LoopbackStep ConnState.IsStart s ∧ s.Idle ∧
      s.registry "p" = some [1] ∧ (s.frames.head?.map fun frame => frame "p") = some none ∧
      ¬ s.Current := by
  have hbuilt := (reachable_announced (fun _ => none : PatchRegistry Nat)).of_allowed.tail
    (.connection (.buildsSecond rfl))
  have hnotified : Reachable LoopbackStep ConnState.IsStart _ := hbuilt.steps
    (steps_of_allowed (@notifies Nat (fun _ _ => True) _ _ _ (fun _ _ _ => trivial) (.set "p" [1])))
  have hwritten := ((hnotified.tail (.connection (.locksSecond rfl rfl))).tail
    (.connection (.writesSecond rfl))).tail (.connection (.releasesSecond rfl))
  refine ⟨_, hwritten, ⟨rfl, fun _ => rfl⟩, rfl, rfl, fun hcurrent => ?_⟩
  have hsame := congrFun (Option.some.inj hcurrent) "p"
  exact absurd hsame (by decide)

end

end Millennium.Loopback
