import Millennium.Lib.Json
import Millennium.Lib.PendingMap
import Millennium.Lib.Transitions

/-!
# Calls to a plugin process

Threads in `PluginProcess::call` wait in `m_pending` for the reader thread, whose exit, like the
destructor, fails what is left. A section under `m_pending_mutex` is one step, except for the loops
that fail the promises one after the other.
-/

namespace Millennium.Engine

open Relation Transitions PendingMap Function Nat

abbrev CallId := BitVec 32

inductive Settlement where
  /-- The response with an id: its `result`, or its `error` as an exception. -/
  | response (id : CallId) (outcome : Except String Json)
  | disconnected
  | terminated

inductive CallResult where
  | sendFailed
  | timeout
  | resolved (resolution : Settlement)

inductive PendingPc where
  | idle
  | created (id : CallId)
  | registered (id : CallId)
  | sendFailed (id : CallId)
  | waits (id : CallId)
  | timedOut (id : CallId)
  | finished (id : CallId) (result : CallResult)

def PendingPc.id : PendingPc → Option CallId
  | .idle => none
  | .created id | .registered id | .sendFailed id | .waits id | .timedOut id
  | .finished id _ => some id

def PendingPc.registeredOnly : PendingPc → Bool
  | .registered _ | .sendFailed _ | .waits _ | .timedOut _ => true
  | _ => false

def PendingPc.unregistered : PendingPc → Bool
  | .idle | .created _ => true
  | _ => false

inductive ReaderPc where
  | reads
  | found (call : Nat) (id : CallId) (outcome : Except String Json)
  | wantsLock
  | sweeps
  | ended

inductive DestructorPc where
  | before
  | joins
  | wantsLock
  | sweeps
  | done

/-- A call is known by a number of its own, which also stands for its entry. -/
structure PluginCalls where
  nextId : CallId
  pending : AList (fun _ : CallId => Nat)
  /-- `m_pending_mutex` is held by a loop that has these entries before it. -/
  sweep : Option (List Nat)
  call : Nat → PendingPc
  resolutions : Nat → List Settlement
  reader : ReaderPc
  destructor : DestructorPc

def PluginCalls.start : PluginCalls :=
  ⟨1, ∅, none, fun _ => .idle, fun _ => [], .reads, .before⟩

def PluginCalls.setCall (s : PluginCalls) (c : Nat) (pc : PendingPc) : PluginCalls :=
  { s with call := update s.call c pc }

def PluginCalls.resolve (s : PluginCalls) (c : Nat) (r : Settlement) : PluginCalls :=
  { s with resolutions := update s.resolutions c (s.resolutions c ++ [r]) }

open PluginCalls PendingPc

inductive CallerStep (s : PluginCalls) (c : Nat) : PluginCalls → Prop
  | starts (hpc : s.call c = .idle) :
      CallerStep s c { s.setCall c (.created s.nextId) with nextId := s.nextId + 1 }
  | registers {id : CallId} (hpc : s.call c = .created id) (hfree : s.sweep = none) :
      CallerStep s c { s.setCall c (.registered id) with pending := s.pending.insert id c }
  | sends {id : CallId} (hpc : s.call c = .registered id) : CallerStep s c (s.setCall c (.waits id))
  | sendFails {id : CallId} (hpc : s.call c = .registered id) :
      CallerStep s c (s.setCall c (.sendFailed id))
  | drops {id : CallId} (hpc : s.call c = .sendFailed id) (hfree : s.sweep = none) :
      CallerStep s c
        { s.setCall c (.finished id .sendFailed) with pending := s.pending.erase id }
  | timesOut {id : CallId} (hpc : s.call c = .waits id) (hready : s.resolutions c = []) :
      CallerStep s c (s.setCall c (.timedOut id))
  | expires {id : CallId} (hpc : s.call c = .timedOut id) (hfree : s.sweep = none) :
      CallerStep s c
        { s.setCall c (.finished id .timeout) with pending := s.pending.erase id }
  | gets {id : CallId} {r : Settlement} {rest : List Settlement} (hpc : s.call c = .waits id)
      (hready : s.resolutions c = r :: rest) :
      CallerStep s c (s.setCall c (.finished id (.resolved r)))

/-- The reader thread. A response with an unknown id, or another frame, changes nothing here. -/
inductive ReaderStep (s : PluginCalls) : PluginCalls → Prop
  | finds (id : CallId) (outcome : Except String Json) {c : Nat} (hpc : s.reader = .reads)
      (hfree : s.sweep = none) (hfound : s.pending.lookup id = some c) :
      ReaderStep s { s with pending := s.pending.erase id, reader := .found c id outcome }
  | resolves {c : Nat} {id : CallId} {outcome : Except String Json}
      (hpc : s.reader = .found c id outcome) :
      ReaderStep s { s.resolve c (.response id outcome) with reader := .reads }
  | exits (hpc : s.reader = .reads) : ReaderStep s { s with reader := .wantsLock }
  | locks (hpc : s.reader = .wantsLock) (hfree : s.sweep = none) :
      ReaderStep s { s with sweep := some (values s.pending), reader := .sweeps }
  | fails {c : Nat} {left : List Nat} (hpc : s.reader = .sweeps)
      (hsweep : s.sweep = some (c :: left)) :
      ReaderStep s { s.resolve c .disconnected with sweep := some left }
  | clears (hpc : s.reader = .sweeps) (hsweep : s.sweep = some []) :
      ReaderStep s { s with pending := ∅, sweep := none, reader := .ended }

inductive DestructorStep (s : PluginCalls) : PluginCalls → Prop
  | starts (hpc : s.destructor = .before) : DestructorStep s { s with destructor := .joins }
  | joins (hpc : s.destructor = .joins) (hreader : s.reader = .ended) :
      DestructorStep s { s with destructor := .wantsLock }
  | locks (hpc : s.destructor = .wantsLock) (hfree : s.sweep = none) :
      DestructorStep s { s with sweep := some (values s.pending), destructor := .sweeps }
  | fails {c : Nat} {left : List Nat} (hpc : s.destructor = .sweeps)
      (hsweep : s.sweep = some (c :: left)) :
      DestructorStep s { s.resolve c .terminated with sweep := some left }
  | clears (hpc : s.destructor = .sweeps) (hsweep : s.sweep = some []) :
      DestructorStep s { s with pending := ∅, sweep := none, destructor := .done }

inductive PluginStep (s s' : PluginCalls) : Prop
  | caller (c : Nat) (h : CallerStep s c s')
  | reader (h : ReaderStep s s')
  | destructor (h : DestructorStep s s')

/-- As soon as a call is over its id is not in the map. -/
def GoneAtOnce (s : PluginCalls) : Prop :=
  ∀ c id result, s.call c = .finished id result → id ∉ s.pending

/-- When the mutex is free, an entry under the id of a call that is over is that of a later call. -/
def GoneWhenFree (s : PluginCalls) : Prop :=
  s.sweep = none → ∀ c id result, s.call c = .finished id result →
    ∀ c', s.pending.lookup id = some c' →
      c' ≠ c ∧ (s.call c').id = some id ∧ (s.call c').registeredOnly = true

/-- Promises are resolved once, responses go to the call with their id, and calls that are over are
gone. -/
structure CallsMatched (gone : PluginCalls → Prop) (s : PluginCalls) : Prop where
  once : ∀ c, (s.resolutions c).length ≤ 1
  own : ∀ c id outcome, .response id outcome ∈ s.resolutions c → (s.call c).id = some id
  returned : ∀ c id id' outcome,
    s.call c = .finished id (.resolved (.response id' outcome)) → id' = id
  gone : gone s

def AlwaysMatched (gone : PluginCalls → Prop) : Prop :=
  ∀ s, Reachable PluginStep (· = start) s → CallsMatched gone s

def PluginCalls.waiting (s : PluginCalls) : List Nat :=
  match s.sweep with
  | none => values s.pending
  | some left => left

def ReaderPc.inHand : ReaderPc → Nat → Nat
  | .found c _ _, c' => if c = c' then 1 else 0
  | _, _ => 0

/-- How often the promise was resolved and may still be. -/
def PluginCalls.tokens (s : PluginCalls) (c : Nat) : Nat :=
  (s.resolutions c).length + s.reader.inHand c + s.waiting.count c

section
variable {s s' : PluginCalls}

lemma waiting_of_free (h : s.sweep = none) : s.waiting = values s.pending := by
  simp only [waiting, h]

lemma length_resolve (c c' : Nat) (r : Settlement) : ((s.resolve c r).resolutions c').length =
      (s.resolutions c').length + if c = c' then 1 else 0 := by
  by_cases h : c = c'
  · subst h
    simp [resolve]
  · simp [resolve, update_of_ne (Ne.symm h), h]

lemma tokens_caller_step {c : Nat} (h : CallerStep s c s') (c' : Nat) : s'.tokens c' ≤ s.tokens c' ∨
    c' = c ∧ (∃ id, s.call c = .created id ∧ s'.call c = .registered id) ∧
    s'.tokens c' ≤ s.tokens c' + 1 := by
  cases h with
  | @registers id hpc hfree =>
    have hinsert := count_values_insert_le (m := s.pending) (k := id) (v := c) c'
    by_cases hc : c = c'
    · refine .inr ⟨hc.symm, ⟨id, hpc, by simp [setCall]⟩, ?_⟩
      simp [tokens, waiting, hfree, setCall, hc] at hinsert ⊢
      omega
    · simp [tokens, waiting, hfree, setCall, hc] at hinsert ⊢
      omega
  | @drops id hpc hfree | @expires id hpc hfree =>
    have herase := count_values_erase_le (m := s.pending) (k := id) c'
    left
    simp [tokens, waiting, hfree, setCall]
    omega
  | _ => exact .inl (le_refl _)

lemma tokens_fail {c : Nat} {left : List Nat} (hsweep : s.sweep = some (c :: left))
    (r : Settlement) (c' : Nat) :
    { s.resolve c r with sweep := some left }.tokens c' = s.tokens c' := by
  have hlen := length_resolve (s := s) c c' r
  simp only [tokens, waiting, hsweep, List.count_cons]
  simp [resolve] at hlen ⊢
  omega

lemma tokens_reader_step (h : ReaderStep s s') (c' : Nat) : s'.tokens c' ≤ s.tokens c' := by
  cases h with
  | @finds id outcome c hpc hfree hfound =>
    -- The token goes from the map to the reader's hand.
    have hvalues := (values_erase_of_lookup hfound).count_eq c'
    simp [tokens, waiting, hfree, ReaderPc.inHand, List.count_cons] at hvalues ⊢
    omega
  | @resolves c id outcome hpc =>
    have hlen := length_resolve (s := s) c c' (.response id outcome)
    simp only [tokens, hpc] at hlen ⊢
    exact le_of_eq (by simp only [hlen]; rfl)
  | exits hpc => exact le_of_eq (by simp [tokens, waiting, hpc,
      ReaderPc.inHand])
  | locks hpc hfree => exact le_of_eq (by simp [tokens, waiting, hpc,
      hfree, ReaderPc.inHand])
  | fails hpc hsweep => exact le_of_eq (tokens_fail hsweep _ c')
  | clears hpc hsweep => exact le_of_eq (by simp [tokens, waiting, hpc,
      hsweep, ReaderPc.inHand])

lemma tokens_destructor_step (h : DestructorStep s s') (c' : Nat) : s'.tokens c' ≤ s.tokens c' := by
  cases h with
  | starts | joins => exact le_refl _
  | locks hpc hfree =>
    exact le_of_eq (by simp [tokens, waiting, hfree])
  | fails hpc hsweep => exact le_of_eq (tokens_fail hsweep _ c')
  | clears hpc hsweep =>
    exact le_of_eq (by simp [tokens, waiting, hsweep])

end

section
variable {s s' : PluginCalls}

variable {c : Nat} {id : CallId} {outcome : Except String Json}

lemma call_caller_step (h : CallerStep s c s') : ∃ pc, s'.call = update s.call c pc ∧
    (∀ id, (s.call c).id = some id → pc.id = some id) ∧
    (pc.unregistered = true → (s.call c).unregistered = true) := by
  cases h with
  | starts hpc => exact ⟨_, rfl, by simp [hpc, PendingPc.id], by simp [hpc, unregistered]⟩
  | registers hpc | sends hpc | sendFails hpc | drops hpc | timesOut hpc | expires hpc | gets hpc =>
    exact ⟨_, rfl, by simp [hpc, PendingPc.id], by simp [unregistered]⟩

lemma call_reader_step (h : ReaderStep s s') : s'.call = s.call := by
  cases h <;> rfl

lemma call_destructor_step (h : DestructorStep s s') : s'.call = s.call := by
  cases h <;> rfl

lemma id_step (h : PluginStep s s') (c : Nat) (hid : (s.call c).id = some id) :
    (s'.call c).id = some id := by
  cases h with
  | caller c' h =>
    obtain ⟨pc, hcall, hkeeps, _⟩ := call_caller_step h
    by_cases hc : c = c'
    · subst hc
      simpa [hcall] using hkeeps id hid
    · simpa [hcall, update_of_ne hc] using hid
  | reader h => simpa [call_reader_step h] using hid
  | destructor h => simpa [call_destructor_step h] using hid

lemma unregistered_step (h : PluginStep s s') (c : Nat)
    (hc : (s'.call c).unregistered = true) : (s.call c).unregistered = true := by
  cases h with
  | caller c' h =>
    obtain ⟨pc, hcall, _, hkeeps⟩ := call_caller_step h
    rw [hcall] at hc
    by_cases heq : c = c'
    · subst heq
      exact hkeeps (by simpa using hc)
    · simpa [update_of_ne heq] using hc
  | reader h => simpa [call_reader_step h] using hc
  | destructor h => simpa [call_destructor_step h] using hc

/-- Promises are resolved at most once, and the places where a call's id stands agree. -/
structure PendingInv (s : PluginCalls) : Prop where
  token : ∀ c, s.tokens c ≤ 1
  fresh : ∀ c, (s.call c).unregistered = true → s.tokens c = 0
  response : ∀ c id outcome, .response id outcome ∈ s.resolutions c → (s.call c).id = some id
  hand : ∀ c id outcome, s.reader = .found c id outcome → (s.call c).id = some id
  entry : ∀ id c, s.pending.lookup id = some c → (s.call c).id = some id
  live : s.sweep = none → ∀ id c, s.pending.lookup id = some c →
    (s.call c).registeredOnly = true
  returned : ∀ c id id' outcome,
    s.call c = .finished id (.resolved (.response id' outcome)) → id' = id

lemma token_step (hs : PendingInv s) (h : PluginStep s s') (c : Nat) :
    s'.tokens c ≤ 1 ∧ ((s'.call c).unregistered = true → s'.tokens c = 0) := by
  have hle : s'.tokens c ≤ s.tokens c →
      s'.tokens c ≤ 1 ∧ ((s'.call c).unregistered = true → s'.tokens c = 0) := by
    intro hle
    refine ⟨le_trans hle (hs.token c), fun hc => ?_⟩
    have hzero := hs.fresh c (unregistered_step h c hc)
    omega
  cases h with
  | caller c' h =>
    obtain hless | ⟨rfl, ⟨id, hcreated, hregistered⟩, hmore⟩ := tokens_caller_step h c
    · exact hle hless
    · have hzero := hs.fresh c (by simp [hcreated, unregistered])
      refine ⟨by omega, fun hc => ?_⟩
      simp [hregistered, unregistered] at hc
  | reader h => exact hle (tokens_reader_step h c)
  | destructor h => exact hle (tokens_destructor_step h c)

lemma mem_of_resolve {c' : Nat} {r r' : Settlement} (h : r ∈ (s.resolve c' r').resolutions c) :
    r ∈ s.resolutions c ∨ c = c' ∧ r = r' := by
  by_cases hc : c = c'
  · subst hc
    simpa [resolve] using h
  · exact .inl (by simpa [resolve, update_of_ne hc] using h)

lemma response_of_step (h : PluginStep s s') (hr : .response id outcome ∈ s'.resolutions c) :
    .response id outcome ∈ s.resolutions c ∨ s.reader = .found c id outcome := by
  cases h with
  | caller c' h => cases h <;> exact .inl hr
  | reader h =>
    cases h with
    | resolves hpc =>
      obtain hold | ⟨rfl, heq⟩ := mem_of_resolve hr
      · exact .inl hold
      · cases heq
        exact .inr hpc
    | fails =>
      obtain hold | ⟨_, heq⟩ := mem_of_resolve hr
      · exact .inl hold
      · cases heq
    | _ => exact .inl hr
  | destructor h =>
    cases h with
    | fails =>
      obtain hold | ⟨_, heq⟩ := mem_of_resolve hr
      · exact .inl hold
      · cases heq
    | _ => exact .inl hr

lemma lookup_of_step (h : PluginStep s s') (hl : s'.pending.lookup id = some c) :
    s.pending.lookup id = some c ∨ s'.call c = .registered id := by
  cases h with
  | caller c' h =>
    cases h with
    | @registers id' hpc hfree =>
      by_cases hid : id = id'
      · subst hid
        have hc : c' = c := by simpa using hl
        subst hc
        exact .inr (by simp [setCall])
      · exact .inl (by simpa [AList.lookup_insert_ne hid] using hl)
    | drops | expires => exact .inl (lookup_of_erase hl).2
    | _ => exact .inl hl
  | reader h =>
    cases h with
    | finds => exact .inl (lookup_of_erase hl).2
    | clears => simp at hl
    | _ => exact .inl hl
  | destructor h =>
    cases h with
    | clears => simp at hl
    | _ => exact .inl hl

lemma live_caller_step (hs : PendingInv s) (h : CallerStep s c s') (hfree : s'.sweep = none)
    (hl : s'.pending.lookup id = some c) :
    (s'.call c).registeredOnly = true := by
  have hold : ∀ {pc : PendingPc}, s.call c = pc → s.pending.lookup id = some c →
      s.sweep = none → pc.registeredOnly = true := by
    intro pc hpc hl hfree
    simpa [hpc] using hs.live hfree id c hl
  cases h with
  | starts hpc =>
    have hnot := hold hpc hl hfree
    simp [registeredOnly] at hnot
  | registers | sends | sendFails | timesOut =>
    simp [setCall, registeredOnly]
  | drops hpc | expires hpc =>
    obtain ⟨hne, hlookup⟩ := lookup_of_erase hl
    have hid := hs.entry id c hlookup
    simp only [hpc, PendingPc.id, Option.some.injEq] at hid
    exact absurd hid.symm hne
  | gets hpc hready =>
    have htoken := hs.token c
    have hmem : c ∈ s.waiting := by
      rw [waiting_of_free (s := s) hfree]
      exact mem_values.mpr ⟨id, hl⟩
    have hpos := List.count_pos_iff.mpr hmem
    simp only [tokens, hready, List.length_cons] at htoken
    omega

lemma live_step (hs : PendingInv s) (h : PluginStep s s') (hfree : s'.sweep = none)
    (hl : s'.pending.lookup id = some c) :
    (s'.call c).registeredOnly = true := by
  obtain hold | hnew := lookup_of_step h hl
  · cases h with
    | caller c' h =>
      by_cases hc : c' = c
      · subst hc
        exact live_caller_step hs h hfree hl
      · obtain ⟨pc, hcall, _⟩ := call_caller_step h
        have hfree' : s.sweep = none := by cases h <;> exact hfree
        simpa [hcall, update_of_ne (Ne.symm hc)] using hs.live hfree' id c hold
    | reader h =>
      cases h with
      | clears => simp at hl
      | locks | fails => simp at hfree
      | _ => exact hs.live hfree id c hold
    | destructor h =>
      cases h with
      | clears => simp at hl
      | locks | fails => simp at hfree
      | _ => exact hs.live hfree id c hold
  · simp [hnew, registeredOnly]

lemma hand_step (hs : PendingInv s) (h : PluginStep s s') (hr : s'.reader = .found c id outcome) :
    (s.call c).id = some id := by
  cases h with
  | caller c' h | destructor h => cases h <;> exact hs.hand c id outcome hr
  | reader h =>
    cases h with
    | finds id' outcome' hpc hfree hfound =>
      cases hr
      exact hs.entry id c hfound
    | fails => exact hs.hand c id outcome hr
    | resolves | exits | locks | clears => simp at hr

lemma returned_step (hs : PendingInv s) (h : PluginStep s s') {id' : CallId}
    (hr : s'.call c = .finished id (.resolved (.response id' outcome))) : id' = id := by
  cases h with
  | reader h => exact hs.returned c id id' outcome (by rwa [call_reader_step h] at hr)
  | destructor h => exact hs.returned c id id' outcome (by rwa [call_destructor_step h] at hr)
  | caller c' h =>
    by_cases hc : c = c'
    · subst hc
      cases h with
      | @gets id'' r rest hpc hready =>
        simp only [setCall, update_self] at hr
        obtain ⟨rfl, rfl⟩ := hr
        have hid := hs.response c id' outcome (by simp [hready])
        simpa [hpc, PendingPc.id] using hid.symm
      | _ => simp [setCall] at hr
    · obtain ⟨pc, hcall, _⟩ := call_caller_step h
      apply hs.returned c id id' outcome
      simpa [hcall, update_of_ne hc] using hr

lemma PendingInv.step (hs : PendingInv s) (h : PluginStep s s') : PendingInv s' := by
  refine ⟨fun c => (token_step hs h c).1, fun c => (token_step hs h c).2, ?_, ?_, ?_, ?_, ?_⟩
  · intro c id outcome hr
    apply id_step h
    obtain hold | hhand := response_of_step h hr
    · exact hs.response c id outcome hold
    · exact hs.hand c id outcome hhand
  · intro c id outcome hr
    exact id_step h c (hand_step hs h hr)
  · intro id c hl
    obtain hold | hnew := lookup_of_step h hl
    · exact id_step h c (hs.entry id c hold)
    · simp [hnew, PendingPc.id]
  · intro hfree id c hl
    exact live_step hs h hfree hl
  · intro c id id' outcome hr
    exact returned_step hs h hr

lemma pendingInv_start : PendingInv start := by
  refine ⟨?_, ?_, ?_, ?_, ?_, ?_, ?_⟩
  all_goals simp [start, tokens, waiting, ReaderPc.inHand]

lemma pendingInv_of_reachable (hs : Reachable PluginStep (· = start) s) :
    PendingInv s := by
  apply hs.invariant PendingInv
  · intro s hstart
    subst hstart
    exact pendingInv_start
  · intro s s' ih hstep
    exact ih.step hstep

end

/-- Calls are matched with their responses and gone, seen by anyone who has the mutex. -/
theorem calls_matched_when_free : AlwaysMatched GoneWhenFree := by
  intro s hs
  have hinv := pendingInv_of_reachable hs
  refine ⟨fun c => ?_, hinv.response, hinv.returned, ?_⟩
  · have htoken := hinv.token c
    simp only [tokens] at htoken
    omega
  · intro hfree c id result hfinished c' hl
    have hlive := hinv.live hfree id c' hl
    refine ⟨?_, hinv.entry id c' hl, hlive⟩
    intro hc
    subst hc
    simp [hfinished, registeredOnly] at hlive

/-- The reader's exit fails the promise of a call, which throws, before it clears the map. -/
theorem disconnected_call_still_pending : ¬ AlwaysMatched GoneAtOnce := by
  intro halways
  have hstart : Reachable PluginStep (· = start) start := .init rfl
  have hwaits := ((hstart.tail (.caller 0 (.starts rfl))).tail
    (.caller 0 (.registers rfl rfl))).tail (.caller 0 (.sends rfl))
  have hfails := ((hwaits.tail (.reader (.exits rfl))).tail
    (.reader (.locks rfl rfl))).tail (.reader (.fails rfl rfl))
  have hthrows := hfails.tail (.caller 0 (.gets rfl rfl))
  refine (halways _ hthrows).gone 0 1 (.resolved .disconnected) rfl ?_
  exact AList.lookup_isSome.mp rfl

lemma exists_started (s : PluginCalls) (k n : Nat) (hidle : ∀ c, k ≤ c → s.call c = .idle) :
    ∃ call, ReflTransGen PluginStep s
        { s with nextId := s.nextId + BitVec.ofNat 32 n, call := call } ∧
      (∀ c, c < k → call c = s.call c) ∧ ∀ c, k + n ≤ c → call c = .idle := by
  induction n with
  | zero =>
    refine ⟨s.call, ?_, fun _ _ => rfl, hidle⟩
    simpa using ReflTransGen.refl
  | succ n ih =>
    obtain ⟨call, hrun, hold, hnew⟩ := ih
    have hnext : BitVec.ofNat 32 n + 1 = BitVec.ofNat 32 (n + 1) := (BitVec.ofNat_add ..).symm
    have hstarts := hrun.tail (.caller (k + n) (.starts (hnew _ (le_refl _))))
    simp only [setCall, BitVec.add_assoc, hnext] at hstarts
    refine ⟨_, hstarts, fun c hc => ?_, fun c hc => ?_⟩
    · simpa [update_of_ne (show c ≠ k + n by omega)] using hold c hc
    · simpa [update_of_ne (show c ≠ k + n by omega)] using hnew c (by omega)

/-- With the mutex free, the id of a call that is over can be there for another call, which was
given it 2^32 calls later. -/
lemma reused_id_pending : ¬ AlwaysMatched (fun s => s.sweep = none → GoneAtOnce s) := by
  intro halways
  have hstart : Reachable PluginStep (· = start) start := .init rfl
  have hdrops := (((hstart.tail (.caller 0 (.starts rfl))).tail
    (.caller 0 (.registers rfl rfl))).tail (.caller 0 (.sendFails rfl))).tail
    (.caller 0 (.drops rfl rfl))
  obtain ⟨s, hs, hover, hidle, hnext, hfree⟩ : ∃ s, Reachable PluginStep (· = start) s ∧
      s.call 0 = .finished 1 .sendFailed ∧ (∀ c, 1 ≤ c → s.call c = .idle) ∧ s.nextId = 2 ∧
      s.sweep = none := by
    refine ⟨_, hdrops, rfl, fun c hc => ?_, rfl, rfl⟩
    simp [setCall, start, update_of_ne (Nat.ne_of_gt hc)]
  obtain ⟨call, hrun, hold, hnew⟩ := exists_started s 1 (2 ^ 32 - 1) hidle
  have hwrapped : s.nextId + BitVec.ofNat 32 (2 ^ 32 - 1) = 1 := by
    rw [hnext]
    decide
  rw [hwrapped] at hrun
  have hregisters := ((hs.steps hrun).tail (.caller (2 ^ 32)
    (.starts (hnew _ (Nat.le_of_eq (by omega)))))).tail (.caller (2 ^ 32)
    (.registers (by rfl) hfree))
  refine (halways _ hregisters).gone hfree 0 1 .sendFailed ?_ ?_
  · simpa [setCall, hold 0 (by omega)] using hover
  · simp

end Millennium.Engine
