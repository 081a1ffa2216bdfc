import Mathlib.Data.List.Nodup
import Mathlib.Data.Set.Card

/-!
# Listeners of events

`cdp_client` finds a listener by its token, which is drawn from a counter of 32 bits. `ffi_binder`
registers one listener for each event that plugins have subscribed to.
-/

namespace Millennium.Engine

open Function List

/-- The maps of `cdp_client` from events to the tokens of their listeners and back. -/
structure EventRegistry where
  eventCallbacks : String → Option (List (BitVec 32)) := fun _ => none
  nextEventToken : BitVec 32 := 1
  tokenToEvent : BitVec 32 → Option String := fun _ => none
  isShutdown : Bool := false

inductive RegistryCall where
  | onEvent (event : String)
  | off (token : BitVec 32)
  | offAll (event : String)
  | shutdown

namespace EventRegistry

def listeners (r : EventRegistry) (event : String) : List (BitVec 32) :=
  (r.eventCallbacks event).getD []

def onEvent (r : EventRegistry) (event : String) : EventRegistry :=
  let r' := { r with nextEventToken := r.nextEventToken + 1 }
  if r.isShutdown then r'
  else { r' with
    eventCallbacks := fun e =>
      if e = event then some (r.listeners e ++ [r.nextEventToken]) else r.eventCallbacks e
    tokenToEvent := fun t => if t = r.nextEventToken then some event else r.tokenToEvent t }

def off (r : EventRegistry) (token : BitVec 32) : EventRegistry :=
  match r.tokenToEvent token with
  | none => r
  | some event =>
    let rest := (r.listeners event).filter (· ≠ token)
    { r with
      eventCallbacks := fun e =>
        if e = event then (if rest = [] then none else some rest) else r.eventCallbacks e
      tokenToEvent := fun t => if t = token then none else r.tokenToEvent t }

def offAll (r : EventRegistry) (event : String) : EventRegistry :=
  match r.eventCallbacks event with
  | none => r
  | some listeners => { r with
    eventCallbacks := fun e => if e = event then none else r.eventCallbacks e
    tokenToEvent := fun t => if t ∈ listeners then none else r.tokenToEvent t }

def shutdown (r : EventRegistry) : EventRegistry :=
  if r.isShutdown then r
  else { r with
    eventCallbacks := fun _ => none, tokenToEvent := fun _ => none, isShutdown := true }

def call (r : EventRegistry) : RegistryCall → EventRegistry
  | .onEvent event => r.onEvent event
  | .off token => r.off token
  | .offAll event => r.offAll event
  | .shutdown => r.shutdown

def after (calls : List RegistryCall) : EventRegistry := calls.foldl call {}

/-- The maps agree, and `off` removes the listener of its token and no other. -/
structure Agrees (r : EventRegistry) : Prop where
  tokens : ∀ t e, r.tokenToEvent t = some e ↔
    (r.listeners e).count t = 1 ∧ ∀ e' ≠ e, t ∉ r.listeners e'
  nonempty : ∀ e, r.eventCallbacks e ≠ some []
  off : ∀ t e, (r.off t).listeners e = (r.listeners e).filter (· ≠ t)

def AlwaysAgrees (calls : List RegistryCall) : Prop := ∀ done, done <+: calls → (after done).Agrees

/-- If `on` registers a listener now, no other one has its token. -/
def Fresh (r : EventRegistry) : Prop :=
  r.isShutdown = false → r.tokenToEvent r.nextEventToken = none

def AlwaysFresh (calls : List RegistryCall) : Prop :=
  ∀ done event, done ++ [.onEvent event] <+: calls → (after done).Fresh

structure Sound (r : EventRegistry) : Prop where
  nodup : ∀ e, (r.listeners e).Nodup
  tokens : ∀ t e, r.tokenToEvent t = some e ↔ t ∈ r.listeners e
  nonempty : ∀ e, r.eventCallbacks e ≠ some []

variable {r : EventRegistry}

lemma listeners_onEvent (h : r.isShutdown = false) (event e : String) :
    (r.onEvent event).listeners e =
      if e = event then r.listeners e ++ [r.nextEventToken] else r.listeners e := by
  simp only [onEvent, h, listeners]
  split_ifs <;> simp_all

lemma listeners_off (r : EventRegistry) (t : BitVec 32) (e : String) : (r.off t).listeners e =
    if r.tokenToEvent t = some e then (r.listeners e).filter (· ≠ t) else r.listeners e := by
  cases h : r.tokenToEvent t with
  | none => simp [off, h]
  | some event =>
    simp only [off, h, listeners]
    grind

namespace Sound
variable (h : r.Sound)
include h

lemma listeners_off (t : BitVec 32) (e : String) :
    (r.off t).listeners e = (r.listeners e).filter (· ≠ t) := by
  have htokens := h.tokens t e
  rw [EventRegistry.listeners_off]
  grind [filter_eq_self]

lemma onEvent (hfresh : r.Fresh) (event : String) : (r.onEvent event).Sound := by
  have htokens := h.tokens
  have hnodup := h.nodup
  cases hshut : r.isShutdown with
  | true =>
    rw [EventRegistry.onEvent, if_pos hshut]
    exact ⟨hnodup, htokens, h.nonempty⟩
  | false =>
    have hnew := hfresh hshut
    refine ⟨fun e => ?_, fun t e => ?_, fun e => ?_⟩
    · rw [listeners_onEvent hshut]
      grind
    · rw [listeners_onEvent hshut]
      simp only [EventRegistry.onEvent, hshut]
      grind
    · by_cases he : e = event <;> simp [EventRegistry.onEvent, hshut, he, h.nonempty]

lemma off (t : BitVec 32) : (r.off t).Sound := by
  have htokens := h.tokens
  refine ⟨fun e => ?_, fun t' e => ?_, fun e => ?_⟩
  · rw [h.listeners_off]
    exact (h.nodup e).filter _
  · rw [h.listeners_off]
    simp only [EventRegistry.off]
    grind
  · have hne := h.nonempty e
    simp only [EventRegistry.off]
    grind

lemma offAll (event : String) : (r.offAll event).Sound := by
  have htokens := h.tokens
  have hnodup := h.nodup
  have hne := h.nonempty
  simp only [listeners] at htokens hnodup
  refine ⟨fun e => ?_, fun t e => ?_, fun e => ?_⟩ <;>
    simp only [EventRegistry.offAll, listeners] <;> grind

lemma shutdown : r.shutdown.Sound := by
  rw [EventRegistry.shutdown]
  split_ifs
  · exact h
  · exact ⟨fun _ => nodup_nil, by simp [listeners], by simp⟩

lemma agrees : r.Agrees where
  tokens t e := by
    have htokens := h.tokens t
    have hnodup := h.nodup e
    rw [htokens, ← List.one_le_count_iff]
    grind
  nonempty := h.nonempty
  off := h.listeners_off

end Sound

lemma after_concat (calls : List RegistryCall) (c : RegistryCall) :
    after (calls ++ [c]) = (after calls).call c :=
  foldl_concat ..

lemma sound_empty : ({} : EventRegistry).Sound :=
  ⟨fun _ => nodup_nil, by simp [listeners], by simp⟩

lemma AlwaysFresh.sound {calls : List RegistryCall} (h : AlwaysFresh calls) :
    (after calls).Sound := by
  induction calls using List.reverseRecOn with
  | nil => exact sound_empty
  | append_singleton calls c ih =>
    have hsound := ih fun done event hdone => h done event (hdone.trans (prefix_append _ _))
    rw [after_concat]
    cases c with
    | onEvent event => exact hsound.onEvent (h calls event List.prefix_rfl) event
    | off token => exact hsound.off token
    | offAll event => exact hsound.offAll event
    | shutdown => exact hsound.shutdown

lemma Agrees.fresh (h : r.Agrees) {event : String} (hon : (r.onEvent event).Agrees) : r.Fresh := by
  intro hshut
  have hnew : (r.onEvent event).tokenToEvent r.nextEventToken = some event := by
    simp [EventRegistry.onEvent, hshut]
  obtain ⟨hone, helse⟩ := (hon.tokens _ _).mp hnew
  simp only [listeners_onEvent hshut] at hone helse
  by_contra hold
  obtain ⟨e, he⟩ := Option.ne_none_iff_exists'.mp hold
  obtain ⟨hcount, -⟩ := (h.tokens _ _).mp he
  grind

lemma AlwaysAgrees.alwaysFresh {calls : List RegistryCall} (h : AlwaysAgrees calls) :
    AlwaysFresh calls := by
  intro done event hdone
  have hon := h _ hdone
  rw [after_concat] at hon
  exact (h done ((prefix_append _ _).trans hdone)).fresh hon

/-- The registry agrees with itself exactly when every token is drawn while no listener has it. -/
theorem alwaysAgrees_iff (calls : List RegistryCall) : AlwaysAgrees calls ↔ AlwaysFresh calls :=
  ⟨AlwaysAgrees.alwaysFresh, fun h _ hdone =>
    (AlwaysFresh.sound fun done event hd => h done event (hd.trans hdone)).agrees⟩

lemma off_onEvent (hshut : r.isShutdown = false) (hnew : r.tokenToEvent r.nextEventToken = none)
    (event : String) (hnone : r.eventCallbacks event = none) :
    (r.onEvent event).off r.nextEventToken =
      { r with nextEventToken := r.nextEventToken + 1 } := by
  simp only [onEvent, hshut, off, listeners, Bool.false_eq_true, if_false, if_true, mk.injEq,
    true_and, and_true]
  constructor
  · funext e
    grind
  · funext t
    grind

def held (n : Nat) : EventRegistry :=
  { after [.onEvent "a"] with nextEventToken := BitVec.ofNat 32 n + 2 }

lemma off_onEvent_held {n : Nat} (hn : n < 4294967295) :
    ((held n).onEvent "b").off (held n).nextEventToken = held (n + 1) := by
  have hne : BitVec.ofNat 32 n + 2 ≠ 1 := by bv_omega
  have hsum : BitVec.ofNat 32 n + 2 + 1 = BitVec.ofNat 32 (n + 1) + 2 := by bv_omega
  rw [off_onEvent rfl (if_neg hne) "b" rfl, held, held, ← hsum]

def wrappingCalls (n : Nat) : List RegistryCall :=
  .onEvent "a" :: (range n).flatMap fun i => [.onEvent "b", .off (BitVec.ofNat 32 i + 2)]

lemma after_wrappingCalls {n : Nat} (hn : n < 4294967296) : after (wrappingCalls n) = held n := by
  induction n with
  | zero => rfl
  | succ n ih =>
    rw [wrappingCalls, range_succ, flatMap_append, ← cons_append, ← wrappingCalls, after,
      foldl_append, ← after, ih (by omega), ← off_onEvent_held (by omega)]
    rfl

theorem reused_token_disagrees :
    ¬ AlwaysAgrees (wrappingCalls 4294967295 ++ [.onEvent "b"]) := by
  intro h
  have hfresh := h.alwaysFresh _ _ List.prefix_rfl
  rw [after_wrappingCalls (by decide)] at hfresh
  exact absurd (hfresh rfl) (by decide)

end EventRegistry

/-- The maps of `ffi_binder` for events, and the client, which nobody else calls. -/
structure Subscriptions where
  eventSubs : String → Option (List String) := fun _ => none
  eventSubTokens : String → Option (BitVec 32) := fun _ => none
  client : EventRegistry := {}

inductive SubscriptionCall where
  | subscribe (plugin event : String)
  | unsubscribe (plugin event : String)

namespace Subscriptions

def subscribe (s : Subscriptions) (plugin event : String) : Subscriptions :=
  let subs := (s.eventSubs event).getD []
  let s' := { s with eventSubs := fun e =>
    if e = event then some (subs.insert plugin) else s.eventSubs e }
  if subs = [] then { s' with
    eventSubTokens := fun e =>
      if e = event then some s.client.nextEventToken else s.eventSubTokens e
    client := s.client.onEvent event }
  else s'

def unsubscribe (s : Subscriptions) (plugin event : String) : Subscriptions :=
  match s.eventSubs event with
  | none => s
  | some subs =>
    let rest := subs.filter (· ≠ plugin)
    let s' := { s with eventSubs := fun e =>
      if e = event then (if rest = [] then none else some rest) else s.eventSubs e }
    if rest = [] then
      match s.eventSubTokens event with
      | none => s'
      | some token => { s' with
        eventSubTokens := fun e => if e = event then none else s.eventSubTokens e
        client := s.client.off token }
    else s'

def call (s : Subscriptions) : SubscriptionCall → Subscriptions
  | .subscribe plugin event => if plugin = "" ∨ event = "" then s else s.subscribe plugin event
  | .unsubscribe plugin event => if plugin = "" ∨ event = "" then s else s.unsubscribe plugin event

def after (calls : List SubscriptionCall) : Subscriptions := calls.foldl call {}

/-- Every event with subscribers has a token, and there are as many listeners. -/
structure Balanced (s : Subscriptions) : Prop where
  keys : ∀ e, s.eventSubTokens e = none ↔ s.eventSubs e = none
  nonempty : ∀ e, s.eventSubs e ≠ some []
  live : {l : String × Nat | l.2 < (s.client.listeners l.1).length}.encard =
    {e | s.eventSubs e ≠ none}.encard

def AlwaysBalanced (calls : List SubscriptionCall) : Prop :=
  ∀ done, done <+: calls → (after done).Balanced

/-- A first subscriber draws a token that no listener has. -/
def AlwaysFresh (calls : List SubscriptionCall) : Prop :=
  ∀ done plugin event, done ++ [.subscribe plugin event] <+: calls →
    (after done).eventSubs event = none → (after done).client.Fresh

structure Sound (s : Subscriptions) : Prop where
  client : s.client.Sound
  running : s.client.isShutdown = false
  keys : ∀ e, s.eventSubTokens e = none ↔ s.eventSubs e = none
  nonempty : ∀ e, s.eventSubs e ≠ some []
  listeners : ∀ e, s.client.listeners e = (s.eventSubTokens e).toList

variable {s : Subscriptions}

namespace Sound
variable (h : s.Sound) (plugin event : String)
include h

lemma subscribe (hfresh : s.eventSubs event = none → s.client.Fresh) :
    (s.subscribe plugin event).Sound := by
  have hkeys := h.keys
  have hne := h.nonempty
  cases hsubs : s.eventSubs event with
  | none =>
    have hlisteners := h.listeners
    simp only [Subscriptions.subscribe, hsubs, Option.getD_none, if_true]
    refine ⟨h.client.onEvent (hfresh hsubs) event, ?_, ?_, ?_, ?_⟩
    · simp [EventRegistry.onEvent, h.running]
    · grind
    · grind
    · intro e
      rw [EventRegistry.listeners_onEvent h.running]
      grind
  | some subs =>
    have hsome : subs ≠ [] := by grind
    have hinsert : subs.insert plugin ≠ [] := ne_nil_of_mem mem_insert_self
    simp only [Subscriptions.subscribe, hsubs, Option.getD_some, if_neg hsome]
    refine ⟨h.client, h.running, ?_, ?_, h.listeners⟩
    · grind
    · grind

lemma unsubscribe : (s.unsubscribe plugin event).Sound := by
  have hkeys := h.keys
  have hne := h.nonempty
  have hlisteners := h.listeners
  rw [Subscriptions.unsubscribe]
  split
  · exact h
  · rename_i subs hsubs
    by_cases hrest : subs.filter (· ≠ plugin) = []
    · have hsome : s.eventSubTokens event ≠ none := by grind
      obtain ⟨token, htoken⟩ := Option.ne_none_iff_exists'.mp hsome
      have hown : s.client.tokenToEvent token = some event := by
        rw [h.client.tokens, hlisteners, htoken]
        simp
      simp only [hrest, if_true, htoken]
      refine ⟨h.client.off token, ?_, ?_, ?_, ?_⟩
      · simp [EventRegistry.off, hown, h.running]
      · grind
      · grind
      · intro e
        rw [EventRegistry.listeners_off, hown]
        grind
    · simp only [if_neg hrest]
      refine ⟨h.client, h.running, ?_, ?_, hlisteners⟩
      · grind
      · grind

lemma balanced : s.Balanced where
  keys := h.keys
  nonempty := h.nonempty
  live := by
    have hpairs : {l : String × Nat | l.2 < (s.client.listeners l.1).length} =
        (·, 0) '' {e | s.eventSubs e ≠ none} := by
      ext ⟨e, i⟩
      have hone : i < (s.eventSubTokens e).toList.length ↔ ¬ s.eventSubTokens e = none ∧ 0 = i := by
        cases s.eventSubTokens e <;> simp [eq_comm]
      simp [h.listeners, ← h.keys, hone]
    rw [hpairs]
    exact Function.Injective.encard_image (fun _ _ heq => (Prod.mk.inj heq).1) _

end Sound

lemma AlwaysFresh.sound {calls : List SubscriptionCall} (h : AlwaysFresh calls) :
    (after calls).Sound := by
  induction calls using List.reverseRecOn with
  | nil => exact ⟨EventRegistry.sound_empty, rfl, by simp [after], by simp [after], fun _ => rfl⟩
  | append_singleton calls c ih =>
    have hsound := ih fun done plugin event hdone =>
      h done plugin event (hdone.trans (prefix_append _ _))
    rw [after, foldl_concat, ← after]
    cases c with
    | subscribe plugin event =>
      rw [call]
      split_ifs
      · exact hsound
      · exact hsound.subscribe plugin event (h calls plugin event List.prefix_rfl)
    | unsubscribe plugin event =>
      rw [call]
      split_ifs
      · exact hsound
      · exact hsound.unsubscribe plugin event

lemma unsubscribe_subscribe (event : String) (hsubs : s.eventSubs event = none)
    (htoken : s.eventSubTokens event = none) (plugin : String) :
    (s.subscribe plugin event).unsubscribe plugin event =
      { s with client := (s.client.onEvent event).off s.client.nextEventToken } := by
  simp [subscribe, unsubscribe, hsubs]
  grind

/-- A subscription stays, and others come and go until the counter is back at its token. -/
def wrappingCalls (n : Nat) : List SubscriptionCall :=
  .subscribe "p" "a" :: (replicate n [.subscribe "p" "b", .unsubscribe "p" "b"]).flatten

lemma after_wrappingCalls {n : Nat} (hn : n < 4294967296) : after (wrappingCalls n) =
    { after [.subscribe "p" "a"] with client := .held n } := by
  induction n with
  | zero => rfl
  | succ n ih =>
    rw [wrappingCalls, replicate_succ', flatten_append, ← cons_append, ← wrappingCalls, after,
      foldl_append, ← after, ih (by omega), ← EventRegistry.off_onEvent_held (by omega)]
    exact unsubscribe_subscribe (s := { after [.subscribe "p" "a"] with client := .held n })
      "b" rfl rfl "p"

lemma Balanced.listeners_eq_nil (h : s.Balanced) (hsubs : ∀ e, s.eventSubs e = none) (e : String) :
    s.client.listeners e = [] := by
  have hlive := h.live
  simp only [hsubs, ne_eq, not_true, Set.ofPred_false, Set.encard_empty,
    Set.encard_eq_zero] at hlive
  by_contra hne
  have hmem : (e, 0) ∈ {l : String × Nat | l.2 < (s.client.listeners l.1).length} :=
    length_pos_iff.mpr hne
  rw [hlive] at hmem
  exact hmem

end Subscriptions

end Millennium.Engine
