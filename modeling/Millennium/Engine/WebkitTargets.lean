import Millennium.Lib.Transitions

/-!
# Attaching to the pages of the web view

Handlers for the events of targets run at once in a pool. Who is to attach to a target first puts it
into a set, and then marks its entry; each has a mutex of its own, and the browser is asked without
one. What is done with a mutex is one step here.
-/

namespace Millennium.Engine

open Transitions

/-- `target_context`, without the scripts and worlds of the session. -/
structure TargetContext where
  sessionId : String
  attaching : Bool

/-- Where a handler is: before it puts its target into the set, behind that, in `attach_to_target`
before and behind the mark, in `expose_millennium_to_ctx`, and before it takes the target out. -/
inductive HandlerPc where
  | idle
  | claims (target : String)
  | claimed (target : String)
  | enters (target : String)
  | asks (target : String)
  | exposes (target : String)
  | leaves (target : String)

def HandlerPc.InFlight (pc : HandlerPc) (target : String) : Prop :=
  pc = .claimed target ∨ pc = .enters target ∨ pc = .asks target ∨ pc = .exposes target ∨
    pc = .leaves target

structure WebkitTargets where
  attached : String → Option TargetContext := fun _ => none
  inFlight : String → Bool := fun _ => false
  shutdown : Bool := false
  handler : Nat → HandlerPc := fun _ => .idle

namespace WebkitTargets

variable (s : WebkitTargets)

def goTo (k : Nat) (pc : HandlerPc) : WebkitTargets :=
  { s with handler := fun k' => if k' = k then pc else s.handler k' }

def setInFlight (target : String) (value : Bool) : WebkitTargets :=
  { s with inFlight := fun t => if t = target then value else s.inFlight t }

def setContext (target : String) (context : Option TargetContext) : WebkitTargets :=
  { s with attached := fun t => if t = target then context else s.attached t }

/-- The steps of the handlers, but for those that return before they change anything. -/
inductive Step : WebkitTargets → Prop
  | creates (k : Nat) (t : String) (h : s.handler k = .idle) (hshutdown : s.shutdown = false) :
      Step (s.goTo k (.claims t))
  | changes (k : Nat) (t : String) (h : s.handler k = .idle)
      (hnone : ∀ ctx, s.attached t = some ctx → ctx.sessionId = "") : Step (s.goTo k (.claims t))
  | destroys (t : String) : Step (s.setContext t none)
  | shutsDown : Step { s with shutdown := true }
  | refused (k : Nat) {t : String} (h : s.handler k = .claims t) (hflight : s.inFlight t = true) :
      Step (s.goTo k .idle)
  | claims (k : Nat) {t : String} (h : s.handler k = .claims t) (hflight : s.inFlight t = false) :
      Step ((s.setInFlight t true).goTo k (.claimed t))
  | stops (k : Nat) {t : String} (h : s.handler k = .claimed t) (hshutdown : s.shutdown = true) :
      Step (s.goTo k (.leaves t))
  | enters (k : Nat) {t : String} (h : s.handler k = .claimed t) (hshutdown : s.shutdown = false) :
      Step (s.goTo k (.enters t))
  | marks (k : Nat) {t : String} (h : s.handler k = .enters t)
      (hfree : ∀ ctx, s.attached t = some ctx → ctx.attaching = false ∧ ctx.sessionId = "") :
      Step ((s.setContext t (some ⟨"", true⟩)).goTo k (.asks t))
  | returns (k : Nat) {t : String} {ctx : TargetContext} (h : s.handler k = .enters t)
      (hctx : s.attached t = some ctx) (hbusy : ctx.attaching = true ∨ ctx.sessionId ≠ "") :
      Step (s.goTo k (.leaves t))
  | stores (k : Nat) {t : String} (sessionId : String) (h : s.handler k = .asks t) :
      Step ((s.setContext t (some ⟨sessionId, false⟩)).goTo k (.exposes t))
  | exposed (k : Nat) {t : String} (h : s.handler k = .exposes t) : Step (s.goTo k (.leaves t))
  | fails (k : Nat) {t : String} (h : s.handler k = .asks t ∨ s.handler k = .exposes t) :
      Step ((s.setContext t ((s.attached t).map fun ctx => ⟨ctx.sessionId, false⟩)).goTo k
        (.leaves t))
  | leaves (k : Nat) {t : String} (h : s.handler k = .leaves t) :
      Step ((s.setInFlight t false).goTo k .idle)

/-- One handler at a time attaches to a target, an entry is marked only while one does, and a session
that is there is not replaced. -/
structure Orderly : Prop where
  exclusive : ∀ k k' t, (s.handler k).InFlight t → (s.handler k').InFlight t → k = k'
  marked : ∀ t ctx, s.attached t = some ctx → ctx.attaching = true → ∃ k, s.handler k = .asks t
  unreplaced : ∀ k t ctx, s.handler k = .asks t → s.attached t = some ctx → ctx.sessionId = ""

/-- Every target that a handler is in flight for is in the set. -/
def Flagged : Prop := ∀ k t, (s.handler k).InFlight t → s.inFlight t = true

variable {s} {s' : WebkitTargets}

lemma Orderly.step (h : s.Orderly) (hflagged : s.Flagged) (hs : Step s s') :
    s'.Orderly ∧ s'.Flagged := by
  obtain ⟨hexclusive, hmarked, hunreplaced⟩ := h
  have hasks : ∀ k k' t, s.handler k = .asks t → s.handler k' = .asks t → k = k' :=
    fun k k' t h h' => hexclusive k k' t (.inr (.inr (.inl h))) (.inr (.inr (.inl h')))
  unfold Flagged HandlerPc.InFlight at *
  -- `claims` finds nobody else in flight, `stores` and `fails` nobody else who asks
  cases hs <;> refine ⟨⟨?_, ?_, ?_⟩, ?_⟩ <;>
    simp only [goTo, setInFlight, setContext, HandlerPc.InFlight] <;>
    grind [Option.map_eq_some_iff]

def AlwaysOrderly : Prop := ∀ s, Reachable Step (· = {}) s → s.Orderly

/-- In every order of the handlers' steps. -/
theorem alwaysOrderly : AlwaysOrderly := by
  intro s hs
  refine (hs.invariant (fun s => s.Orderly ∧ s.Flagged) ?_ fun _ _ h => h.1.step h.2).1
  rintro s rfl
  refine ⟨⟨?_, ?_, ?_⟩, ?_⟩ <;> simp [Flagged, HandlerPc.InFlight]

end WebkitTargets

end Millennium.Engine
