import Mathlib.Logic.Function.Basic
import Millennium.Lib.Transitions

/-!
# Calls between front end and back end

Front-end code calls a back-end function through `backend_manager::evaluate`, which holds
`m_processes_mutex` until the child has answered. A Lua function calls a front-end method through
`rpc_client::call`. The plugin's reader thread handles that and reads nothing else until the method
has returned.
-/

namespace Millennium.Engine

open Relation Transitions Function

inductive EvalState (P : Type*) where
  | idle
  | wantsMutex (p : P)
  | locked (p : P)
  /-- `EVALUATE` was sent and the promise is waited for. -/
  | awaits (p : P)
  | returning
  | done

/-- Front-end code, called by a reader thread or by the user. It runs, or waits for `evaluate`. -/
inductive FrontState (P : Type*) where
  | idle
  | running (caller : Option P)
  | awaits (caller : Option P) (thread : Nat)
  | done

/-- A Lua function: the call of `evaluate` that it answers, and the call in which it waits. -/
structure Frame where
  origin : Option Nat
  calling : Option Nat

inductive ToChild where
  | evaluate (thread : Nat)
  | result (call : Nat)
  deriving DecidableEq

inductive ToParent where
  | answer (thread : Nat)
  | callFrontend (call : Nat)
  deriving DecidableEq

/-- A plugin: its stack, the responses a nested call has read, the frames on the socket, and what
its reader does. -/
structure PluginState where
  stack : List Frame
  stash : List Nat
  nextCall : Nat
  toChild : List ToChild
  toParent : List ToParent
  reader : Option (Nat × Nat)

structure World (P : Type*) where
  eval : Nat → EvalState P
  front : Nat → FrontState P
  plugin : P → PluginState
  mutex : Option Nat

def World.start {P : Type*} : World P :=
  ⟨fun _ => .idle, fun _ => .idle, fun _ => ⟨[], [], 0, [], [], none⟩, none⟩

section
variable {P : Type*}

def World.setEval (s : World P) (t : Nat) (e : EvalState P) : World P :=
  { s with eval := update s.eval t e }

def World.setFront (s : World P) (f : Nat) (e : FrontState P) : World P :=
  { s with front := update s.front f e }

def World.setPlugin [DecidableEq P] (s : World P) (p : P) (e : PluginState) : World P :=
  { s with plugin := update s.plugin p e }

variable {s : World P} {t u f g : Nat} {p q : P}

@[simp] lemma eval_setEval_self {e : EvalState P} : (s.setEval t e).eval t = e :=
  update_self _ _ _

@[simp] lemma eval_setEval_of_ne {e : EvalState P} (h : u ≠ t) :
    (s.setEval t e).eval u = s.eval u :=
  update_of_ne h _ _

@[simp] lemma front_setFront_self {e : FrontState P} : (s.setFront f e).front f = e :=
  update_self _ _ _

@[simp] lemma front_setFront_of_ne {e : FrontState P} (h : g ≠ f) :
    (s.setFront f e).front g = s.front g :=
  update_of_ne h _ _

@[simp] lemma plugin_setPlugin_self [DecidableEq P] {e : PluginState} :
    (s.setPlugin p e).plugin p = e :=
  update_self _ _ _

@[simp] lemma plugin_setPlugin_of_ne [DecidableEq P] {e : PluginState} (h : q ≠ p) :
    (s.setPlugin p e).plugin q = s.plugin q :=
  update_of_ne h _ _

end

/-- What can happen. `callsBack p q`: front-end methods that `p` calls may call back-end functions
of `q`. -/
inductive CallStep {P : Type*} [DecidableEq P] (callsBack : P → P → Prop) : World P → World P → Prop
  | uiStarts {s : World P} {f : Nat} (hf : s.front f = .idle) :
      CallStep callsBack s (s.setFront f (.running none))
  | frontCalls {s : World P} {f t : Nat} {q : P} {caller : Option P}
      (hf : s.front f = .running caller) (ht : s.eval t = .idle)
      (hcaller : ∀ p, caller = some p → callsBack p q) :
      CallStep callsBack s ((s.setFront f (.awaits caller t)).setEval t (.wantsMutex q))
  | frontFires {s : World P} {t : Nat} {q : P} (ht : s.eval t = .idle) :
      CallStep callsBack s (s.setEval t (.wantsMutex q))
  | locks {s : World P} {t : Nat} {q : P} (ht : s.eval t = .wantsMutex q) (hm : s.mutex = none) :
      CallStep callsBack s { s.setEval t (.locked q) with mutex := some t }
  | sends {s : World P} {t : Nat} {q : P} (ht : s.eval t = .locked q) :
      CallStep callsBack s ((s.setEval t (.awaits q)).setPlugin q
        { s.plugin q with toChild := (s.plugin q).toChild ++ [.evaluate t] })
  | fails {s : World P} {t : Nat} {q : P} (ht : s.eval t = .locked q) :
      CallStep callsBack s (s.setEval t .returning)
  | evalTimeout {s : World P} {t : Nat} {q : P} (ht : s.eval t = .awaits q) :
      CallStep callsBack s (s.setEval t .returning)
  | unlocks {s : World P} {t : Nat} (ht : s.eval t = .returning) :
      CallStep callsBack s { s.setEval t .done with mutex := none }
  | frontResumes {s : World P} {f t : Nat} {caller : Option P} (hf : s.front f = .awaits caller t)
      (ht : s.eval t = .done) : CallStep callsBack s (s.setFront f (.running caller))
  | childNotified {s : World P} {p : P} (hp : (s.plugin p).stack = []) :
      CallStep callsBack s (s.setPlugin p { s.plugin p with stack := [⟨none, none⟩] })
  /-- A request is served by the message loop, or by a call that waits. -/
  | childServes {s : World P} {p : P} {t : Nat} {rest : List ToChild}
      (hp : (s.plugin p).toChild = .evaluate t :: rest)
      (hready : ∀ frame ∈ (s.plugin p).stack.head?, frame.calling.isSome) :
      CallStep callsBack s (s.setPlugin p
        { s.plugin p with stack := ⟨some t, none⟩ :: (s.plugin p).stack, toChild := rest })
  | childCalls {s : World P} {p : P} {origin : Option Nat} {frames : List Frame}
      (hp : (s.plugin p).stack = ⟨origin, none⟩ :: frames) :
      CallStep callsBack s (s.setPlugin p { s.plugin p with
          stack := ⟨origin, some (s.plugin p).nextCall⟩ :: frames
          nextCall := (s.plugin p).nextCall + 1
          toParent := (s.plugin p).toParent ++ [.callFrontend (s.plugin p).nextCall] })
  | childReceives {s : World P} {p : P} {origin : Option Nat} {k : Nat} {frames : List Frame}
      {rest : List ToChild} (hp : (s.plugin p).stack = ⟨origin, some k⟩ :: frames)
      (hq : (s.plugin p).toChild = .result k :: rest) :
      CallStep callsBack s (s.setPlugin p
        { s.plugin p with stack := ⟨origin, none⟩ :: frames, toChild := rest })
  | childStashes {s : World P} {p : P} {origin : Option Nat} {k k' : Nat} {frames : List Frame}
      {rest : List ToChild} (hp : (s.plugin p).stack = ⟨origin, some k⟩ :: frames)
      (hq : (s.plugin p).toChild = .result k' :: rest) (hk : k' ≠ k) :
      CallStep callsBack s (s.setPlugin p
        { s.plugin p with stash := k' :: (s.plugin p).stash, toChild := rest })
  | childResumes {s : World P} {p : P} {origin : Option Nat} {k : Nat} {frames : List Frame}
      (hp : (s.plugin p).stack = ⟨origin, some k⟩ :: frames) (hk : k ∈ (s.plugin p).stash) :
      CallStep callsBack s (s.setPlugin p { s.plugin p with
          stack := ⟨origin, none⟩ :: frames, stash := (s.plugin p).stash.erase k })
  | childReturns {s : World P} {p : P} {origin : Option Nat} {frames : List Frame}
      (hp : (s.plugin p).stack = ⟨origin, none⟩ :: frames) :
      CallStep callsBack s (s.setPlugin p { s.plugin p with
          stack := frames
          toParent := (s.plugin p).toParent ++ (origin.map ToParent.answer).toList })
  | readerDelivers {s : World P} {p : P} {t : Nat} {rest : List ToParent}
      (hp : (s.plugin p).toParent = .answer t :: rest) (hr : (s.plugin p).reader = none)
      (ht : s.eval t = .awaits p) :
      CallStep callsBack s ((s.setEval t .returning).setPlugin p
        { s.plugin p with toParent := rest })
  | readerDrops {s : World P} {p : P} {t : Nat} {rest : List ToParent}
      (hp : (s.plugin p).toParent = .answer t :: rest) (hr : (s.plugin p).reader = none)
      (ht : s.eval t ≠ .awaits p) :
      CallStep callsBack s (s.setPlugin p { s.plugin p with toParent := rest })
  | readerCalls {s : World P} {p : P} {k f : Nat} {rest : List ToParent}
      (hp : (s.plugin p).toParent = .callFrontend k :: rest) (hr : (s.plugin p).reader = none)
      (hf : s.front f = .idle) :
      CallStep callsBack s ((s.setFront f (.running (some p))).setPlugin p
        { s.plugin p with toParent := rest, reader := some (k, f) })
  | readerRefuses {s : World P} {p : P} {k : Nat} {rest : List ToParent}
      (hp : (s.plugin p).toParent = .callFrontend k :: rest) (hr : (s.plugin p).reader = none) :
      CallStep callsBack s (s.setPlugin p
        { s.plugin p with toParent := rest, toChild := (s.plugin p).toChild ++ [.result k] })
  | frontReturns {s : World P} {f : Nat} {caller : Option P} (hf : s.front f = .running caller) :
      CallStep callsBack s (s.setFront f .done)
  | readerAnswers {s : World P} {p : P} {k f : Nat} (hr : (s.plugin p).reader = some (k, f))
      (hf : s.front f = .done) :
      CallStep callsBack s (s.setPlugin p
        { s.plugin p with reader := none, toChild := (s.plugin p).toChild ++ [.result k] })
  | frontTimeout {s : World P} {p : P} {k f : Nat} (hr : (s.plugin p).reader = some (k, f)) :
      CallStep callsBack s (s.setPlugin p
        { s.plugin p with reader := none, toChild := (s.plugin p).toChild ++ [.result k] })

inductive Agent (P : Type*) where
  | eval (t : Nat)
  | child (p : P)
  | reader (p : P)
  | front (f : Nat)

/-- Who waits for whom: for the mutex, or for a response. -/
inductive WaitsFor {P : Type*} (s : World P) : Agent P → Agent P → Prop
  | mutex {t u : Nat} {q : P} (ht : s.eval t = .wantsMutex q) (hm : s.mutex = some u) :
      WaitsFor s (.eval t) (.eval u)
  | answer {t : Nat} {q : P} (ht : s.eval t = .awaits q)
      (hq : ToParent.answer t ∉ (s.plugin q).toParent) : WaitsFor s (.eval t) (.child q)
  | delivery {t : Nat} {q : P} (ht : s.eval t = .awaits q)
      (hq : ToParent.answer t ∈ (s.plugin q).toParent) : WaitsFor s (.eval t) (.reader q)
  | frontend {p : P} {origin : Option Nat} {k : Nat} {frames : List Frame}
      (hp : (s.plugin p).stack = ⟨origin, some k⟩ :: frames) (hq : (s.plugin p).toChild = [])
      (hk : k ∉ (s.plugin p).stash) : WaitsFor s (.child p) (.reader p)
  | method {p : P} {k f : Nat} (hr : (s.plugin p).reader = some (k, f)) (hf : s.front f ≠ .done) :
      WaitsFor s (.reader p) (.front f)
  | result {f t : Nat} {caller : Option P} (hf : s.front f = .awaits caller t)
      (ht : s.eval t ≠ .done) : WaitsFor s (.front f) (.eval t)

def CycleFree {P : Type*} [DecidableEq P] (callsBack : P → P → Prop) : Prop :=
  ∀ s, Reachable (CallStep callsBack) (· = World.start) s → ¬ Cyclic (WaitsFor s)

def EvalState.Holding {P : Type*} : EvalState P → Prop
  | .locked _ | .awaits _ | .returning => True
  | _ => False

/-- Front-end code that was called for a plugin and does not wait. -/
def FrontState.Serving {P : Type*} : FrontState P → Prop
  | .running (some _) | .done => True
  | _ => False

/-- A call past its lock holds the mutex, and a reader waits for code that does not wait itself. -/
structure Untangled {P : Type*} (s : World P) : Prop where
  mutex : ∀ t, s.mutex = some t → (s.eval t).Holding
  reader : ∀ p k f, (s.plugin p).reader = some (k, f) → (s.front f).Serving

section
variable {P : Type*} {s s' : World P}

lemma untangled_start : Untangled (World.start : World P) where
  mutex := by
    intro t ht
    cases ht
  reader := by
    intro p k f hr
    cases hr

lemma Untangled.setEval (h : Untangled s) {t : Nat} {e : EvalState P}
    (he : (s.eval t).Holding → e.Holding) : Untangled (s.setEval t e) where
  mutex := by
    intro u hu
    by_cases hut : u = t
    · subst hut
      rw [eval_setEval_self]
      exact he (h.mutex u hu)
    · rw [eval_setEval_of_ne hut]
      exact h.mutex u hu
  reader := h.reader

lemma Untangled.setFront (h : Untangled s) {f : Nat} {e : FrontState P}
    (he : (s.front f).Serving → e.Serving) : Untangled (s.setFront f e) where
  mutex := h.mutex
  reader := by
    intro p k g hg
    by_cases hgf : g = f
    · subst hgf
      rw [front_setFront_self]
      exact he (h.reader p k g hg)
    · rw [front_setFront_of_ne hgf]
      exact h.reader p k g hg

lemma Untangled.setPlugin [DecidableEq P] (h : Untangled s) {p : P} {e : PluginState}
    (he : ∀ k f, e.reader = some (k, f) → (s.front f).Serving) : Untangled (s.setPlugin p e) where
  mutex := h.mutex
  reader := by
    intro q k f hf
    by_cases hqp : q = p
    · subst hqp
      rw [plugin_setPlugin_self] at hf
      exact he k f hf
    · rw [plugin_setPlugin_of_ne hqp] at hf
      exact h.reader q k f hf

lemma untangled_step [DecidableEq P] {back : P → P → Prop}
    (hnone : ∀ p q, ¬ back p q) (h : Untangled s) (hs : CallStep back s s') :
    Untangled s' := by
  cases hs with
  | uiStarts hf | frontResumes hf =>
    apply h.setFront
    rw [hf]
    exact False.elim
  | @frontCalls f t q caller hf ht hcaller =>
    apply Untangled.setEval
    · apply h.setFront
      rw [hf]
      cases caller with
      | none => exact False.elim
      | some p => exact (hnone p q (hcaller p rfl)).elim
    · change (s.eval t).Holding → _
      rw [ht]
      exact False.elim
  | frontFires ht =>
    apply h.setEval
    rw [ht]
    exact False.elim
  | @locks t q ht hm =>
    refine ⟨fun u hu => ?_, h.reader⟩
    obtain rfl := Option.some.inj hu
    rw [eval_setEval_self]
    trivial
  | sends | readerDelivers =>
    apply Untangled.setPlugin
    · exact h.setEval fun _ => trivial
    · exact h.reader _
  | fails | evalTimeout => exact h.setEval fun _ => trivial
  | unlocks =>
    refine ⟨fun u hu => ?_, h.reader⟩
    cases hu
  | childNotified hp | childServes hp hready | childCalls hp | childReceives hp hq
  | childStashes hp hq hk | childResumes hp hk | childReturns hp | readerDrops hp hr ht
  | readerRefuses => exact h.setPlugin (h.reader _)
  | @readerCalls p k f rest hp hr hf =>
    apply Untangled.setPlugin
    · apply h.setFront
      exact fun _ => trivial
    · intro k' f' heq
      cases heq
      rw [front_setFront_self]
      trivial
  | frontReturns => exact h.setFront fun _ => trivial
  | readerAnswers | frontTimeout =>
    apply h.setPlugin
    intro k f heq
    cases heq

end

def EvalState.rank {P : Type*} : EvalState P → Nat
  | .wantsMutex _ => 4
  | _ => 3

def FrontState.rank {P : Type*} : FrontState P → Nat
  | .awaits _ _ => 5
  | _ => 0

def Agent.rank {P : Type*} (s : World P) : Agent P → Nat
  | .front f => (s.front f).rank
  | .eval t => (s.eval t).rank
  | .child _ => 2
  | .reader _ => 1

lemma EvalState.rank_le {P : Type*} (e : EvalState P) : e.rank ≤ 4 := by
  cases e <;> simp [EvalState.rank]

lemma EvalState.Holding.rank_eq {P : Type*} {e : EvalState P} (h : e.Holding) : e.rank = 3 := by
  cases e with
  | wantsMutex => exact h.elim
  | idle | locked | awaits | returning | done => rfl

lemma FrontState.Serving.rank_eq {P : Type*} {e : FrontState P} (h : e.Serving) : e.rank = 0 := by
  cases e with
  | awaits => exact h.elim
  | idle | running | done => rfl

lemma Untangled.not_cyclic {P : Type*} {s : World P} (h : Untangled s) : ¬ Cyclic (WaitsFor s) := by
  apply not_cyclic_of_rank (Agent.rank s)
  intro a b hw
  cases hw with
  | @mutex t u q ht hm =>
    simp only [Agent.rank, (h.mutex u hm).rank_eq, ht]
    exact Nat.lt_succ_self 3
  | answer ht | delivery ht => simp [Agent.rank, ht, EvalState.rank]
  | frontend => simp [Agent.rank]
  | @method p k f hr hf => simp [Agent.rank, (h.reader p k f hr).rank_eq]
  | @result f t caller hf ht =>
    have hle := (s.eval t).rank_le
    simp only [Agent.rank, hf, FrontState.rank]
    omega

/-- Two calls to `evaluate`, one piece of front-end code and one plugin take part. -/
def stage {P : Type*} [DecidableEq P] (p : P) (first second : EvalState P) (method : FrontState P)
    (plugin : PluginState) (mutex : Option Nat) : World P where
  eval t := if t = 0 then first else if t = 1 then second else .idle
  front f := if f = 0 then method else .idle
  plugin q := if q = p then plugin else ⟨[], [], 0, [], [], none⟩
  mutex := mutex

section
variable {P : Type*} [DecidableEq P] {p : P} {first second : EvalState P} {method : FrontState P}
  {plugin : PluginState} {mutex : Option Nat}

lemma stage_start :
    (World.start : World P) = stage p .idle .idle .idle ⟨[], [], 0, [], [], none⟩ none := by
  simp [World.start, stage]

lemma stage_setFirst {e : EvalState P} : (stage p first second method plugin mutex).setEval 0 e =
    stage p e second method plugin mutex := by
  unfold World.setEval stage
  congr 1
  funext t
  by_cases ht : t = 0 <;> simp [ht]

lemma stage_setSecond {e : EvalState P} : (stage p first second method plugin mutex).setEval 1 e =
    stage p first e method plugin mutex := by
  unfold World.setEval stage
  congr 1
  funext t
  by_cases ht : t = 1 <;> simp [ht]

lemma stage_setMethod {e : FrontState P} : (stage p first second method plugin mutex).setFront 0 e =
    stage p first second e plugin mutex := by
  unfold World.setFront stage
  congr 1
  funext f
  by_cases hf : f = 0 <;> simp [hf]

lemma stage_setPlugin {e : PluginState} : (stage p first second method plugin mutex).setPlugin p e =
    stage p first second method e mutex := by
  unfold World.setPlugin stage
  congr 1
  funext q
  by_cases hq : q = p <;> simp [hq]

lemma stage_plugin : (stage p first second method plugin mutex).plugin p = plugin := if_pos rfl

end

def busyPlugin : PluginState := ⟨[⟨none, some 0⟩], [], 1, [], [], some (0, 0)⟩

lemma reachable_nested {P : Type*} [DecidableEq P] {back : P → P → Prop} {p q : P}
    (hback : back p q) : Reachable (CallStep back) (· = World.start)
      (stage p (.wantsMutex q) .idle (.awaits (some p) 0) busyPlugin none) := by
  have hnotified : CallStep back World.start
      (stage p .idle .idle .idle ⟨[⟨none, none⟩], [], 0, [], [], none⟩ none) := by
    rw [@stage_start P _ p]
    have hstep := @CallStep.childNotified P _ back
      (stage p .idle .idle .idle ⟨[], [], 0, [], [], none⟩ none) p (by rw [stage_plugin])
    rwa [stage_setPlugin, stage_plugin] at hstep
  have hcalls : CallStep back
      (stage p .idle .idle .idle ⟨[⟨none, none⟩], [], 0, [], [], none⟩ none)
      (stage p .idle .idle .idle ⟨[⟨none, some 0⟩], [], 1, [], [.callFrontend 0], none⟩ none) := by
    have hstep := @CallStep.childCalls P _ back
      (stage p .idle .idle .idle ⟨[⟨none, none⟩], [], 0, [], [], none⟩ none) p none []
      (by rw [stage_plugin])
    rwa [stage_setPlugin, stage_plugin] at hstep
  have hreader : CallStep back
      (stage p .idle .idle .idle ⟨[⟨none, some 0⟩], [], 1, [], [.callFrontend 0], none⟩ none)
      (stage p .idle .idle (.running (some p)) busyPlugin none) := by
    have hstep := @CallStep.readerCalls P _ back
      (stage p .idle .idle .idle ⟨[⟨none, some 0⟩], [], 1, [], [.callFrontend 0], none⟩ none)
      p 0 0 [] (by rw [stage_plugin]) (by rw [stage_plugin]) rfl
    rwa [stage_setMethod, stage_setPlugin, stage_plugin] at hstep
  have hnested : CallStep back (stage p .idle .idle (.running (some p)) busyPlugin none)
      (stage p (.wantsMutex q) .idle (.awaits (some p) 0) busyPlugin none) := by
    have hstep := @CallStep.frontCalls P _ back
      (stage p .idle .idle (.running (some p)) busyPlugin none) 0 0 q (some p) rfl rfl
      (by simpa using hback)
    rwa [stage_setMethod, stage_setFirst] at hstep
  have hstart : Reachable (CallStep back) (· = World.start) (World.start : World P) := .init rfl
  exact (((hstart.tail hnotified).tail hcalls).tail hreader).tail hnested

/-- Another call to the first plugin gets the mutex before the nested one. The child serves it, but
the answer stays on the socket. -/
lemma reachable_tangled {P : Type*} [DecidableEq P] {back : P → P → Prop} {p q : P}
    (hback : back p q) : Reachable (CallStep back) (· = World.start)
      (stage p (.wantsMutex q) (.awaits p) (.awaits (some p) 0)
        { busyPlugin with toParent := [.answer 1] } (some 1)) := by
  have hfires : CallStep back
      (stage p (.wantsMutex q) .idle (.awaits (some p) 0) busyPlugin none)
      (stage p (.wantsMutex q) (.wantsMutex p) (.awaits (some p) 0) busyPlugin none) := by
    have hstep := @CallStep.frontFires P _ back
      (stage p (.wantsMutex q) .idle (.awaits (some p) 0) busyPlugin none) 1 p rfl
    rwa [stage_setSecond] at hstep
  have hlocks : CallStep back
      (stage p (.wantsMutex q) (.wantsMutex p) (.awaits (some p) 0) busyPlugin none)
      (stage p (.wantsMutex q) (.locked p) (.awaits (some p) 0) busyPlugin (some 1)) := by
    have hstep := @CallStep.locks P _ back
      (stage p (.wantsMutex q) (.wantsMutex p) (.awaits (some p) 0) busyPlugin none) 1 p rfl rfl
    rwa [stage_setSecond] at hstep
  have hsends : CallStep back
      (stage p (.wantsMutex q) (.locked p) (.awaits (some p) 0) busyPlugin (some 1))
      (stage p (.wantsMutex q) (.awaits p) (.awaits (some p) 0)
        { busyPlugin with toChild := [.evaluate 1] } (some 1)) := by
    have hstep := @CallStep.sends P _ back
      (stage p (.wantsMutex q) (.locked p) (.awaits (some p) 0) busyPlugin (some 1)) 1 p rfl
    rwa [stage_setSecond, stage_setPlugin, stage_plugin] at hstep
  have hserves : CallStep back
      (stage p (.wantsMutex q) (.awaits p) (.awaits (some p) 0)
        { busyPlugin with toChild := [.evaluate 1] } (some 1))
      (stage p (.wantsMutex q) (.awaits p) (.awaits (some p) 0)
        { busyPlugin with stack := [⟨some 1, none⟩, ⟨none, some 0⟩] } (some 1)) := by
    have hstep := @CallStep.childServes P _ back
      (stage p (.wantsMutex q) (.awaits p) (.awaits (some p) 0)
        { busyPlugin with toChild := [.evaluate 1] } (some 1)) p 1 [] (by rw [stage_plugin])
      (by rw [stage_plugin]; simp [busyPlugin])
    rwa [stage_setPlugin, stage_plugin] at hstep
  have hreturns : CallStep back
      (stage p (.wantsMutex q) (.awaits p) (.awaits (some p) 0)
        { busyPlugin with stack := [⟨some 1, none⟩, ⟨none, some 0⟩] } (some 1))
      (stage p (.wantsMutex q) (.awaits p) (.awaits (some p) 0)
        { busyPlugin with toParent := [.answer 1] } (some 1)) := by
    have hstep := @CallStep.childReturns P _ back
      (stage p (.wantsMutex q) (.awaits p) (.awaits (some p) 0)
        { busyPlugin with stack := [⟨some 1, none⟩, ⟨none, some 0⟩] } (some 1)) p (some 1)
      [⟨none, some 0⟩] (by rw [stage_plugin])
    rwa [stage_setPlugin, stage_plugin] at hstep
  exact (((((reachable_nested hback).tail hfires).tail hlocks).tail hsends).tail hserves).tail
    hreturns

lemma not_cycleFree {P : Type*} [DecidableEq P] {back : P → P → Prop} {p q : P}
    (hback : back p q) : ¬ CycleFree back := by
  intro hfree
  let s := stage p (.wantsMutex q) (.awaits p) (.awaits (some p) 0)
    { busyPlugin with toParent := [.answer 1] } (some 1)
  have hdelivery : WaitsFor s (.eval 1) (.reader p) := by
    apply WaitsFor.delivery rfl
    rw [stage_plugin]
    exact List.mem_singleton.mpr rfl
  have hmethod : WaitsFor s (.reader p) (.front 0) := by
    apply WaitsFor.method (k := 0)
    · rw [stage_plugin]
      rfl
    · exact nofun
  have hresult : WaitsFor s (.front 0) (.eval 0) := WaitsFor.result rfl nofun
  have hmutex : WaitsFor s (.eval 0) (.eval 1) := WaitsFor.mutex rfl rfl
  exact hfree s (reachable_tangled hback)
    ⟨.eval 1, .tail (.tail (.tail (.single hdelivery) hmethod) hresult) hmutex⟩

/-- The parties never wait in a cycle exactly when no front-end method that a back-end
function calls waits for a back-end function. -/
theorem nested_calls_cycle_free_iff {P : Type*} [DecidableEq P] (callsBack : P → P → Prop) :
    CycleFree callsBack ↔ ∀ p q, ¬ callsBack p q := by
  constructor
  · intro hfree p q hback
    exact not_cycleFree hback hfree
  · intro hnone s hreach
    apply Untangled.not_cyclic
    apply hreach.invariant Untangled
    · intro s hs
      subst hs
      exact untangled_start
    · intro s s' h hs
      exact untangled_step hnone h hs

/-- One plugin, whose front-end methods call its own back end. -/
theorem ownBackend_not_cycleFree : ¬ CycleFree fun _ _ : Unit => True :=
  not_cycleFree (p := ()) (q := ()) trivial

end Millennium.Engine
