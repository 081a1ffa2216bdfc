import Mathlib.Data.List.Perm.Subperm
import Millennium.Lib.Tokens
import Millennium.Lib.Transitions

/-!
# Callbacks for when all backends are ready

`backend_event_dispatcher` runs the callbacks that wait for all backends when as many have reported
as are enabled. `listenersMutex` guards the callbacks and the removal of a report, but neither a new
report nor the comparison.
-/

namespace Millennium.Engine

open Relation Transitions Tokens List Function

inductive ReadyAction where
  | setEnabled (name : String) (enabled : Bool)
  /-- `backend_loaded_event_hdlr`, for a success or a failure. -/
  | loaded (name : String) (success : Bool)
  | unloaded (name : String) (isShuttingDown : Bool)
  | register
  | spawn (name : String)
  deriving Repr, DecidableEq

inductive ReadyEvent where
  | report (name : String) (success : Bool)
  | destroyPlugin (name : String) (isShuttingDown : Bool)
  | setPluginsEnabled (plugins : List (String × Bool)) (connected : Bool)
  | onAllBackendsReady
  deriving Repr, DecidableEq

/-- `set_plugins_enabled` sets all flags, destroys what it disabled, and spawns the others.
`inject_frontend_shims` registers a callback at its end. -/
def ReadyEvent.actions : ReadyEvent → List ReadyAction
  | .report name success => [.loaded name success]
  | .destroyPlugin name isShuttingDown => [.unloaded name isShuttingDown]
  | .setPluginsEnabled plugins connected =>
    plugins.map (fun plugin => .setEnabled plugin.1 plugin.2) ++
      (plugins.filter (!·.2)).map (fun plugin => .unloaded plugin.1 false) ++
      (plugins.filter (·.2)).map (fun plugin => .spawn plugin.1) ++
      (if connected then [.register] else [])
  | .onAllBackendsReady => [.register]

/-- An element of `emittedPlugins`: a name and its success, or what was moved away. -/
abbrev Report := Option (String × Bool)

def Report.isFor (name : String) : Report → Bool
  | some report => report.1 == name
  | none => false

structure Dispatcher where
  enabled : List String
  emitted : List Report
  locked : Bool
  listeners : List Nat
  registered : Nat
  invoked : List Nat
  deriving Repr

inductive ReadyPc where
  | next
  | found (position : Option Nat) (name : String) (success : Bool)
  /-- `remove_if` returned this position. The thread holds the mutex. -/
  | erases (position : Nat) (isShuttingDown : Bool)
  | counts
  | compares (pluginCount : Nat)
  | takes
  | fires (callbacks : List Nat)
  deriving Repr, DecidableEq

structure ReadyThread where
  pc : ReadyPc
  todo : List ReadyAction
  deriving Repr, DecidableEq

def ReadyThread.idle : ReadyThread := ⟨.next, []⟩

def setPluginEnabled (name : String) (enable : Bool) (enabled : List String) : List String :=
  if enable then (if name ∈ enabled then enabled else enabled ++ [name]) else enabled.erase name

/-- What `remove_if` leaves: the elements that stay, then those that were moved from or are to go.
-/
def removeIf (name : String) (emitted : List Report) : List Report :=
  let kept := emitted.filter (!Report.isFor name ·)
  kept ++ (emitted.drop kept.length).map fun report =>
    if report.isFor name then report else none

section
variable (backends : List String)

/-- The size of `get_enabled_backends`; `backends` are the installed plugins with a backend. -/
def pluginCount (d : Dispatcher) : Nat := (backends.filter (· ∈ d.enabled)).length

/-- One step of a thread, with what it does to the dispatcher. -/
inductive ReadyStep (d : Dispatcher) : ReadyThread → Dispatcher → ReadyThread → Prop
  | starts (event : ReadyEvent) : ReadyStep d ⟨.next, []⟩ d ⟨.next, event.actions⟩
  | sets (name : String) (enable : Bool) (rest : List ReadyAction) :
      ReadyStep d ⟨.next, .setEnabled name enable :: rest⟩
        { d with enabled := setPluginEnabled name enable d.enabled } ⟨.next, rest⟩
  | spawns (name : String) (rest : List ReadyAction) :
      ReadyStep d ⟨.next, .spawn name :: rest⟩ d ⟨.next, rest⟩
  | spawnFails (name : String) (rest : List ReadyAction) :
      ReadyStep d ⟨.next, .spawn name :: rest⟩ d ⟨.next, .loaded name false :: rest⟩
  | finds (name : String) (success : Bool) (rest : List ReadyAction) :
      ReadyStep d ⟨.next, .loaded name success :: rest⟩ d
        ⟨.found (d.emitted.findIdx? (Report.isFor name)) name success, rest⟩
  | replaces (position : Nat) (name : String) (success : Bool) (rest : List ReadyAction) :
      ReadyStep d ⟨.found (some position) name success, rest⟩
        { d with emitted := d.emitted.set position (some (name, success)) } ⟨.counts, rest⟩
  | pushes (name : String) (success : Bool) (rest : List ReadyAction) :
      ReadyStep d ⟨.found none name success, rest⟩
        { d with emitted := d.emitted ++ [some (name, success)] } ⟨.counts, rest⟩
  | removes (name : String) (isShuttingDown : Bool) (rest : List ReadyAction)
      (hfree : d.locked = false) :
      ReadyStep d ⟨.next, .unloaded name isShuttingDown :: rest⟩
        { d with locked := true, emitted := removeIf name d.emitted }
        ⟨.erases (d.emitted.filter (!Report.isFor name ·)).length isShuttingDown, rest⟩
  /-- Everything from the position that `remove_if` returned, if that is not the end now. -/
  | erases (position : Nat) (isShuttingDown : Bool) (rest : List ReadyAction) :
      ReadyStep d ⟨.erases position isShuttingDown, rest⟩
        { d with locked := false, emitted := d.emitted.take position }
        ⟨if isShuttingDown then .next else .counts, rest⟩
  | registers (rest : List ReadyAction) (hfree : d.locked = false) :
      ReadyStep d ⟨.next, .register :: rest⟩
        { d with listeners := d.listeners ++ [d.registered], registered := d.registered + 1 }
        ⟨.counts, rest⟩
  | counts (rest : List ReadyAction) :
      ReadyStep d ⟨.counts, rest⟩ d ⟨.compares (pluginCount backends d), rest⟩
  | agrees (count : Nat) (rest : List ReadyAction) (heq : d.emitted.length = count) :
      ReadyStep d ⟨.compares count, rest⟩ d ⟨.takes, rest⟩
  | differs (count : Nat) (rest : List ReadyAction) (hne : d.emitted.length ≠ count) :
      ReadyStep d ⟨.compares count, rest⟩ d ⟨.next, rest⟩
  | takes (rest : List ReadyAction) (hfree : d.locked = false) :
      ReadyStep d ⟨.takes, rest⟩ { d with listeners := [] } ⟨.fires d.listeners, rest⟩
  | fires (callback : Nat) (callbacks : List Nat) (rest : List ReadyAction) :
      ReadyStep d ⟨.fires (callback :: callbacks), rest⟩
        { d with invoked := callback :: d.invoked } ⟨.fires callbacks, rest⟩
  | returns (rest : List ReadyAction) : ReadyStep d ⟨.fires [], rest⟩ d ⟨.next, rest⟩

end

structure DispatcherState where
  shared : Dispatcher
  thread : Nat → ReadyThread

def DispatcherState.start (enabled : List String) : DispatcherState :=
  ⟨⟨enabled, [], false, [], 0, []⟩, fun _ => .idle⟩

section
variable (backends : List String)

inductive DispatcherStep (s : DispatcherState) : DispatcherState → Prop
  | mk (i : Nat) {d : Dispatcher} {t : ReadyThread} (h : ReadyStep backends s.shared (s.thread i) d t) :
      DispatcherStep s ⟨d, update s.thread i t⟩

def DispatcherState.IsStart (s : DispatcherState) : Prop :=
  ∃ enabled, s = DispatcherState.start enabled

def Dispatcher.Reported (d : Dispatcher) (name : String) : Prop :=
  ∃ report ∈ d.emitted, Report.isFor name report = true

def AllReported (d : Dispatcher) : Prop := ∀ name ∈ backends, name ∈ d.enabled → d.Reported name

def DispatcherState.Quiet (s : DispatcherState) : Prop := ∀ i, s.thread i = .idle

/-- Each callback is invoked at most once, only when every enabled backend has reported, and once
when all have and nothing is left to do. -/
structure CallbacksRight (allowed : DispatcherState → DispatcherState → Prop) : Prop where
  once : ∀ s, Reachable (Allowed (DispatcherStep backends) allowed) DispatcherState.IsStart s →
    s.shared.invoked.Nodup
  ready : ∀ s s', Reachable (Allowed (DispatcherStep backends) allowed) DispatcherState.IsStart s →
    Allowed (DispatcherStep backends) allowed s s' → s'.shared.invoked ≠ s.shared.invoked →
      AllReported backends s.shared
  all : ∀ s, Reachable (Allowed (DispatcherStep backends) allowed) DispatcherState.IsStart s →
    s.Quiet → AllReported backends s.shared →
      ∀ callback < s.shared.registered, callback ∈ s.shared.invoked

def ReadyThread.Firing : ReadyThread → Prop
  | ⟨.takes, _⟩ | ⟨.fires (_ :: _), _⟩ => True
  | _ => False

/-- The reports are of enabled backends, one of each, and no two backends have one name. -/
structure Tidy (d : Dispatcher) : Prop where
  backends_nodup : backends.Nodup
  reports : ∃ names : List String, names.Nodup ∧ (∀ name ∈ names, name ∈ backends ∧ name ∈ d.enabled) ∧
    d.emitted.map (Option.map Prod.fst) = names.map some

/-- Sizes are compared when the reports are tidy and the enabled plugins are still those that were
counted, and callbacks are invoked while no plugin is enabled and no report goes. -/
structure Orderly (s s' : DispatcherState) : Prop where
  counted : ∀ i count rest, s.thread i = ⟨.compares count, rest⟩ → s'.thread i ≠ s.thread i →
    count = pluginCount backends s.shared ∧ Tidy backends s.shared
  steady : (∃ i, (s.thread i).Firing) →
    (∀ name ∈ s'.shared.enabled, name ∈ s.shared.enabled) ∧
      ∀ name, s.shared.Reported name → s'.shared.Reported name

end

section
variable {backends : List String} {d d' : Dispatcher} {t t' : ReadyThread}

def ReadyThread.carried : ReadyThread → List Nat
  | ⟨.fires callbacks, _⟩ => callbacks
  | _ => []

def DispatcherState.ledger (s : DispatcherState) : Ledger Nat :=
  ⟨s.shared.listeners, fun i => (s.thread i).carried, s.shared.invoked, s.shared.registered⟩

lemma ReadyStep.callbacks (h : ReadyStep backends d t d' t') :
    (t'.carried = t.carried ∧ d'.listeners = d.listeners ∧ d'.registered = d.registered ∧
    d'.invoked = d.invoked) ∨
    (t'.carried = t.carried ∧ d'.listeners = d.listeners ++ [d.registered] ∧
    d'.registered = d.registered + 1 ∧ d'.invoked = d.invoked) ∨
    (t.carried = [] ∧ t'.carried = d.listeners ∧ d'.listeners = [] ∧
    d'.registered = d.registered ∧ d'.invoked = d.invoked) ∨
    ∃ callback, t.carried = callback :: t'.carried ∧ d'.listeners = d.listeners ∧
    d'.registered = d.registered ∧ d'.invoked = callback :: d.invoked := by
  cases h with
  | registers => exact .inr (.inl ⟨rfl, rfl, rfl, rfl⟩)
  | takes => exact .inr (.inr (.inl ⟨rfl, rfl, rfl, rfl, rfl⟩))
  | fires callback =>
    exact .inr (.inr (.inr ⟨callback, rfl, rfl, rfl, rfl⟩))
  | erases position isShuttingDown =>
    exact .inl ⟨by cases isShuttingDown <;> rfl, rfl, rfl, rfl⟩
  | _ => exact .inl ⟨rfl, rfl, rfl, rfl⟩

lemma carried_update (thread : Nat → ReadyThread) (i : Nat) (t : ReadyThread) :
    (fun j => (update thread i t j).carried) =
    update (fun j => (thread j).carried) i t.carried := by
  funext j
  by_cases hj : j = i
  · subst hj
    simp
  · simp [update_of_ne hj]

lemma sound_step {s s' : DispatcherState} (hs : Sound s.ledger)
    (h : DispatcherStep backends s s') : Sound s'.ledger := by
  obtain ⟨i, h⟩ := h
  simp only [DispatcherState.ledger, carried_update]
  have hself : update (fun j => (s.thread j).carried) i (s.thread i).carried =
      fun j => (s.thread j).carried := update_eq_self i _
  rcases h.callbacks with ⟨ht, hl, hr, hi⟩ | ⟨ht, hl, hr, hi⟩ | ⟨hempty, ht, hl, hr, hi⟩ |
    ⟨callback, ht, hl, hr, hi⟩
  · rw [ht, hl, hr, hi, hself]
    exact hs
  · rw [ht, hl, hr, hi, hself]
    exact hs.issue
  · rw [ht, hl, hr, hi]
    exact hs.take hempty
  · rw [hl, hr, hi]
    exact hs.spend ht

lemma sound_of_reachable {s : DispatcherState}
    (h : Reachable (DispatcherStep backends) DispatcherState.IsStart s) : Sound s.ledger := by
  refine h.invariant (fun s => Sound s.ledger) ?_ fun _ _ hs hstep => sound_step hs hstep
  rintro _ ⟨enabled, rfl⟩
  exact sound_empty

lemma invoked_nodup {s : DispatcherState}
    (h : Reachable (DispatcherStep backends) DispatcherState.IsStart s) :
    s.shared.invoked.Nodup :=
  (sound_of_reachable h).spent_nodup

end

section
variable {backends : List String} {d d' : Dispatcher} {t t' : ReadyThread}

def ReadyAction.updates : ReadyAction → Bool
  | .loaded _ _ | .register => true
  | .unloaded _ isShuttingDown => !isShuttingDown
  | .setEnabled _ _ | .spawn _ => false

def ReadyPc.inUpdate : ReadyPc → Bool
  | .found _ _ _ | .counts | .compares _ | .takes => true
  | .erases _ isShuttingDown => !isShuttingDown
  | .next | .fires _ => false

/-- The thread still comes to a comparison, or to taking the callbacks. -/
def ReadyThread.Comes (t : ReadyThread) : Prop :=
  t.pc.inUpdate = true ∨ ∃ action ∈ t.todo, action.updates = true

/-- Whoever disables a plugin compares afterwards. -/
def Announced : List ReadyAction → Prop
  | [] => True
  | .setEnabled _ false :: rest => (∃ action ∈ rest, action.updates = true) ∧ Announced rest
  | _ :: rest => Announced rest

lemma Announced.tail {action : ReadyAction} {rest : List ReadyAction}
    (h : Announced (action :: rest)) : Announced rest := by
  cases action with
  | setEnabled name enable =>
    cases enable with
    | true => exact h
    | false => exact h.2
  | _ => exact h

lemma announced_of_forall {actions : List ReadyAction}
    (h : ∀ name, .setEnabled name false ∉ actions) : Announced actions := by
  induction actions with
  | nil => trivial
  | cons action rest ih =>
    have hrest := ih fun name hmem => h name (mem_cons_of_mem _ hmem)
    cases action with
    | setEnabled name enable =>
      cases enable with
      | true => exact hrest
      | false => exact (h name mem_cons_self).elim
    | _ => exact hrest

lemma announced_append {front back : List ReadyAction} (hback : Announced back)
    (h : ∀ name, .setEnabled name false ∈ front → ∃ action ∈ back, action.updates = true) :
    Announced (front ++ back) := by
  induction front with
  | nil => exact hback
  | cons action rest ih =>
    have hrest := ih fun name hmem => h name (mem_cons_of_mem _ hmem)
    cases action with
    | setEnabled name enable =>
      cases enable with
      | true => exact hrest
      | false =>
        obtain ⟨action, hmem, hupdates⟩ := h name mem_cons_self
        exact ⟨⟨action, mem_append_right _ hmem, hupdates⟩, hrest⟩
    | _ => exact hrest

lemma announced_actions (event : ReadyEvent) : Announced event.actions := by
  cases event with
  | setPluginsEnabled plugins connected =>
    rw [ReadyEvent.actions, append_assoc, append_assoc]
    refine announced_append (announced_of_forall ?_) ?_
    · cases connected <;> simp
    · intro name hmem
      obtain ⟨plugin, hplugin, heq⟩ := mem_map.mp hmem
      obtain ⟨rfl, hdisabled⟩ := ReadyAction.setEnabled.inj heq
      refine ⟨.unloaded plugin.1 false, mem_append_left _ (mem_map.mpr ⟨plugin, ?_, rfl⟩), rfl⟩
      exact mem_filter.mpr ⟨hplugin, by rw [hdisabled]; rfl⟩
  | _ => trivial

lemma ReadyStep.announced (h : ReadyStep backends d t d' t') (ht : Announced t.todo) :
    Announced t'.todo := by
  cases h with
  | starts event => exact announced_actions event
  | sets => exact Announced.tail ht
  | _ => exact ht

lemma Tidy.length_eq_iff (h : Tidy backends d) :
    d.emitted.length = pluginCount backends d ↔ AllReported backends d := by
  obtain ⟨hbackends, names, hnames, henabled, hemitted⟩ := h
  have hlen : d.emitted.length = names.length := by
    simpa using congrArg List.length hemitted
  have hreported : ∀ name, d.Reported name ↔ name ∈ names := by
    intro name
    have hmem : some name ∈ d.emitted.map (Option.map Prod.fst) ↔ name ∈ names := by
      rw [hemitted]
      simp
    rw [← hmem, mem_map]
    constructor
    · rintro ⟨report, hreport, hfor⟩
      refine ⟨report, hreport, ?_⟩
      cases report with
      | none => exact Bool.noConfusion hfor
      | some => simpa [Report.isFor] using hfor
    · rintro ⟨report, hreport, hname⟩
      refine ⟨report, hreport, ?_⟩
      cases report with
      | none => cases hname
      | some => simpa [Report.isFor] using hname
  have hsub : names.Subperm (backends.filter (· ∈ d.enabled)) :=
    subperm_of_subset hnames fun name hmem => mem_filter.mpr
      ⟨(henabled name hmem).1, decide_eq_true (henabled name hmem).2⟩
  rw [hlen]
  constructor
  · intro hsize name hname hmem
    refine (hreported name).mpr ((hsub.perm_of_length_le (Nat.le_of_eq hsize.symm)).mem_iff.mpr ?_)
    exact mem_filter.mpr ⟨hname, decide_eq_true hmem⟩
  · intro hall
    refine Nat.le_antisymm hsub.length_le ?_
    refine (subperm_of_subset (hbackends.filter _) fun name hmem => ?_).length_le
    obtain ⟨hname, hon⟩ := mem_filter.mp hmem
    exact (hreported name).mp (hall name hname (of_decide_eq_true hon))

lemma AllReported.of_fewer (h : AllReported backends d)
    (henabled : ∀ name ∈ d'.enabled, name ∈ d.enabled)
    (hreported : ∀ name, d.Reported name → d'.Reported name) : AllReported backends d' :=
  fun name hname hmem => hreported name (h name hname (henabled name hmem))

lemma Reported.of_mem {name : String} (h : d.Reported name)
    (hemitted : ∀ report ∈ d.emitted, report ∈ d'.emitted ∨ report = none) : d'.Reported name := by
  obtain ⟨report, hreport, hfor⟩ := h
  rcases hemitted report hreport with hold | rfl
  · exact ⟨report, hold, hfor⟩
  · exact Bool.noConfusion hfor

lemma mem_removeIf {name : String} {emitted : List Report} {report : Report}
    (h : report ∈ removeIf name emitted) : report ∈ emitted ∨ report = none := by
  rcases mem_append.mp h with hkept | hrest
  · exact .inl (mem_of_mem_filter hkept)
  · obtain ⟨old, hold, rfl⟩ := mem_map.mp hrest
    split_ifs
    · exact .inl (mem_of_mem_drop hold)
    · exact .inr rfl

lemma subset_setPluginEnabled (name : String) (enabled : List String) :
    ∀ other ∈ enabled, other ∈ setPluginEnabled name true enabled := by
  intro other hmem
  rw [setPluginEnabled, if_pos rfl]
  split_ifs
  · exact hmem
  · exact mem_append_left _ hmem

/-- With callbacks waiting and all reports in, the thread comes to a comparison, unless somebody
else had to before. -/
lemma ReadyStep.comes (h : ReadyStep backends d t d' t') (ht : Announced t.todo)
    (hexact : ∀ count rest, t = ⟨.compares count, rest⟩ →
    (d.emitted.length = count ↔ AllReported backends d))
    (hlisteners : d'.listeners ≠ []) (hall : AllReported backends d') :
    t'.Comes ∨ (d.listeners ≠ [] ∧ AllReported backends d ∧ ¬ t.Comes) := by
  cases h with
  | starts => exact .inr ⟨hlisteners, hall, by simp [ReadyThread.Comes, ReadyPc.inUpdate]⟩
  | sets name enable rest =>
    cases enable with
    | false => exact .inl (.inr ht.1)
    | true =>
      by_cases hcomes : ReadyThread.Comes ⟨.next, rest⟩
      · exact .inl hcomes
      · refine .inr ⟨hlisteners, ?_, ?_⟩
        · exact AllReported.of_fewer hall (subset_setPluginEnabled name _) fun other hother => hother
        · simpa [ReadyThread.Comes, ReadyAction.updates] using hcomes
  | spawns name rest =>
    by_cases hcomes : ReadyThread.Comes ⟨.next, rest⟩
    · exact .inl hcomes
    · exact .inr ⟨hlisteners, hall, by simpa [ReadyThread.Comes, ReadyAction.updates] using hcomes⟩
  | spawnFails => exact .inl (.inr ⟨_, mem_cons_self, rfl⟩)
  | removes name isShuttingDown rest =>
    cases isShuttingDown with
    | false => exact .inl (.inl rfl)
    | true =>
      by_cases hcomes : ReadyThread.Comes ⟨.next, rest⟩
      · exact .inl (.inr (by simpa [ReadyThread.Comes, ReadyPc.inUpdate] using hcomes))
      · refine .inr ⟨hlisteners, ?_, ?_⟩
        · exact AllReported.of_fewer hall (fun other hmem => hmem) fun other hother =>
            Reported.of_mem hother fun report hreport => mem_removeIf hreport
        · simpa [ReadyThread.Comes, ReadyAction.updates] using hcomes
  | erases position isShuttingDown rest =>
    cases isShuttingDown with
    | false => exact .inl (.inl rfl)
    | true =>
      by_cases hcomes : ReadyThread.Comes ⟨.next, rest⟩
      · exact .inl hcomes
      · refine .inr ⟨hlisteners, ?_, hcomes⟩
        exact AllReported.of_fewer hall (fun other hmem => hmem) fun other hother =>
          Reported.of_mem hother fun report hreport => .inl (mem_of_mem_take hreport)
  | differs count rest hne => exact (hne ((hexact count rest rfl).mpr hall)).elim
  | takes => exact (hlisteners rfl).elim
  | fires callback callbacks rest =>
    by_cases hcomes : ReadyThread.Comes ⟨.next, rest⟩
    · exact .inl hcomes
    · exact .inr ⟨hlisteners, hall, hcomes⟩
  | returns rest =>
    by_cases hcomes : ReadyThread.Comes ⟨.next, rest⟩
    · exact .inl hcomes
    · exact .inr ⟨hlisteners, hall, hcomes⟩
  | _ => exact .inl (.inl rfl)

lemma ReadyStep.firing (h : ReadyStep backends d t d' t') (hfiring : t'.Firing) :
    t.Firing ∨ ∃ count rest, t = ⟨.compares count, rest⟩ ∧ d.emitted.length = count ∧ d' = d := by
  cases h with
  | agrees count rest heq => exact .inr ⟨count, rest, rfl, heq, rfl⟩
  | takes => exact .inl trivial
  | fires => exact .inl trivial
  | erases position isShuttingDown => cases isShuttingDown <;> exact hfiring.elim
  | _ => exact hfiring.elim

lemma ReadyStep.invokes (h : ReadyStep backends d t d' t') (hne : d'.invoked ≠ d.invoked) :
    t.Firing := by
  cases h with
  | fires => trivial
  | _ => exact (hne rfl).elim

structure Promised (backends : List String) (s : DispatcherState) : Prop where
  announced : ∀ i, Announced (s.thread i).todo
  pending : s.shared.listeners ≠ [] → AllReported backends s.shared → ∃ i, (s.thread i).Comes
  firing : (∃ i, (s.thread i).Firing) → AllReported backends s.shared

lemma Promised.start (enabled : List String) :
    Promised backends (DispatcherState.start enabled) where
  announced _ := trivial
  pending h := (h rfl).elim
  firing := fun ⟨_, h⟩ => h.elim

lemma Promised.step {s s' : DispatcherState} (hs : Promised backends s)
    (h : Allowed (DispatcherStep backends) (Orderly backends) s s') : Promised backends s' := by
  obtain ⟨⟨i, hstep⟩, hcounted, hsteady⟩ := h
  rename_i d t
  have hexact : ∀ count rest, s.thread i = ⟨.compares count, rest⟩ →
      (s.shared.emitted.length = count ↔ AllReported backends s.shared) := by
    intro count rest hpc
    have hmoves : update s.thread i t i ≠ s.thread i := by
      rw [hpc]
      rw [hpc] at hstep
      cases hstep <;> simp
    obtain ⟨rfl, htidy⟩ := hcounted i count rest hpc hmoves
    exact htidy.length_eq_iff
  refine ⟨fun j => ?_, fun hlisteners hall => ?_, ?_⟩ <;> dsimp only at *
  · by_cases hj : j = i
    · subst hj
      rw [update_self]
      exact hstep.announced (hs.announced j)
    · rw [update_of_ne hj]
      exact hs.announced j
  · rcases hstep.comes (hs.announced i) hexact hlisteners hall with hcomes | ⟨hbefore, hall, hnot⟩
    · exact ⟨i, by rwa [update_self]⟩
    · obtain ⟨j, hj⟩ := hs.pending hbefore hall
      have hne : j ≠ i := fun heq => hnot (heq ▸ hj)
      exact ⟨j, by rwa [update_of_ne hne]⟩
  · rintro ⟨j, hj⟩
    -- either somebody fires already, or the step is a comparison that succeeds
    have hbefore : (∃ k, (s.thread k).Firing) ∨ (AllReported backends s.shared ∧ d = s.shared) := by
      by_cases hji : j = i
      · subst hji
        rw [update_self] at hj
        rcases hstep.firing hj with hfiring | ⟨count, rest, hpc, heq, hsame⟩
        · exact .inl ⟨j, hfiring⟩
        · exact .inr ⟨(hexact count rest hpc).mp heq, hsame⟩
      · rw [update_of_ne hji] at hj
        exact .inl ⟨j, hj⟩
    rcases hbefore with hfiring | ⟨hall, rfl⟩
    · obtain ⟨henabled, hreported⟩ := hsteady hfiring
      exact (hs.firing hfiring).of_fewer henabled hreported
    · exact hall

lemma promised_of_reachable {s : DispatcherState}
    (h : Reachable (Allowed (DispatcherStep backends) (Orderly backends)) DispatcherState.IsStart s) :
    Promised backends s := by
  refine h.invariant (Promised backends) ?_ fun _ _ hs hstep => hs.step hstep
  rintro _ ⟨enabled, rfl⟩
  exact Promised.start enabled

end

section
variable (backends : List String)

/-- In orderly runs the callbacks are invoked once, and when all backends are ready. -/
theorem callbacks_right_of_orderly : CallbacksRight backends (Orderly backends) where
  once s h := invoked_nodup h.of_allowed
  ready s s' h hstep hinvoked := by
    obtain ⟨⟨i, hone⟩, -⟩ := hstep
    exact (promised_of_reachable h).firing ⟨i, hone.invokes hinvoked⟩
  all s h hquiet hall callback hregistered := by
    have hempty : s.shared.listeners = [] := by
      by_contra hne
      obtain ⟨i, hcomes⟩ := (promised_of_reachable h).pending hne hall
      rw [hquiet i] at hcomes
      simp [ReadyThread.Comes, ReadyThread.idle, ReadyPc.inUpdate] at hcomes
    refine (sound_of_reachable h.of_allowed).all_spent hempty (fun i => ?_) hregistered
    change (s.thread i).carried = []
    rw [hquiet i]
    rfl

end

lemma update_idle (i : Nat) :
    update (fun _ => ReadyThread.idle) i ⟨.next, []⟩ = fun _ => ReadyThread.idle :=
  update_eq_self i _

lemma reachable_reported : Reachable (DispatcherStep ["A", "B"]) DispatcherState.IsStart
    ⟨⟨["A"], [some ("A", true)], false, [], 0, []⟩, fun _ => .idle⟩ := by
  have h0 : Reachable (DispatcherStep ["A", "B"]) DispatcherState.IsStart
      (DispatcherState.start ["A"]) := .init ⟨["A"], rfl⟩
  have h1 := h0.tail (.mk 0 (.starts (.report "A" true)))
  have h2 := h1.tail (.mk 0 (.finds "A" true []))
  have h3 := h2.tail (.mk 0 (.pushes "A" true []))
  have h4 := h3.tail (.mk 0 (.counts []))
  have h5 := h4.tail (.mk 0 (.agrees 1 [] rfl))
  have h6 := h5.tail (.mk 0 (.takes [] rfl))
  have h7 := h6.tail (.mk 0 (.returns []))
  simpa only [DispatcherState.start, update_idem, update_idle, nil_append] using h7

/-- `set_plugins_enabled` has disabled `A` and enabled `B`, and has not destroyed `A` yet.
A callback registered now finds one report and one enabled backend, and is invoked before
`B` has reported. -/
theorem switched_plugin_not_awaited :
    ∃ s s', Reachable (DispatcherStep ["A", "B"]) DispatcherState.IsStart s ∧
      DispatcherStep ["B"] s s' ∧ s.shared.invoked = [] ∧ s'.shared.invoked = [0] ∧
      "B" ∈ s.shared.enabled ∧ ¬ s.shared.Reported "B" := by
  have h1 := reachable_reported.tail (.mk 0 (.starts
    (.setPluginsEnabled [("A", false), ("B", true)] true)))
  have h2 := h1.tail (.mk 0 (.sets "A" false _))
  have h3 := h2.tail (.mk 0 (.sets "B" true _))
  have h4 := h3.tail (.mk 1 (.starts .onAllBackendsReady))
  have h5 := h4.tail (.mk 1 (.registers [] rfl))
  have h6 := h5.tail (.mk 1 (.counts []))
  have h7 := h6.tail (.mk 1 (.agrees 1 [] rfl))
  have h8 := h7.tail (.mk 1 (.takes [] rfl))
  refine ⟨_, _, h8, .mk 1 (.fires 0 [] []), rfl, rfl, by decide, ?_⟩
  rintro ⟨report, hreport, hfor⟩
  obtain rfl := mem_singleton.mp hreport
  exact absurd hfor (by decide)

end Millennium.Engine
