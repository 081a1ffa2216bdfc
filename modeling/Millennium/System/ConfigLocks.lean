import Mathlib.Tactic.SplitIfs
import Millennium.Lib.Locks

/-!
# The locks of the config store

Every function of `config_manager` takes `_mutex`, which its holder may take again. `save_to_disk`
takes `_save_mutex` first; `set`, `set_all` and `load_from_disk` call it while they hold `_mutex`,
others while they hold nothing.
-/

namespace Millennium.System

open Relation Locks Transitions Threads

inductive ConfigLock where
  | mutex
  | saveMutex
  deriving Repr, DecidableEq

/-- `_mutex` is a `std::recursive_mutex`. -/
def Recursive (l : ConfigLock) : Prop := l = .mutex

/-- A call of the store. `differs` is the comparison in `set`, and each key has the calls of its
listeners. -/
inductive ConfigCall where
  /-- `get`, `get_all`, `set_default_config`, the listeners' registration, and calls that throw
  before they save. -/
  | access
  | set (skipPropagation differs : Bool) (listeners : List ConfigCall)
  | setAll (skipPropagation : Bool) (notifications : List (List ConfigCall))
  | loadFromDisk (notifications : List (List ConfigCall))
  | saveToDisk

def guarded (l : ConfigLock) (ops : List (LockOp ConfigLock)) : List (LockOp ConfigLock) :=
  .acquire l :: (ops ++ [.release l])

def saveOps : List (LockOp ConfigLock) := guarded .saveMutex (guarded .mutex [])

mutual

def ConfigCall.ops : ConfigCall → List (LockOp ConfigLock)
  | .access => guarded .mutex []
  | .set skipPropagation differs listeners =>
    guarded .mutex
      (if differs && !skipPropagation then guarded .mutex [] ++ callsOps listeners ++ saveOps
        else [])
  | .setAll skipPropagation notifications =>
    guarded .mutex ((if skipPropagation then [] else notifyOps notifications) ++ saveOps)
  | .loadFromDisk notifications => guarded .mutex (notifyOps notifications ++ saveOps)
  | .saveToDisk => saveOps

def callsOps : List ConfigCall → List (LockOp ConfigLock)
  | [] => []
  | c :: rest => c.ops ++ callsOps rest

/-- `notify_listeners`, for each key: the listeners are copied under `_mutex`, then called. -/
def notifyOps : List (List ConfigCall) → List (LockOp ConfigLock)
  | [] => []
  | listeners :: rest => guarded .mutex [] ++ callsOps listeners ++ notifyOps rest

end

def pluginConfigSet (differs : Bool) : List ConfigCall := [.access, .set true differs [], .saveToDisk]

def pluginConfigDel (differs : Bool) : List ConfigCall := [.access, .set true differs [], .saveToDisk]

def pluginConfigDeleteAll (differs : Bool) : List ConfigCall := [.set true differs [], .saveToDisk]

def ConfigCall.SavesOutside (c : ConfigCall) : Prop := c = .saveToDisk

def ConfigCall.SavesInside : ConfigCall → Prop
  | .set skipPropagation differs _ => differs = true ∧ skipPropagation = false
  | .setAll _ _ => True
  | .loadFromDisk _ => True
  | _ => False

/-- In no reachable state do threads wait for each other's locks in a cycle. -/
def DeadlockFree {T : Type*} [DecidableEq T] (calls : T → List ConfigCall) : Prop :=
  ∀ s, Reachable (Step Recursive) (· = start fun t => callsOps (calls t)) s →
    ¬ Cyclic (Waits Recursive s)

section
variable {l : ConfigLock} {n : Nat}

lemma depth_guarded {ops : List (LockOp ConfigLock)} {l' : ConfigLock}
    (h : ∀ n, depth l ops n = n) : depth l (guarded l' ops) n = n := by
  rw [guarded, depth, depth_append, h]
  by_cases hl : l' = l
  · simp [depth, hl]
  · simp [depth, hl]

lemma depth_guarded_nil {l' : ConfigLock} : depth l (guarded l' []) n = n :=
  depth_guarded fun _ => rfl

lemma depth_saveOps : depth l saveOps n = n :=
  depth_guarded fun _ => depth_guarded_nil

mutual

theorem depth_ops (c : ConfigCall) (n : Nat) : depth l c.ops n = n := by
  cases c with
  | access => exact depth_guarded_nil
  | set skipPropagation differs listeners =>
    apply depth_guarded
    intro n
    split_ifs
    · rw [depth_append, depth_append, depth_guarded_nil, depth_callsOps listeners, depth_saveOps]
    · rfl
  | setAll skipPropagation notes =>
    apply depth_guarded
    intro n
    rw [depth_append, depth_saveOps]
    split_ifs
    · rfl
    · exact depth_notifyOps notes n
  | loadFromDisk notes =>
    apply depth_guarded
    intro n
    rw [depth_append, depth_notifyOps notes, depth_saveOps]
  | saveToDisk => exact depth_saveOps

theorem depth_callsOps (calls : List ConfigCall) (n : Nat) : depth l (callsOps calls) n = n := by
  cases calls with
  | nil => rfl
  | cons c rest => rw [callsOps, depth_append, depth_ops c, depth_callsOps rest]

theorem depth_notifyOps (notes : List (List ConfigCall)) (n : Nat) :
    depth l (notifyOps notes) n = n := by
  cases notes with
  | nil => rfl
  | cons listeners rest =>
    rw [notifyOps, depth_append, depth_append, depth_guarded_nil, depth_callsOps listeners,
      depth_notifyOps rest]

end

end

/-- `_mutex` is taken on top of `_save_mutex` only by who saves outside, and the other way round by
who saves inside. -/
def InOrder (outside inside : Prop) (held : ConfigLock → Nat) : LockOp ConfigLock → Prop
  | .acquire .mutex => 0 < held .saveMutex → held .mutex = 0 → outside
  | .acquire .saveMutex => held .saveMutex = 0 ∧ (0 < held .mutex → inside)
  | .release _ => True

section
variable {outside inside : Prop} {held : ConfigLock → Nat}

lemma checks_guarded {l : ConfigLock} {ops : List (LockOp ConfigLock)}
    (h : InOrder outside inside held (.acquire l))
    (hops : Checks (InOrder outside inside) ops fun l' => if l = l' then held l' + 1 else held l') :
    Checks (InOrder outside inside) (guarded l ops) held := by
  apply checks_cons h
  apply checks_append hops
  apply checks_cons
  · exact trivial
  · exact checks_nil

lemma checks_saveOps (hsave : held .saveMutex = 0) (hin : 0 < held .mutex → inside)
    (houtside : held .mutex = 0 → outside) :
    Checks (InOrder outside inside) saveOps held := by
  apply checks_guarded
  · exact ⟨hsave, hin⟩
  · apply checks_guarded
    · intro _ hzero
      exact houtside (by simpa using hzero)
    · exact checks_nil

lemma checks_guarded_mutex (hsave : held .saveMutex = 0) {ops : List (LockOp ConfigLock)}
    (hops : ∀ held', held' .saveMutex = 0 → 0 < held' .mutex →
    Checks (InOrder outside inside) ops held') :
    Checks (InOrder outside inside) (guarded .mutex ops) held := by
  apply checks_guarded
  · intro hpos
    exact absurd hpos (by simp [hsave])
  · apply hops
    · simpa using hsave
    · simp

lemma checks_balanced_append {ops ops' : List (LockOp ConfigLock)}
    (h : Checks (InOrder outside inside) ops held) (hbalance : ∀ l n, depth l ops n = n)
    (h' : Checks (InOrder outside inside) ops' held) :
    Checks (InOrder outside inside) (ops ++ ops') held := by
  apply checks_append h
  simpa only [hbalance] using h'

mutual

theorem checks_ops (c : ConfigCall) (held : ConfigLock → Nat) (hsave : held .saveMutex = 0)
    (hc : c.SavesInside → inside)
    (hc' : c.SavesOutside → (0 < held .mutex → inside) ∧ (held .mutex = 0 → outside)) :
    Checks (InOrder outside inside) c.ops held := by
  have hsaves : inside → ∀ held', held' .saveMutex = 0 → 0 < held' .mutex →
      Checks (InOrder outside inside) saveOps held' := by
    intro hinside held' hsave' hmutex'
    exact checks_saveOps hsave' (fun _ => hinside) fun hzero => absurd hmutex' (by simp [hzero])
  cases c with
  | access =>
    apply checks_guarded_mutex hsave
    intro _ _ _
    exact checks_nil
  | set skipPropagation differs listeners =>
    apply checks_guarded_mutex hsave
    intro held' hsave' hmutex'
    split_ifs with hpropagates
    · have hinside : inside := hc (by simpa [ConfigCall.SavesInside] using hpropagates)
      apply checks_balanced_append _ _ (hsaves hinside held' hsave' hmutex')
      · apply checks_balanced_append
        · exact checks_guarded_mutex hsave' fun _ _ _ => checks_nil
        · intro l n
          exact depth_guarded_nil
        · exact checks_callsOps hinside listeners held' hsave' hmutex'
      · intro l n
        rw [depth_append, depth_guarded_nil, depth_callsOps]
    · exact checks_nil
  | setAll skipPropagation notes =>
    have hinside : inside := hc trivial
    apply checks_guarded_mutex hsave
    intro held' hsave' hmutex'
    split_ifs
    · exact hsaves hinside held' hsave' hmutex'
    · apply checks_balanced_append _ _ (hsaves hinside held' hsave' hmutex')
      · exact checks_notifyOps hinside notes held' hsave' hmutex'
      · intro l n
        exact depth_notifyOps notes n
  | loadFromDisk notes =>
    have hinside : inside := hc trivial
    apply checks_guarded_mutex hsave
    intro held' hsave' hmutex'
    apply checks_balanced_append _ _ (hsaves hinside held' hsave' hmutex')
    · exact checks_notifyOps hinside notes held' hsave' hmutex'
    · intro l n
      exact depth_notifyOps notes n
  | saveToDisk =>
    obtain ⟨hin, hout⟩ := hc' rfl
    exact checks_saveOps hsave hin hout

theorem checks_callsOps (hin : inside) (calls : List ConfigCall) (held : ConfigLock → Nat)
    (hsave : held .saveMutex = 0) (hmutex : 0 < held .mutex) :
    Checks (InOrder outside inside) (callsOps calls) held := by
  cases calls with
  | nil => exact checks_nil
  | cons c rest =>
    apply checks_balanced_append
    · apply checks_ops c held hsave
      · exact fun _ => hin
      · exact fun _ => ⟨fun _ => hin, fun hzero => absurd hmutex (by simp [hzero])⟩
    · intro l n
      exact depth_ops c n
    · exact checks_callsOps hin rest held hsave hmutex

theorem checks_notifyOps (hin : inside) (notes : List (List ConfigCall))
    (held : ConfigLock → Nat) (hsave : held .saveMutex = 0) (hmutex : 0 < held .mutex) :
    Checks (InOrder outside inside) (notifyOps notes) held := by
  cases notes with
  | nil => exact checks_nil
  | cons listeners rest =>
    apply checks_balanced_append
    · apply checks_balanced_append
      · exact checks_guarded_mutex hsave fun _ _ _ => checks_nil
      · intro l n
        exact depth_guarded_nil
      · exact checks_callsOps hin listeners held hsave hmutex
    · intro l n
      rw [depth_append, depth_guarded_nil, depth_callsOps]
    · exact checks_notifyOps hin rest held hsave hmutex

end

lemma checks_program (calls : List ConfigCall) :
    Checks (InOrder (∃ c ∈ calls, c.SavesOutside) (∃ c ∈ calls, c.SavesInside)) (callsOps calls)
      fun _ => 0 := by
  have hpart : ∀ part, part ⊆ calls →
      Checks (InOrder (∃ c ∈ calls, c.SavesOutside) (∃ c ∈ calls, c.SavesInside)) (callsOps part)
        fun _ => 0 := by
    intro part hsub
    induction part with
    | nil => exact checks_nil
    | cons c rest ih =>
      obtain ⟨hc, hrest⟩ := List.cons_subset.mp hsub
      apply checks_balanced_append
      · apply checks_ops c _ rfl
        · exact fun hin => ⟨c, hc, hin⟩
        · exact fun hout => ⟨fun hpos => absurd hpos (Nat.lt_irrefl 0), fun _ => ⟨c, hc, hout⟩⟩
      · intro l n
        exact depth_ops c n
      · exact ih hrest
  exact hpart calls (List.Subset.refl _)

end

section
variable {T : Type*} [DecidableEq T] {calls : T → List ConfigCall} {s : Threads T ConfigLock}

section
variable (h : Reachable (Step Recursive) (· = start fun t => callsOps (calls t)) s)
include h

lemma inOrder_of_todo
    {t : T} {l : ConfigLock} {rest : List (LockOp ConfigLock)}
    (htodo : s.todo t = .acquire l :: rest) :
    InOrder (∃ c ∈ calls t, c.SavesOutside) (∃ c ∈ calls t, c.SavesInside)
      (fun l' => depth l' (s.done t) 0) (.acquire l) := by
  apply checks_program (calls t) (s.done t) (.acquire l) rest
  rw [← htodo]
  exact (done_append_todo h t).symm

lemma waits_ne {t u : T} (hw : Waits Recursive s t u) : u ≠ t := by
  intro hut
  obtain ⟨l, rest, htodo, hheld, hnot⟩ := hw
  cases l with
  | mutex => exact hnot hut rfl
  | saveMutex =>
    subst hut
    have hzero := (inOrder_of_todo h htodo).1
    exact absurd hheld (by simp [Holds, hzero])

/-- In a cycle of waiting threads, one holds `_mutex` and waits for `_save_mutex`, and another the
other way round. -/
lemma exists_opposite_of_cyclic
    (hcycle : Cyclic (Waits Recursive s)) :
    ∃ t u rest rest', t ≠ u ∧ s.todo t = .acquire .mutex :: rest ∧ Holds s t .saveMutex ∧
    s.todo u = .acquire .saveMutex :: rest' ∧ Holds s u .mutex := by
  obtain ⟨t, ht⟩ := hcycle
  -- `t` waits for `u`, and `u` waits for some `v`
  obtain ⟨u, htu, hut⟩ := TransGen.head'_iff.mp ht
  have hne := waits_ne h htu
  obtain ⟨v, huv, -⟩ := TransGen.head'_iff.mp
    ((reflTransGen_iff_eq_or_transGen.mp hut).resolve_left (Ne.symm hne))
  obtain ⟨l, rest, htodo, hheld, -⟩ := id htu
  obtain ⟨l', rest', htodo', hheld', -⟩ := id huv
  have hll : l ≠ l' := by
    intro hl
    subst hl
    exact waits_ne h huv (holder_unique h hheld' hheld)
  -- somebody waits for `t` too, so that `t` holds the other lock
  obtain ⟨w, -, hwt⟩ := TransGen.tail'_iff.mp ht
  obtain ⟨l'', rest'', -, hheld'', -⟩ := id hwt
  have hll' : l'' ≠ l := by
    intro hl
    subst hl
    exact hne (holder_unique h hheld hheld'')
  cases l with
  | mutex =>
    cases l' with
    | mutex => exact absurd rfl hll
    | saveMutex =>
      cases l'' with
      | mutex => exact absurd rfl hll'
      | saveMutex => exact ⟨t, u, rest, rest', Ne.symm hne, htodo, hheld'', htodo', hheld⟩
  | saveMutex =>
    cases l' with
    | saveMutex => exact absurd rfl hll
    | mutex =>
      cases l'' with
      | saveMutex => exact absurd rfl hll'
      | mutex => exact ⟨u, t, rest', rest, hne, htodo', hheld, htodo, hheld''⟩

end

lemma proper_program (calls : List ConfigCall) : Proper Recursive (callsOps calls) := by
  intro before op after hsplit l hop hheld
  subst hop
  have horder := checks_program calls before (.acquire l) after hsplit
  cases l with
  | mutex => rfl
  | saveMutex => exact absurd hheld (by simp [horder.1])

lemma callsOps_append (calls calls' : List ConfigCall) :
    callsOps (calls ++ calls') = callsOps calls ++ callsOps calls' := by
  induction calls with
  | nil => rfl
  | cons c rest ih => rw [List.cons_append, callsOps, callsOps, ih, List.append_assoc]

lemma exists_saves_outside {calls : List ConfigCall} (h : ∃ c ∈ calls, c.SavesOutside) :
    ∃ before after, callsOps calls = before ++ .acquire .saveMutex :: .acquire .mutex :: after ∧
    ∀ l, depth l before 0 = 0 := by
  obtain ⟨c, hc, hout⟩ := h
  obtain ⟨earlier, later, rfl⟩ := List.append_of_mem hc
  rw [hout, callsOps_append]
  exact ⟨callsOps earlier, _, rfl, fun l => depth_callsOps earlier 0⟩

lemma exists_saves_inside {calls : List ConfigCall} (h : ∃ c ∈ calls, c.SavesInside) :
    ∃ before after, callsOps calls = before ++ .acquire .saveMutex :: after ∧
    depth .saveMutex before 0 = 0 ∧ 0 < depth .mutex before 0 := by
  -- the call takes `_mutex`, does something balanced, and saves
  have hbody : ∃ c ∈ calls, ∃ body, c.ops = guarded .mutex (body ++ saveOps) ∧
      ∀ l n, depth l body n = n := by
    obtain ⟨c, hc, hin⟩ := h
    refine ⟨c, hc, ?_⟩
    cases c with
    | access | saveToDisk => exact hin.elim
    | set skipPropagation differs listeners =>
      obtain ⟨rfl, rfl⟩ := hin
      refine ⟨guarded .mutex [] ++ callsOps listeners, rfl, fun l n => ?_⟩
      rw [depth_append, depth_guarded_nil, depth_callsOps]
    | setAll skipPropagation notes =>
      refine ⟨_, rfl, fun l n => ?_⟩
      split_ifs
      · rfl
      · exact depth_notifyOps notes n
    | loadFromDisk notes => exact ⟨_, rfl, fun l n => depth_notifyOps notes n⟩
  obtain ⟨c, hc, body, hops, hbalance⟩ := hbody
  obtain ⟨earlier, later, rfl⟩ := List.append_of_mem hc
  refine ⟨callsOps earlier ++ .acquire .mutex :: body,
    .acquire .mutex :: .release .mutex :: .release .saveMutex :: .release .mutex :: callsOps later,
    ?_, ?_, ?_⟩
  · rw [callsOps_append, callsOps, hops]
    simp [guarded, saveOps]
  · rw [depth_append, depth_callsOps, depth, hbalance]
    simp
  · rw [depth_append, depth, hbalance]
    simp

lemma not_holds_advance_start {program : T → List (LockOp ConfigLock)} {t : T}
    {ops rest : List (LockOp ConfigLock)} (hops : ∀ l, depth l ops 0 = 0) (v : T)
    (l : ConfigLock) : ¬ Holds ((start program).advance t ops rest) v l := by
  intro hheld
  by_cases hv : v = t
  · subst hv
    rw [holds_advance_self] at hheld
    exact absurd hheld (by simp [start, depth, hops])
  · rw [holds_advance_of_ne hv] at hheld
    exact absurd hheld (Nat.lt_irrefl 0)

lemma not_deadlockFree {t u : T} (hne : t ≠ u) (ht : ∃ c ∈ calls t, c.SavesOutside)
    (hu : ∃ c ∈ calls u, c.SavesInside) : ¬ DeadlockFree calls := by
  intro hfree
  obtain ⟨before, after, hprogram, hdepth⟩ := exists_saves_outside ht
  obtain ⟨before', after', hprogram', hsave', hmutex'⟩ := exists_saves_inside hu
  let start := start fun t => callsOps (calls t)
  -- `t` goes on to its save, then `u` to its own, then `t` takes `_save_mutex`
  let first := start.advance t before (.acquire .saveMutex :: .acquire .mutex :: after)
  let second := first.advance u before' (.acquire .saveMutex :: after')
  let third := second.advance t [.acquire .saveMutex] (.acquire .mutex :: after)
  have hfirst : ReflTransGen (Step Recursive) start first := by
    apply run_alone hprogram
    · have hproper := proper_program (calls t)
      rw [hprogram] at hproper
      exact hproper.of_append
    · intro v _ l hheld
      exact absurd hheld (Nat.lt_irrefl 0)
  have hidle : ∀ v l, ¬ Holds first v l := not_holds_advance_start hdepth
  have hdone : first.done u = [] := done_advance_of_ne (Ne.symm hne)
  have hsecond : ReflTransGen (Step Recursive) first second := by
    apply run_alone
    · rw [todo_advance_of_ne (Ne.symm hne)]
      exact hprogram'
    · have hproper := proper_program (calls u)
      rw [hprogram'] at hproper
      rw [hdone]
      exact hproper.of_append
    · exact fun v _ l => hidle v l
  have hthird : Step Recursive second third := by
    refine .next t ?_ fun l hl => ?_
    · rw [todo_advance_of_ne hne, todo_advance_self]
    · cases hl
      refine ⟨fun v hv hheld => ?_, fun hheld => ?_⟩
      · by_cases hvu : v = u
        · subst hvu
          rw [holds_advance_self, hdone, depth, hsave'] at hheld
          exact Nat.lt_irrefl 0 hheld
        · rw [holds_advance_of_ne hvu] at hheld
          exact hidle v _ hheld
      · rw [holds_advance_of_ne hne] at hheld
        exact absurd hheld (hidle t _)
  have hstart : Reachable (Step Recursive) (· = start) start := Reachable.init rfl
  have hreach := ((hstart.steps hfirst).steps hsecond).tail hthird
  have htu : Waits Recursive third t u := by
    refine ⟨.mutex, after, todo_advance_self, ?_, fun h => absurd h (Ne.symm hne)⟩
    rw [holds_advance_of_ne (Ne.symm hne), holds_advance_self, hdone]
    exact hmutex'
  have hut : Waits Recursive third u t := by
    refine ⟨.saveMutex, after', ?_, ?_, fun h => absurd h hne⟩
    · rw [todo_advance_of_ne (Ne.symm hne), todo_advance_self]
    · rw [holds_advance_self]
      simp [depth]
  exact hfree third hreach ⟨t, .tail (.single htu) hut⟩

end

/-- The store cannot deadlock exactly when no thread saves while it holds nothing and another
one saves while it holds `_mutex`. -/
theorem config_deadlock_free_iff {T : Type*} [DecidableEq T] (calls : T → List ConfigCall) :
    DeadlockFree calls ↔ ∀ t u, t ≠ u →
      ¬ ((∃ c ∈ calls t, c.SavesOutside) ∧ ∃ c ∈ calls u, c.SavesInside) := by
  constructor
  · intro hfree t u hne hboth
    exact not_deadlockFree hne hboth.1 hboth.2 hfree
  · intro hapart s hreach hcycle
    obtain ⟨t, u, rest, rest', hne, htodo, hsave, htodo', hmutex⟩ :=
      exists_opposite_of_cyclic hreach hcycle
    have hnot : ¬ Holds s t .mutex := fun hheld => hne (holder_unique hreach hheld hmutex)
    have hout := inOrder_of_todo hreach htodo hsave (Nat.eq_zero_of_not_pos hnot)
    have hin := (inOrder_of_todo hreach htodo').2 hmutex
    exact hapart t u hne ⟨hout, hin⟩

/-- `plugin_config::set` in one thread, and `set` with another value than before in another. -/
theorem pluginConfigSet_deadlocks : ¬ DeadlockFree fun t : Bool =>
      if t then pluginConfigSet true else [ConfigCall.set false true []] := by
  apply @not_deadlockFree _ _ _ true false (by decide)
  · exact ⟨.saveToDisk, by simp [pluginConfigSet], rfl⟩
  · exact ⟨.set false true [], by simp, rfl, rfl⟩

end Millennium.System
