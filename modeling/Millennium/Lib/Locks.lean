import Mathlib.Logic.Function.Basic
import Millennium.Lib.Transitions

/-!
# Threads that take and release locks

A thread is a list of lock operations that it still has to do. It holds a lock as long as it has
taken it more often than released it; some locks may be taken again by their holder.
-/

namespace Millennium.Locks

open Relation Transitions List Function

variable {T L : Type*}

inductive LockOp (L : Type*) where
  | acquire (l : L)
  | release (l : L)
  deriving Repr, DecidableEq

/-- How often a lock is held after some operations, when it was held `n` times before. -/
def depth [DecidableEq L] (l : L) : List (LockOp L) → Nat → Nat
  | [], n => n
  | .acquire l' :: rest, n => depth l rest (if l' = l then n + 1 else n)
  | .release l' :: rest, n => depth l rest (if l' = l then n - 1 else n)

structure Threads (T L : Type*) where
  done : T → List (LockOp L)
  todo : T → List (LockOp L)

def Threads.start (program : T → List (LockOp L)) : Threads T L := ⟨fun _ => [], program⟩

def Threads.advance [DecidableEq T] (s : Threads T L) (t : T) (ops rest : List (LockOp L)) :
    Threads T L :=
  ⟨update s.done t (s.done t ++ ops), update s.todo t rest⟩

section
variable [DecidableEq T] {s : Threads T L} {t u : T} {ops rest : List (LockOp L)}

@[simp] lemma todo_advance_self : (s.advance t ops rest).todo t = rest :=
  update_self _ _ _

@[simp] lemma todo_advance_of_ne (h : u ≠ t) : (s.advance t ops rest).todo u = s.todo u :=
  update_of_ne h _ _

@[simp] lemma done_advance_self : (s.advance t ops rest).done t = s.done t ++ ops :=
  update_self _ _ _

@[simp] lemma done_advance_of_ne (h : u ≠ t) : (s.advance t ops rest).done u = s.done u :=
  update_of_ne h _ _

end

variable [DecidableEq L]

def Holds (s : Threads T L) (t : T) (l : L) : Prop := 0 < depth l (s.done t) 0

section
variable (reentrant : L → Prop)

/-- Nobody else holds the lock, and its holder takes it again only if it is reentrant. -/
def CanAcquire (s : Threads T L) (t : T) (l : L) : Prop :=
  (∀ u, u ≠ t → ¬ Holds s u l) ∧ (Holds s t l → reentrant l)

inductive Step [DecidableEq T] : Threads T L → Threads T L → Prop
  | next {s : Threads T L} (t : T) {op : LockOp L} {rest : List (LockOp L)}
      (htodo : s.todo t = op :: rest) (hfree : ∀ l, op = .acquire l → CanAcquire reentrant s t l) :
      Step s (s.advance t [op] rest)

/-- A thread that cannot take a lock waits for its holder, which may be itself. -/
def Waits (s : Threads T L) (t u : T) : Prop :=
  ∃ l rest, s.todo t = .acquire l :: rest ∧ Holds s u l ∧ (u = t → ¬ reentrant l)

end

/-- Every operation is allowed, given how often each lock is held at that point. -/
def Checks (ok : (L → Nat) → LockOp L → Prop) (ops : List (LockOp L)) (held : L → Nat) : Prop :=
  ∀ before op after, ops = before ++ op :: after → ok (fun l => depth l before (held l)) op

/-- A program never takes a lock again that it holds, unless the lock is reentrant. -/
def Proper (reentrant : L → Prop) (ops : List (LockOp L)) : Prop :=
  Checks (fun held op => ∀ l, op = .acquire l → 0 < held l → reentrant l) ops fun _ => 0

section
variable {l : L} {ops ops' : List (LockOp L)} {n : Nat}

lemma depth_append : depth l (ops ++ ops') n = depth l ops' (depth l ops n) := by
  induction ops generalizing n with
  | nil => rfl
  | cons op rest ih =>
    cases op with
    | acquire | release => exact ih

variable {ok : (L → Nat) → LockOp L → Prop} {held : L → Nat}

lemma checks_append (h : Checks ok ops held) (h' : Checks ok ops' fun l => depth l ops (held l)) :
    Checks ok (ops ++ ops') held := by
  intro before op after hsplit
  rcases append_eq_append_iff.mp hsplit with ⟨middle, rfl, hmiddle⟩ | ⟨middle, rfl, hmiddle⟩
  · simp only [depth_append]
    exact h' middle op after hmiddle
  · cases middle with
    | nil =>
      have hfirst := h' [] op after hmiddle.symm
      simpa [depth] using hfirst
    | cons first middle =>
      obtain ⟨rfl, -⟩ := List.cons.inj hmiddle
      exact h before op middle rfl

lemma checks_nil : Checks ok [] held := by
  intro before op after hsplit
  simp at hsplit

lemma checks_cons {op : LockOp L} (h : ok held op)
    (h' : Checks ok ops fun l => depth l [op] (held l)) :
    Checks ok (op :: ops) held := by
  refine @checks_append _ _ [op] ops ok held ?_ h'
  intro before op' after hsplit
  cases before with
  | nil =>
    obtain ⟨rfl, -⟩ := List.cons.inj hsplit
    exact h
  | cons => simp at hsplit

lemma Checks.of_append (h : Checks ok (ops ++ ops') held) : Checks ok ops held := by
  intro before op after hsplit
  apply h before op (after ++ ops')
  rw [hsplit, append_assoc]
  rfl

end

section
variable [DecidableEq T] {s : Threads T L} {t u : T} {ops rest : List (LockOp L)} {l : L}

lemma holds_advance_of_ne (h : u ≠ t) : Holds (s.advance t ops rest) u l ↔ Holds s u l := by
  rw [Holds, Holds, done_advance_of_ne h]

lemma holds_advance_self :
    Holds (s.advance t ops rest) t l ↔ 0 < depth l ops (depth l (s.done t) 0) := by
  rw [Holds, done_advance_self, depth_append]

end

section
variable [DecidableEq T] {reentrant : L → Prop} {program : T → List (LockOp L)} {s s' : Threads T L}

lemma done_append_todo (h : Reachable (Step reentrant) (· = Threads.start program) s) (t : T) :
    s.done t ++ s.todo t = program t := by
  refine Reachable.invariant (fun s => s.done t ++ s.todo t = program t) ?_ ?_ h
  · intro s hs
    subst hs
    rfl
  · intro s s' hs hstep
    cases hstep with
    | next u htodo =>
      by_cases htu : t = u
      · subst htu
        rw [done_advance_self, todo_advance_self, ← hs, htodo, append_assoc]
        rfl
      · rw [done_advance_of_ne htu, todo_advance_of_ne htu]
        exact hs

variable {t : T}

lemma not_holds_advance {l : L} {u : T} {op : LockOp L} {rest : List (LockOp L)} (hne : u ≠ t)
    (hu : Holds s u l) (ht : ¬ Holds s t l)
    (hfree : ∀ l, op = .acquire l → CanAcquire reentrant s t l) :
    ¬ Holds (s.advance t [op] rest) t l := by
  intro hnow
  rw [holds_advance_self, Nat.eq_zero_of_not_pos ht] at hnow
  cases op with
  | acquire l' =>
    by_cases hl : l' = l
    · subst hl
      exact (hfree l' rfl).1 u hne hu
    · simp [depth, hl] at hnow
  | release => simp [depth] at hnow

lemma holder_unique (h : Reachable (Step reentrant) (· = Threads.start program) s) {l : L} {u : T}
    (ht : Holds s t l) (hu : Holds s u l) : t = u := by
  refine Reachable.invariant
    (fun s => ∀ t u : T, Holds s t l → Holds s u l → t = u) ?_ ?_ h t u ht hu
  · intro s hs t u ht
    subst hs
    exact absurd ht (Nat.lt_irrefl 0)
  · intro s s' hs hstep t u ht hu
    cases hstep with
    | @next v op rest htodo hfree =>
      by_contra hne
      by_cases htv : t = v
      · subst htv
        rw [holds_advance_of_ne (Ne.symm hne)] at hu
        exact not_holds_advance (Ne.symm hne) hu (fun ht' => hne (hs t u ht' hu)) hfree ht
      · rw [holds_advance_of_ne htv] at ht
        by_cases huv : u = v
        · subst huv
          exact not_holds_advance hne ht (fun hu' => hne (hs t u ht hu')) hfree hu
        · rw [holds_advance_of_ne huv] at hu
          exact hne (hs t u ht hu)

lemma run_alone {ops rest : List (LockOp L)} (htodo : s.todo t = ops ++ rest)
    (hproper : Proper reentrant (s.done t ++ ops)) (hothers : ∀ u, u ≠ t → ∀ l, ¬ Holds s u l) :
    ReflTransGen (Step reentrant) s (s.advance t ops rest) := by
  induction ops generalizing s with
  | nil =>
    have hsame : s.advance t [] rest = s := by
      unfold Threads.advance
      rw [append_nil, update_eq_self, ← nil_append rest, ← htodo, update_eq_self]
    rw [hsame]
  | cons op ops ih =>
    have hfirst : Step reentrant s (s.advance t [op] (ops ++ rest)) := by
      refine .next t htodo fun l hop => ⟨fun u hu => hothers u hu l, fun hheld => ?_⟩
      subst hop
      exact hproper (s.done t) (.acquire l) ops rfl l rfl hheld
    have hrest := @ih (s.advance t [op] (ops ++ rest)) ?_ ?_ ?_
    · have hjoin : (s.advance t [op] (ops ++ rest)).advance t ops rest =
          s.advance t (op :: ops) rest := by
        unfold Threads.advance
        simp
      rw [hjoin] at hrest
      exact .head hfirst hrest
    · exact todo_advance_self
    · rw [done_advance_self, append_assoc]
      exact hproper
    · intro u hu l
      rw [holds_advance_of_ne hu]
      exact hothers u hu l

end

end Millennium.Locks
