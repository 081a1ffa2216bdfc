import Mathlib.Data.List.Nodup
import Mathlib.Logic.Function.Iterate

/-!
# Callbacks for changes of the configuration

`dispatch_config_change` calls the callbacks for a key in an unordered map. What a callback erases
or inserts must not take away the iterator that the loop stands on.
-/

namespace Millennium.LuaHost

open List

/-- A callback by its number, with its key; the empty key stands for all. -/
abbrev ConfigCallback := Nat × String

/-- What a callback does to the map. A new entry comes ahead of the iterator or not, and the map may
rehash. -/
inductive CallbackOp where
  | unsubscribe (id : Nat)
  | onChange (key : String) (place : Option Nat) (rehashes : Bool)

/-- The loop: what the iterator has not reached, whether it is valid, what was called and
unsubscribed. -/
structure Dispatch where
  ahead : List ConfigCallback
  nextId : Nat
  valid : Bool := true
  called : List Nat := []
  removed : List Nat := []

/-- `config_on_change` and the function it returns, called while the iterator is on `current`. -/
def Dispatch.perform (current : Nat) (s : Dispatch) : CallbackOp → Dispatch
  | .unsubscribe id =>
    { s with
      ahead := s.ahead.filter (·.1 ≠ id)
      valid := s.valid && id ≠ current
      removed := id :: s.removed }
  | .onChange key place rehashes =>
    { s with
      ahead := place.elim s.ahead fun i => s.ahead.take i ++ (s.nextId, key) :: s.ahead.drop i
      nextId := s.nextId + 1
      valid := s.valid && !rehashes }

def ConfigCallback.isFor (key : String) (cb : ConfigCallback) : Bool := cb.2 = "" || cb.2 = key

/-- A turn of the loop, where each callback does what its script says. -/
def Dispatch.turn (key : String) (script : Nat → List CallbackOp) (s : Dispatch) : Dispatch :=
  if s.valid then
    match s.ahead with
    | [] => s
    | cb :: rest =>
      if ConfigCallback.isFor key cb then
        (script cb.1).foldl (Dispatch.perform cb.1)
          { s with ahead := rest, called := cb.1 :: s.called }
      else { s with ahead := rest }
  else s

structure Callbacks where
  entries : List ConfigCallback
  nextId : Nat
  ids_nodup : (entries.map Prod.fst).Nodup
  ids_lt : ∀ cb ∈ entries, cb.1 < nextId

section
variable (callbacks : Callbacks) (key : String) (script : Nat → List CallbackOp)

def dispatchConfigChange (turns : Nat) : Dispatch :=
  (Dispatch.turn key script)^[turns] { ahead := callbacks.entries, nextId := callbacks.nextId }

/-- The iterator stays valid, and every callback for the key was called once, or unsubscribed
before. -/
def DispatchesRight (turns : Nat) : Prop :=
  let s := dispatchConfigChange callbacks key script turns
  s.valid = true ∧ (s.ahead = [] → ∀ cb ∈ callbacks.entries, cb.isFor key →
    s.called.count cb.1 = 1 ∨ s.called.count cb.1 = 0 ∧ cb.1 ∈ s.removed)

/-- The callback whose turn it is neither unsubscribes itself nor makes the map rehash. -/
def Dispatch.Harmless (s : Dispatch) : Prop :=
  ∀ cb ∈ s.ahead.head?, cb.isFor key → ∀ op ∈ script cb.1,
    op ≠ .unsubscribe cb.1 ∧ ∀ k place, op ≠ .onChange k place true

end

namespace Dispatch
variable {key : String} {script : Nat → List CallbackOp} {s : Dispatch} {current : Nat}
  {entries : List ConfigCallback}

lemma valid_perform {op : CallbackOp} : (s.perform current op).valid = true ↔
    s.valid = true ∧ op ≠ .unsubscribe current ∧ ∀ k place, op ≠ .onChange k place true := by
  cases op with
  | unsubscribe id => simp [perform]
  | onChange k place rehashes => cases rehashes <;> simp [perform]

lemma valid_foldl {ops : List CallbackOp} : (ops.foldl (perform current) s).valid = true ↔
    s.valid = true ∧ ∀ op ∈ ops, op ≠ .unsubscribe current ∧
    ∀ k place, op ≠ .onChange k place true := by
  induction ops generalizing s with
  | nil => simp
  | cons op ops ih => rw [foldl_cons, ih, valid_perform, forall_mem_cons, and_assoc]

lemma valid_turn : (s.turn key script).valid = true ↔ s.valid = true ∧ s.Harmless key script := by
  rw [turn]
  split_ifs with hvalid
  · cases hahead : s.ahead with
    | nil => simp [Harmless, hahead]
    | cons cb rest =>
      by_cases hkey : cb.isFor key
      · simp [Harmless, hahead, hkey, valid_foldl]
      · simp [Harmless, hahead, hkey]
  · simp [hvalid]

def ids (s : Dispatch) : List Nat := s.ahead.map Prod.fst ++ s.called

structure Follows (entries : List ConfigCallback) (key : String) (s : Dispatch) : Prop where
  nodup : s.ids.Nodup
  lt : ∀ id ∈ s.ids, id < s.nextId
  once : ∀ cb ∈ entries, cb.isFor key → cb ∈ s.ahead ∨ cb.1 ∈ s.called ∨ cb.1 ∈ s.removed

lemma Follows.perform (h : s.Follows entries key) (op : CallbackOp) :
    (s.perform current op).Follows entries key := by
  have hlt (id : Nat) (hid : id ∈ s.ids) : id < s.nextId + 1 := Nat.lt_succ_of_lt (h.lt id hid)
  cases op with
  | unsubscribe id =>
    have hsub : (s.perform current (.unsubscribe id)).ids.Sublist s.ids :=
      (filter_sublist.map _).append_right _
    refine ⟨h.nodup.sublist hsub, fun i hi => h.lt i (hsub.subset hi), fun cb hcb hkey => ?_⟩
    rcases h.once cb hcb hkey with hahead | hcalled | hremoved
    · by_cases hid : cb.1 = id
      · exact .inr (.inr (hid ▸ mem_cons_self))
      · exact .inl (mem_filter.mpr ⟨hahead, decide_eq_true hid⟩)
    · exact .inr (.inl hcalled)
    · exact .inr (.inr (mem_cons_of_mem _ hremoved))
  | onChange k place rehashes =>
    cases place with
    | none => exact ⟨h.nodup, hlt, h.once⟩
    | some i =>
      have hahead : (s.ahead.take i ++ (s.nextId, k) :: s.ahead.drop i).Perm
          ((s.nextId, k) :: s.ahead) := perm_middle.trans (by rw [take_append_drop])
      have hids : (s.perform current (.onChange k (some i) rehashes)).ids.Perm
          (s.nextId :: s.ids) := (hahead.map _).append_right _
      refine ⟨hids.nodup_iff.mpr (nodup_cons.mpr ⟨fun hid => Nat.lt_irrefl _ (h.lt _ hid), h.nodup⟩),
        fun id hid => ?_, fun cb hcb hkey => ?_⟩
      · rcases mem_cons.mp (hids.mem_iff.mp hid) with rfl | hid
        · exact Nat.lt_succ_self _
        · exact hlt id hid
      · exact (h.once cb hcb hkey).imp_left fun hmem =>
          hahead.mem_iff.mpr (mem_cons_of_mem _ hmem)

lemma Follows.turn (h : s.Follows entries key) : (s.turn key script).Follows entries key := by
  rw [Dispatch.turn]
  split_ifs
  · cases hahead : s.ahead with
    | nil => exact h
    | cons cb rest =>
      obtain ⟨hnodup, hlt, honce⟩ := h
      rw [ids, hahead] at hnodup hlt
      rw [hahead] at honce
      dsimp only
      split_ifs with hkey
      · -- the callback moves from those ahead to those that were called
        refine foldlRecOn (script cb.1) (Dispatch.perform cb.1) ?_ fun _ h op _ => h.perform op
        refine ⟨perm_middle.nodup_iff.mpr hnodup, fun id hid => hlt id (perm_middle.mem_iff.mp hid),
          fun e he hfor => ?_⟩
        rcases honce e he hfor with hmem | hcalled | hremoved
        · rcases mem_cons.mp hmem with rfl | hmem
          · exact .inr (.inl mem_cons_self)
          · exact .inl hmem
        · exact .inr (.inl (mem_cons_of_mem _ hcalled))
        · exact .inr (.inr hremoved)
      · refine ⟨hnodup.of_cons, fun id hid => hlt id (mem_cons_of_mem _ hid), fun e he hfor => ?_⟩
        refine (honce e he hfor).imp_left fun hmem => (mem_cons.mp hmem).resolve_left ?_
        exact fun hsame => hkey (hsame ▸ hfor)
  · exact h

end Dispatch

/-- The dispatch is right as far as it has come exactly when no callback whose turn it was
unsubscribed itself or made the map rehash. -/
theorem dispatchesRight_iff (callbacks : Callbacks) (key : String)
    (script : Nat → List CallbackOp) (turns : Nat) :
    DispatchesRight callbacks key script turns ↔
      ∀ i < turns, (dispatchConfigChange callbacks key script i).Harmless key script := by
  have hvalid : (dispatchConfigChange callbacks key script turns).valid = true ↔
      ∀ i < turns, (dispatchConfigChange callbacks key script i).Harmless key script := by
    induction turns with
    | zero => simp [dispatchConfigChange]
    | succ n ih =>
      rw [Nat.forall_lt_succ_right, ← ih, ← Dispatch.valid_turn, dispatchConfigChange,
        Function.iterate_succ_apply']
      rfl
  have hfollows : (dispatchConfigChange callbacks key script turns).Follows
      callbacks.entries key := by
    refine Function.Iterate.rec (fun s : Dispatch => s.Follows callbacks.entries key) ?_
      (fun s h => h.turn) turns
    refine ⟨?_, fun id hid => ?_, fun cb hcb _ => .inl hcb⟩
    · simpa [Dispatch.ids] using callbacks.ids_nodup
    · obtain ⟨cb, hcb, rfl⟩ : ∃ cb ∈ callbacks.entries, cb.1 = id := by
        simpa [Dispatch.ids] using hid
      exact callbacks.ids_lt cb hcb
  rw [← hvalid]
  refine ⟨And.left, fun h => ⟨h, fun hover cb hcb hkey => ?_⟩⟩
  by_cases hcalled : cb.1 ∈ (dispatchConfigChange callbacks key script turns).called
  · exact .inl (count_eq_one_of_mem hfollows.nodup.of_append_right hcalled)
  · refine .inr ⟨count_eq_zero.mpr hcalled, ?_⟩
    have honce := hfollows.once cb hcb hkey
    rw [hover] at honce
    exact (honce.resolve_left not_mem_nil).resolve_left hcalled

/-- One callback, which unsubscribes itself: the loop advances an iterator that is erased. -/
theorem unsubscribing_callback_not_right :
    ¬ DispatchesRight ⟨[(0, "")], 1, by decide, by decide⟩ "a" (fun id => [.unsubscribe id]) 1 := by
  rintro ⟨h, -⟩
  cases h

end Millennium.LuaHost
