import Mathlib.Data.List.Nodup

/-!
# Tokens that are issued, taken and spent

A carrier with empty hands takes the whole pool of issued tokens and spends them one at a time.
However the carriers take turns, no token is spent twice and none is lost.
-/

namespace Millennium.Tokens

open List

variable {ι : Type*}

structure Ledger (ι : Type*) where
  pool : List Nat
  carried : ι → List Nat
  spent : List Nat
  issued : Nat

namespace Ledger

def empty : Ledger ι := ⟨[], fun _ => [], [], 0⟩

def issue (l : Ledger ι) : Ledger ι :=
  { l with pool := l.pool ++ [l.issued], issued := l.issued + 1 }

variable [DecidableEq ι]

def take (l : Ledger ι) (i : ι) : Ledger ι :=
  { l with pool := [], carried := Function.update l.carried i l.pool }

def spend (l : Ledger ι) (i : ι) (c : Nat) (rest : List Nat) : Ledger ι :=
  { l with carried := Function.update l.carried i rest, spent := c :: l.spent }

end Ledger

/-- Every token that was issued is in one place. -/
structure Sound (l : Ledger ι) : Prop where
  pool_lt : ∀ c ∈ l.pool, c < l.issued
  carried_lt : ∀ i, ∀ c ∈ l.carried i, c < l.issued
  spent_lt : ∀ c ∈ l.spent, c < l.issued
  pool_nodup : l.pool.Nodup
  carried_nodup : ∀ i, (l.carried i).Nodup
  spent_nodup : l.spent.Nodup
  pool_carried : ∀ c ∈ l.pool, ∀ i, c ∉ l.carried i
  pool_spent : ∀ c ∈ l.pool, c ∉ l.spent
  carried_spent : ∀ i, ∀ c ∈ l.carried i, c ∉ l.spent
  alone : ∀ i j c, c ∈ l.carried i → c ∈ l.carried j → i = j
  kept : ∀ c < l.issued, c ∈ l.pool ∨ (∃ i, c ∈ l.carried i) ∨ c ∈ l.spent

variable {l : Ledger ι}

lemma sound_empty : Sound (Ledger.empty : Ledger ι) where
  pool_lt := by simp [Ledger.empty]
  carried_lt := by simp [Ledger.empty]
  spent_lt := by simp [Ledger.empty]
  pool_nodup := nodup_nil
  carried_nodup _ := nodup_nil
  spent_nodup := nodup_nil
  pool_carried := by simp [Ledger.empty]
  pool_spent := by simp [Ledger.empty]
  carried_spent := by simp [Ledger.empty]
  alone := by simp [Ledger.empty]
  kept := by simp [Ledger.empty]

lemma Sound.issue (h : Sound l) : Sound l.issue where
  pool_lt := by
    intro c hc
    rcases mem_append.mp hc with hc | hc
    · exact Nat.lt_succ_of_lt (h.pool_lt c hc)
    · rw [mem_singleton.mp hc]
      exact Nat.lt_succ_self _
  carried_lt := fun i c hc => Nat.lt_succ_of_lt (h.carried_lt i c hc)
  spent_lt := fun c hc => Nat.lt_succ_of_lt (h.spent_lt c hc)
  pool_nodup := by
    refine nodup_append.mpr ⟨h.pool_nodup, nodup_singleton _, ?_⟩
    intro c hc d hd
    rw [mem_singleton.mp hd]
    exact Nat.ne_of_lt (h.pool_lt c hc)
  carried_nodup := h.carried_nodup
  spent_nodup := h.spent_nodup
  pool_carried := by
    intro c hc i hcarried
    rcases mem_append.mp hc with hc | hc
    · exact h.pool_carried c hc i hcarried
    · rw [mem_singleton.mp hc] at hcarried
      exact Nat.lt_irrefl _ (h.carried_lt i _ hcarried)
  pool_spent := by
    intro c hc hspent
    rcases mem_append.mp hc with hc | hc
    · exact h.pool_spent c hc hspent
    · rw [mem_singleton.mp hc] at hspent
      exact Nat.lt_irrefl _ (h.spent_lt _ hspent)
  carried_spent := h.carried_spent
  alone := h.alone
  kept := by
    intro c hc
    rcases Nat.lt_succ_iff_lt_or_eq.mp hc with hlt | rfl
    · exact (h.kept c hlt).imp_left fun hpool => mem_append_left _ hpool
    · exact .inl (mem_append_right _ (mem_singleton_self _))

section
variable [DecidableEq ι] {i : ι}

lemma mem_update_iff {carried : ι → List Nat} {new : List Nat} {j : ι} {c : Nat} :
    c ∈ Function.update carried i new j ↔ (j = i ∧ c ∈ new) ∨ (j ≠ i ∧ c ∈ carried j) := by
  by_cases hj : j = i
  · subst hj
    simp
  · simp [hj]

lemma Sound.take (h : Sound l) (hempty : l.carried i = []) : Sound (l.take i) where
  pool_lt := by simp [Ledger.take]
  carried_lt := by
    intro j c hc
    rcases mem_update_iff.mp hc with ⟨-, hpool⟩ | ⟨-, hold⟩
    · exact h.pool_lt c hpool
    · exact h.carried_lt j c hold
  spent_lt := h.spent_lt
  pool_nodup := nodup_nil
  carried_nodup := by
    intro j
    by_cases hj : j = i
    · subst hj
      simpa [Ledger.take] using h.pool_nodup
    · simpa [Ledger.take, Function.update_of_ne hj] using h.carried_nodup j
  spent_nodup := h.spent_nodup
  pool_carried := by simp [Ledger.take]
  pool_spent := by simp [Ledger.take]
  carried_spent := by
    intro j c hc
    rcases mem_update_iff.mp hc with ⟨-, hpool⟩ | ⟨-, hold⟩
    · exact h.pool_spent c hpool
    · exact h.carried_spent j c hold
  alone := by
    intro j k c hj hk
    rcases mem_update_iff.mp hj with ⟨rfl, hpool⟩ | ⟨-, hold⟩
    · rcases mem_update_iff.mp hk with ⟨rfl, -⟩ | ⟨-, hold⟩
      · rfl
      · exact (h.pool_carried c hpool k hold).elim
    · rcases mem_update_iff.mp hk with ⟨rfl, hpool⟩ | ⟨-, hold'⟩
      · exact (h.pool_carried c hpool j hold).elim
      · exact h.alone j k c hold hold'
  kept := by
    intro c hc
    rcases h.kept c hc with hpool | ⟨j, hj⟩ | hspent
    · exact .inr (.inl ⟨i, mem_update_iff.mpr (.inl ⟨rfl, hpool⟩)⟩)
    · have hne : j ≠ i := by
        rintro rfl
        simp [hempty] at hj
      exact .inr (.inl ⟨j, mem_update_iff.mpr (.inr ⟨hne, hj⟩)⟩)
    · exact .inr (.inr hspent)

lemma Sound.spend (h : Sound l) {c : Nat} {rest : List Nat} (hcarried : l.carried i = c :: rest) :
    Sound (l.spend i c rest) := by
  have hc : c ∈ l.carried i := by rw [hcarried]; exact mem_cons_self
  have hrest : ∀ d ∈ rest, d ∈ l.carried i := fun d hd => by
    rw [hcarried]
    exact mem_cons_of_mem c hd
  have hnodup := h.carried_nodup i
  rw [hcarried, nodup_cons] at hnodup
  -- what is carried afterwards was carried before, by the same carrier
  have hold : ∀ j d, d ∈ (l.spend i c rest).carried j → d ∈ l.carried j ∧ (j = i → d ∈ rest) := by
    intro j d hd
    rcases mem_update_iff.mp hd with ⟨rfl, hmem⟩ | ⟨hne, hmem⟩
    · exact ⟨hrest d hmem, fun _ => hmem⟩
    · exact ⟨hmem, fun heq => (hne heq).elim⟩
  refine ⟨h.pool_lt, fun j d hd => h.carried_lt j d (hold j d hd).1, ?_, h.pool_nodup, ?_, ?_,
    fun d hd j hj => h.pool_carried d hd j (hold j d hj).1, ?_, ?_,
    fun j k d hj hk => h.alone j k d (hold j d hj).1 (hold k d hk).1, ?_⟩
  · intro d hd
    rcases mem_cons.mp hd with rfl | hd
    · exact h.carried_lt i d hc
    · exact h.spent_lt d hd
  · intro j
    by_cases hj : j = i
    · subst hj
      simpa [Ledger.spend] using hnodup.2
    · simpa [Ledger.spend, Function.update_of_ne hj] using h.carried_nodup j
  · exact nodup_cons.mpr ⟨h.carried_spent i c hc, h.spent_nodup⟩
  · intro d hd hspent
    rcases mem_cons.mp hspent with rfl | hspent
    · exact h.pool_carried d hd i hc
    · exact h.pool_spent d hd hspent
  · intro j d hd hspent
    rcases mem_cons.mp hspent with rfl | hspent
    · obtain rfl := h.alone j i d (hold j d hd).1 hc
      exact hnodup.1 ((hold j d hd).2 rfl)
    · exact h.carried_spent j d (hold j d hd).1 hspent
  · intro d hd
    rcases h.kept d hd with hpool | ⟨j, hj⟩ | hspent
    · exact .inl hpool
    · by_cases hji : j = i
      · subst hji
        rw [hcarried] at hj
        rcases mem_cons.mp hj with rfl | hj
        · exact .inr (.inr mem_cons_self)
        · exact .inr (.inl ⟨j, mem_update_iff.mpr (.inl ⟨rfl, hj⟩)⟩)
      · exact .inr (.inl ⟨j, mem_update_iff.mpr (.inr ⟨hji, hj⟩)⟩)
    · exact .inr (.inr (mem_cons_of_mem c hspent))

end

lemma Sound.all_spent (h : Sound l) (hpool : l.pool = []) (hcarried : ∀ i, l.carried i = [])
    {c : Nat} (hc : c < l.issued) : c ∈ l.spent := by
  rcases h.kept c hc with hmem | ⟨i, hmem⟩ | hmem
  · simp [hpool] at hmem
  · simp [hcarried] at hmem
  · exact hmem

end Millennium.Tokens
