import Mathlib.Data.List.AList

/-!
# Maps of pending things

A map from ids to what waits under them: how often a value is in it, and how that
changes when an entry is put in or taken out.
-/

namespace Millennium.PendingMap

open List AList

variable {κ ν : Type*}

def values (m : AList (fun _ : κ => ν)) : List ν := m.entries.map Sigma.snd

@[simp] lemma values_empty : values (∅ : AList (fun _ : κ => ν)) = [] := rfl

variable [DecidableEq κ] {m : AList (fun _ : κ => ν)} {k : κ} {v : ν}

lemma mem_values : v ∈ values m ↔ ∃ k, m.lookup k = some v := by
  constructor
  · intro h
    obtain ⟨⟨k, v'⟩, hmem, heq⟩ := mem_map.mp h
    cases heq
    exact ⟨k, mem_lookup_iff.mpr hmem⟩
  · intro h
    obtain ⟨k, hk⟩ := h
    exact mem_map.mpr ⟨⟨k, v⟩, mem_lookup_iff.mp hk, rfl⟩

lemma perm_erase_of_lookup (h : m.lookup k = some v) :
    m.entries.Perm (⟨k, v⟩ :: (m.erase k).entries) := by
  have hmem : k ∈ m := lookup_isSome.mp (by simp [h])
  obtain ⟨v', front, back, _, hents, herase⟩ := exists_of_kerase hmem
  have hsame : v' = v := by
    have hin : (⟨k, v'⟩ : Σ _ : κ, ν) ∈ m.entries := by simp [hents]
    have hlookup := mem_lookup_iff.mpr hin
    simpa [h] using hlookup.symm
  subst hsame
  have herase' : (m.erase k).entries = front ++ back := herase
  rw [herase', hents]
  exact perm_middle

lemma values_erase_of_lookup (h : m.lookup k = some v) :
    (values m).Perm (v :: values (m.erase k)) := by
  have hmap := (perm_erase_of_lookup h).map (fun e => e.snd)
  exact hmap

lemma erase_of_lookup_none (h : m.lookup k = none) : m.erase k = m := by
  apply ext
  exact kerase_of_notMem_keys (lookup_eq_none.mp h)

lemma lookup_of_erase {k' : κ} (h : (m.erase k').lookup k = some v) :
    k ≠ k' ∧ m.lookup k = some v := by
  by_cases hk : k = k'
  · subst hk
    simp at h
  · exact ⟨hk, by simpa [lookup_erase_ne hk] using h⟩

lemma values_insert : values (m.insert k v) = v :: values (m.erase k) := rfl

section
variable [DecidableEq ν] (w : ν)

lemma count_values_erase_le : (values (m.erase k)).count w ≤ (values m).count w := by
  cases h : m.lookup k with
  | none => rw [erase_of_lookup_none h]
  | some v =>
    rw [(values_erase_of_lookup h).count_eq, count_cons]
    exact Nat.le_add_right _ _

lemma count_values_insert_le :
    (values (m.insert k v)).count w ≤ (values m).count w + if v = w then 1 else 0 := by
  rw [values_insert, count_cons]
  simpa using count_values_erase_le w

end

end Millennium.PendingMap
