import Millennium.Lib.Bytes

/-!
# Records one after another

A record has a header of a fixed size, which tells how long the body is. Where the records begin
is fixed by the octets alone, also where these end before the records do: what is missing is read
as zero.
-/

namespace Millennium.Records

open Bytes

structure Framing where
  header : ℕ
  body : Octets → ℕ

namespace Framing
variable (f : Framing) (data : Octets)

def next (pos : ℕ) : ℕ := pos + f.header + f.body (data.drop pos)

def start (base i : ℕ) : ℕ := (f.next data)^[i] base

lemma start_succ (base i : ℕ) : f.start data base (i + 1) = f.next data (f.start data base i) :=
  Function.iterate_succ_apply' _ i base

lemma header_le_next (pos : ℕ) : pos + f.header ≤ f.next data pos := Nat.le_add_right _ _

lemma start_le_start (base : ℕ) {i j : ℕ} (h : i ≤ j) :
    f.start data base i ≤ f.start data base j := by
  have hmono : Monotone (f.start data base) := by
    apply monotone_nat_of_le_succ
    intro i
    rw [start_succ]
    exact (Nat.le_add_right _ _).trans (f.header_le_next data _)
  exact hmono h

lemma forall_start_le_iff {base n limit : ℕ} (hbase : base ≤ limit) :
    (∀ i < n, f.start data base (i + 1) ≤ limit) ↔ f.start data base n ≤ limit := by
  constructor
  · intro h
    cases n with
    | zero => exact hbase
    | succ n => exact h n (Nat.lt_succ_self n)
  · intro h i hi
    exact (f.start_le_start data base hi).trans h

lemma forall_header_le_iff {base n limit : ℕ} :
    (∀ i < n + 1, f.start data base i + f.header ≤ limit) ↔
    f.start data base n + f.header ≤ limit := by
  constructor
  · intro h
    exact h n (Nat.lt_succ_self n)
  · intro h i hi
    have hle := f.start_le_start data base (Nat.le_of_lt_succ hi)
    omega

end Framing

end Millennium.Records
