import Mathlib.Data.List.Basic
import Mathlib.Tactic.Ring

/-!
# Byte strings, little-endian words and 64-bit sizes

Indices and lengths are natural numbers; the two operations of 64-bit size arithmetic reduce modulo
`2^64`, so that every wraparound is visible.
-/

namespace Millennium.Bytes

open List Nat

abbrev Octets := List UInt8

/-- The octet at an index, zero past the end. -/
def byteAt (l : Octets) (i : Nat) : UInt8 := l.getD i 0

/-- The octets of `l` from `off` on, at most `len` of them. -/
def slice (l : Octets) (off len : Nat) : Octets := (l.drop off).take len

lemma slice_length (l : Octets) (off len : Nat) :
    (slice l off len).length = min len (l.length - off) := by
  simp [slice]

variable {l a b : Octets} {off len i : Nat}

lemma slice_length_of_le (h : off + len ≤ l.length) : (slice l off len).length = len := by
  rw [slice_length]
  omega

lemma slice_middle (a b c : Octets) : slice (a ++ b ++ c) a.length b.length = b := by
  simp [slice]

lemma byteAt_slice (h : i < len) : byteAt (slice l off len) i = byteAt l (off + i) := by
  simp [byteAt, slice, h]

lemma slice_slice {off' len' : Nat} (h : off' + len' ≤ len) :
    slice (slice l off len) off' len' = slice l (off + off') len' := by
  simp only [slice, drop_take, drop_drop, take_take]
  congr 1
  omega

lemma slice_take {n : Nat} (h : off + len ≤ n) : slice (l.take n) off len = slice l off len := by
  simp only [slice, drop_take, take_take]
  congr 1
  omega

lemma byteAt_take {n : Nat} (h : i < n) : byteAt (l.take n) i = byteAt l i := by
  simp [byteAt, h]

lemma byteAt_drop (p : Octets) (k i : Nat) : byteAt (p.drop k) i = byteAt p (k + i) := by
  simp [byteAt]

lemma byteAt_append_left (h : i < a.length) : byteAt (a ++ b) i = byteAt a i := by
  simp [byteAt, getElem?_append_left h]

lemma byteAt_append_right (a b : Octets) (i : Nat) :
    byteAt (a ++ b) (a.length + i) = byteAt b i := by
  simp [byteAt, getElem?_append_right]

lemma slice_append_left (h : off + len ≤ a.length) : slice (a ++ b) off len = slice a off len := by
  rw [← slice_take (l := a ++ b) h, take_left]

lemma ext_byteAt (hl : a.length = b.length) (h : ∀ i < a.length, byteAt a i = byteAt b i) :
    a = b := by
  apply ext_getElem hl
  intro i ha hb
  have hi := h i ha
  simpa [byteAt, getElem?_eq_getElem ha, getElem?_eq_getElem hb] using hi

lemma slice_congr (ha : off + len ≤ a.length) (hb : off + len ≤ b.length)
    (h : ∀ i, off ≤ i → i < off + len → byteAt a i = byteAt b i) :
    slice a off len = slice b off len := by
  apply ext_byteAt
  · rw [slice_length_of_le ha, slice_length_of_le hb]
  · intro i hi
    rw [slice_length_of_le ha] at hi
    rw [byteAt_slice hi, byteAt_slice hi]
    exact h (off + i) (by omega) (by omega)

def overwrite (l : Octets) (off : Nat) (bytes : Octets) : Octets :=
  l.take off ++ (bytes ++ l.drop (off + bytes.length))

section
variable {l bytes : Octets} {off : Nat}

section
variable (h : off + bytes.length ≤ l.length)
include h

lemma overwrite_length : (overwrite l off bytes).length = l.length := by
  simp only [overwrite, length_append, length_take, length_drop]
  omega

variable {i : Nat}

lemma byteAt_overwrite_before (hi : i < off) : byteAt (overwrite l off bytes) i = byteAt l i := by
  rw [overwrite, byteAt_append_left (by rw [length_take]; omega), byteAt_take hi]

lemma byteAt_overwrite_inside (hi : i < bytes.length) :
    byteAt (overwrite l off bytes) (off + i) = byteAt bytes i := by
  have hoff : (l.take off).length = off := length_take_of_le (by omega)
  calc
    byteAt (overwrite l off bytes) (off + i) =
        byteAt (l.take off ++ (bytes ++ l.drop (off + bytes.length)))
          ((l.take off).length + i) := by rw [hoff, overwrite]
    _ = byteAt bytes i := by rw [byteAt_append_right, byteAt_append_left hi]

lemma byteAt_overwrite_after (i : Nat) : byteAt (overwrite l off bytes) (off + bytes.length + i) =
    byteAt l (off + bytes.length + i) := by
  have hoff : (l.take off).length = off := length_take_of_le (by omega)
  calc
    byteAt (overwrite l off bytes) (off + bytes.length + i) =
        byteAt (l.take off ++ (bytes ++ l.drop (off + bytes.length)))
          ((l.take off).length + (bytes.length + i)) := by rw [hoff, overwrite, Nat.add_assoc]
    _ = byteAt l (off + bytes.length + i) := by
        rw [byteAt_append_right, byteAt_append_right, byteAt_drop]

lemma byteAt_overwrite_of_agree {n : Nat}
    (hagree : ∀ i < bytes.length, off + i < n → byteAt bytes i = byteAt l (off + i)) (hi : i < n) :
    byteAt (overwrite l off bytes) i = byteAt l i := by
  rcases Nat.lt_or_ge i off with hlt | hge
  · exact byteAt_overwrite_before h hlt
  · obtain ⟨j, rfl⟩ := Nat.exists_eq_add_of_le hge
    rcases Nat.lt_or_ge j bytes.length with hj | hj
    · rw [byteAt_overwrite_inside h hj, hagree j hj hi]
    · obtain ⟨k, rfl⟩ := Nat.exists_eq_add_of_le hj
      rw [← Nat.add_assoc, byteAt_overwrite_after h]

end

lemma byteAt_take_congr {a c : Octets} (n : Nat) (h : byteAt a i = byteAt c i) :
    byteAt (a.take n) i = byteAt (c.take n) i := by
  rcases Nat.lt_or_ge i n with hlt | hge
  · rw [byteAt_take hlt, byteAt_take hlt, h]
  · simp [byteAt, Nat.not_lt.mpr hge]

end

lemma byteAt_set_ne {x : UInt8} {j : Nat} (h : i ≠ j) : byteAt (l.set i x) j = byteAt l j := by
  simp [byteAt, getElem?_set_ne h]

lemma byteAt_set_self {x : UInt8} (h : i < l.length) : byteAt (l.set i x) i = x := by
  simp [byteAt, h]

/-- The `width` low octets of a number, least significant first. -/
def leBytes : Nat → Nat → Octets
  | 0, _ => []
  | width + 1, n => UInt8.ofNat n :: leBytes width (n / 256)

/-- The number written by octets, least significant first. -/
def leValue : Octets → Nat
  | [] => 0
  | b :: rest => b.toNat + 256 * leValue rest

@[simp] lemma leBytes_length (width n : Nat) : (leBytes width n).length = width := by
  induction width generalizing n with
  | zero => rfl
  | succ width ih => simp [leBytes, ih]

lemma or_field {x k : Nat} (y : Nat) (hx : x < 2 ^ k) : x ||| y * 2 ^ k = x + y * 2 ^ k := by
  rw [Nat.or_comm, ← shiftLeft_eq, ← shiftLeft_add_eq_or_of_lt hx, Nat.add_comm]

lemma octet_shift_mod (b : UInt8) {k w : Nat} (h : k + 8 ≤ w) :
    b.toNat <<< k % 2 ^ w = b.toNat * 2 ^ k := by
  rw [shiftLeft_eq]
  apply mod_eq_of_lt
  calc
    b.toNat * 2 ^ k < 2 ^ 8 * 2 ^ k := Nat.mul_lt_mul_of_pos_right b.toNat_lt (Nat.two_pow_pos k)
    _ = 2 ^ (k + 8) := by ring
    _ ≤ 2 ^ w := Nat.pow_le_pow_right (by decide) h

def addU64 (a b : Nat) : Nat := (a + b) % 2 ^ 64

/-- Subtraction of two 64-bit sizes, which wraps when the result is negative. -/
def subU64 (a b : Nat) : Nat := (a + 2 ^ 64 - b) % 2 ^ 64

lemma addU64_of_lt {a b : Nat} (h : a + b < 2 ^ 64) : addU64 a b = a + b :=
  mod_eq_of_lt h

lemma addU64_lt (a b : Nat) : addU64 a b < 2 ^ 64 := mod_lt _ (by decide)

end Millennium.Bytes
