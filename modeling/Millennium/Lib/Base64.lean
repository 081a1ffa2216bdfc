import Millennium.Lib.Json

/-!
# Base64

Three octets are four characters of six bits; the last one or two octets are filled up with
`=`. Decoding undoes encoding, and what is encoded has no other characters in it.
-/

namespace Millennium.Base64

open Bytes List

def alphabet : Octets :=
  ascii "ABCDEFGHIJKLMNOPQRSTUVWXYZabcdefghijklmnopqrstuvwxyz0123456789+/"

def charOf (bits : Nat) : UInt8 := alphabet.getD bits 0

def bitsOf (c : UInt8) : Option Nat := alphabet.idxOf? c

def pad : UInt8 := 0x3D

def encode : Octets → Octets
  | [] => []
  | [a] => [charOf (a.toNat / 4), charOf (a.toNat % 4 * 16), pad, pad]
  | [a, b] =>
    [charOf (a.toNat / 4), charOf (a.toNat % 4 * 16 + b.toNat / 16), charOf (b.toNat % 16 * 4), pad]
  | a :: b :: c :: rest =>
    charOf (a.toNat / 4) :: charOf (a.toNat % 4 * 16 + b.toNat / 16) ::
      charOf (b.toNat % 16 * 4 + c.toNat / 64) :: charOf (c.toNat % 64) :: encode rest

def firstOctet (x y : Nat) : UInt8 := UInt8.ofNat (x * 4 + y / 16)

def secondOctet (y z : Nat) : UInt8 := UInt8.ofNat (y % 16 * 16 + z / 4)

def thirdOctet (z w : Nat) : UInt8 := UInt8.ofNat (z % 4 * 64 + w)

def decodeTwo (a b : UInt8) : Option Octets := do
  let x ← bitsOf a
  let y ← bitsOf b
  return [firstOctet x y]

def decodeThree (a b c : UInt8) : Option Octets := do
  let x ← bitsOf a
  let y ← bitsOf b
  let z ← bitsOf c
  return [firstOctet x y, secondOctet y z]

def decodeFour (a b c d : UInt8) : Option Octets := do
  let x ← bitsOf a
  let y ← bitsOf b
  let z ← bitsOf c
  let w ← bitsOf d
  return [firstOctet x y, secondOctet y z, thirdOctet z w]

/-- The octets of characters. The last group is filled up, or ends early. -/
def decode : Octets → Option Octets
  | [] => some []
  | [_] => none
  | [a, b] => decodeTwo a b
  | [a, b, c] => decodeThree a b c
  | a :: b :: c :: d :: rest =>
    if rest = [] ∧ d = pad then if c = pad then decodeTwo a b else decodeThree a b c
    else do
      let group ← decodeFour a b c d
      let others ← decode rest
      return group ++ others

lemma bitsOf_charOf {bits : Nat} (h : bits < 64) : bitsOf (charOf bits) = some bits := by
  have hall : ∀ i : Fin 64, bitsOf (charOf i) = some i.val := by decide +kernel
  exact hall ⟨bits, h⟩

lemma charOf_mem {bits : Nat} (h : bits < 64) : charOf bits ∈ alphabet := by
  have hlen : bits < alphabet.length := h
  rw [charOf, getD_eq_getElem?_getD, getElem?_eq_getElem hlen]
  exact getElem_mem hlen

lemma charOf_ne_pad {bits : Nat} (h : bits < 64) : charOf bits ≠ pad := by
  have hpad : pad ∉ alphabet := by decide +kernel
  exact fun heq => hpad (heq ▸ charOf_mem h)

section

variable (a b c : UInt8)

lemma firstOctet_bits {y : Nat} (hy : y / 16 = a.toNat % 4) : firstOctet (a.toNat / 4) y = a := by
  rw [firstOctet, hy, show a.toNat / 4 * 4 + a.toNat % 4 = a.toNat by omega, UInt8.ofNat_toNat]

lemma secondOctet_bits {y z : Nat} (hy : y % 16 = b.toNat / 16) (hz : z / 4 = b.toNat % 16) :
    secondOctet y z = b := by
  rw [secondOctet, hy, hz, show b.toNat / 16 * 16 + b.toNat % 16 = b.toNat by omega,
    UInt8.ofNat_toNat]

lemma thirdOctet_bits {z : Nat} (hz : z % 4 = c.toNat / 64) : thirdOctet z (c.toNat % 64) = c := by
  rw [thirdOctet, hz, show c.toNat / 64 * 64 + c.toNat % 64 = c.toNat by omega, UInt8.ofNat_toNat]

end

lemma decode_encode (s : Octets) : decode (encode s) = some s := by
  fun_induction encode s with
  | case1 => rfl
  | case2 a =>
    have ha := a.toNat_lt
    rw [decode, if_pos rfl, decodeTwo, bitsOf_charOf (by omega),
      bitsOf_charOf (by omega)]
    show some [firstOctet _ _] = some [a]
    rw [firstOctet_bits a (by omega)]
  | case3 a b =>
    have ha := a.toNat_lt
    have hb := b.toNat_lt
    rw [decode, if_pos ⟨rfl, rfl⟩, if_neg (charOf_ne_pad (by omega)), decodeThree,
      bitsOf_charOf (by omega), bitsOf_charOf (by omega), bitsOf_charOf (by omega)]
    show some [firstOctet _ _, secondOctet _ _] = some [a, b]
    rw [firstOctet_bits a (by omega), secondOctet_bits b (by omega) (by omega)]
  | case4 a b c rest ih =>
    have ha := a.toNat_lt
    have hb := b.toNat_lt
    have hc := c.toNat_lt
    have hfull : decodeFour (charOf (a.toNat / 4)) (charOf (a.toNat % 4 * 16 + b.toNat / 16))
        (charOf (b.toNat % 16 * 4 + c.toNat / 64)) (charOf (c.toNat % 64)) = some [a, b, c] := by
      rw [decodeFour, bitsOf_charOf (by omega), bitsOf_charOf (by omega),
        bitsOf_charOf (by omega), bitsOf_charOf (by omega)]
      show some [firstOctet _ _, secondOctet _ _, thirdOctet _ _] = some [a, b, c]
      rw [firstOctet_bits a (by omega), secondOctet_bits b (by omega) (by omega),
        thirdOctet_bits c (by omega)]
    rw [decode, if_neg fun h => charOf_ne_pad (by omega) h.2, hfull, ih]
    rfl

lemma forall_mem_encode (s : Octets) : ∀ x ∈ encode s, x ∈ alphabet ∨ x = pad := by
  fun_induction encode s with
  | case1 => exact forall_mem_nil _
  | case2 a =>
    have ha := a.toNat_lt
    rw [forall_mem_cons, forall_mem_cons, forall_mem_cons, forall_mem_cons]
    exact ⟨.inl (charOf_mem (by omega)), .inl (charOf_mem (by omega)), .inr rfl, .inr rfl,
      forall_mem_nil _⟩
  | case3 a b =>
    have ha := a.toNat_lt
    have hb := b.toNat_lt
    rw [forall_mem_cons, forall_mem_cons, forall_mem_cons, forall_mem_cons]
    exact ⟨.inl (charOf_mem (by omega)), .inl (charOf_mem (by omega)),
      .inl (charOf_mem (by omega)), .inr rfl, forall_mem_nil _⟩
  | case4 a b c rest ih =>
    have ha := a.toNat_lt
    have hb := b.toNat_lt
    have hc := c.toNat_lt
    rw [forall_mem_cons, forall_mem_cons, forall_mem_cons, forall_mem_cons]
    exact ⟨.inl (charOf_mem (by omega)), .inl (charOf_mem (by omega)),
      .inl (charOf_mem (by omega)), .inl (charOf_mem (by omega)), ih⟩

end Millennium.Base64
