import Millennium.Lib.Bytes

/-!
# LZ4 blocks

A block is a list of sequences, each a run of literals and a match into earlier output, and a last
run of literals. `Block.expand` is what it means and `Block.encode` how it is written.
-/

namespace Millennium.Lz4

open Bytes

/-- A run of literals, then `matchLen` octets copied from `offset` octets back. -/
structure Seq where
  literals : Octets
  offset : Nat
  matchLen : Nat
  deriving Repr, DecidableEq

structure Block where
  seqs : List Seq
  last : Octets
  deriving Repr, DecidableEq

/-- Copy octet by octet, so that a match may read what it has just written. -/
def copyMatch (offset : Nat) : Nat → Octets → Octets
  | 0, out => out
  | n + 1, out => copyMatch offset n (out ++ [byteAt out (out.length - offset)])

def expandSeqs : List Seq → Octets → Octets
  | [], out => out
  | s :: rest, out => expandSeqs rest (copyMatch s.offset s.matchLen (out ++ s.literals))

def Block.expand (b : Block) : Octets := expandSeqs b.seqs [] ++ b.last

/-- Every match reaches back at most 65535 octets, not past the output, for four octets at least. -/
def ValidFrom : List Seq → Nat → Prop
  | [], _ => True
  | s :: rest, produced =>
    (1 ≤ s.offset ∧ s.offset ≤ 65535 ∧ s.offset ≤ produced + s.literals.length) ∧
      4 ≤ s.matchLen ∧ ValidFrom rest (produced + s.literals.length + s.matchLen)

def Block.Valid (b : Block) : Prop := ValidFrom b.seqs 0

/-- The part of a length that a nibble does not hold: a run of `255` and a smaller octet. -/
def extension (n : Nat) : Octets :=
  if n < 255 then [UInt8.ofNat n] else 255 :: extension (n - 255)

/-- The octets that follow a nibble; none unless the nibble is full. -/
def lengthExt (n : Nat) : Octets := if n < 15 then [] else extension (n - 15)

def token (lit mat : Nat) : UInt8 := UInt8.ofNat (min lit 15 * 16 + min mat 15)

def Seq.encode (s : Seq) : Octets :=
  token s.literals.length (s.matchLen - 4) :: (lengthExt s.literals.length ++ (s.literals ++
    (leBytes 2 s.offset ++ lengthExt (s.matchLen - 4))))

def encodeLast (last : Octets) : Octets :=
  token last.length 0 :: (lengthExt last.length ++ last)

def Block.encode (b : Block) : Octets := b.seqs.flatMap Seq.encode ++ encodeLast b.last

@[simp] lemma copyMatch_length (offset n : Nat) (out : Octets) :
    (copyMatch offset n out).length = out.length + n := by
  induction n generalizing out with
  | zero => rfl
  | succ n ih =>
    rw [copyMatch, ih, List.length_append, List.length_singleton]
    omega

lemma length_le_expandSeqs (seqs : List Seq) (out : Octets) :
    out.length ≤ (expandSeqs seqs out).length := by
  induction seqs generalizing out with
  | nil => exact le_rfl
  | cons s rest ih =>
    have h := ih (copyMatch s.offset s.matchLen (out ++ s.literals))
    rw [copyMatch_length, List.length_append] at h
    rw [expandSeqs]
    omega

lemma token_lit (lit mat : Nat) : (token lit mat >>> 4).toNat = min lit 15 := by
  have hv : (token lit mat).toNat = min lit 15 * 16 + min mat 15 := by
    rw [token, UInt8.toNat_ofNat']
    omega
  rw [UInt8.toNat_shiftRight, show (4 : UInt8).toNat % 8 = 4 from rfl]
  omega

lemma token_mat (lit mat : Nat) : (token lit mat &&& 0xF).toNat = min mat 15 := by
  have hv : (token lit mat).toNat = min lit 15 * 16 + min mat 15 := by
    rw [token, UInt8.toNat_ofNat']
    omega
  rw [UInt8.toNat_and, show (0xF : UInt8).toNat = 2 ^ 4 - 1 from rfl,
    Nat.and_two_pow_sub_one_eq_mod]
  omega

def literalBlock (data : Octets) : Block := ⟨[], data⟩

lemma literalBlock_valid (data : Octets) : (literalBlock data).Valid := trivial

@[simp] lemma literalBlock_expand (data : Octets) : (literalBlock data).expand = data := rfl

end Millennium.Lz4
