import Millennium.Lib.Lz4

/-!
# How LZ4 data may end

A decoder that stops where its input stops takes other ends than literals: none behind the last
match, any low nibble in the last token, and a match whose length goes on behind the end.
-/

namespace Millennium.Lz4

open Bytes

inductive Ending where
  | nothing
  /-- Literals, with the nibble of their token that stands for no match. -/
  | literals (nibble : Nat) (last : Octets)
  /-- Literals and a match whose length is cut off in a run of `255`. -/
  | cutMatch (literals : Octets) (offset run : Nat)
  deriving Repr, DecidableEq

namespace Ending

def encode : Ending → Octets
  | .nothing => []
  | .literals nibble last => token last.length nibble :: (lengthExt last.length ++ last)
  | .cutMatch lits offset run => token lits.length 15 ::
      (lengthExt lits.length ++ (lits ++ (leBytes 2 offset ++ List.replicate run 255)))

def cutLength (run : Nat) : Nat := 19 + 255 * run

def expand : Ending → Octets → Octets
  | .nothing, out => out
  | .literals _ last, out => out ++ last
  | .cutMatch lits offset run, out => copyMatch offset (cutLength run) (out ++ lits)

def Valid : Ending → Nat → Prop
  | .nothing, _ => True
  | .literals nibble _, _ => nibble ≤ 15
  | .cutMatch lits offset _, produced =>
    1 ≤ offset ∧ offset ≤ 65535 ∧ offset ≤ produced + lits.length

def IsCut : Ending → Prop
  | .nothing => False
  | .literals _ _ => False
  | .cutMatch _ _ _ => True

lemma length_le_expand (ending : Ending) (out : Octets) :
    out.length ≤ (ending.expand out).length := by
  cases ending with
  | nothing => exact le_rfl
  | literals => simp [expand]
  | cutMatch =>
    rw [expand, copyMatch_length, List.length_append]
    omega

end Ending

/-- Sequences and an end, for an output of the given length. -/
structure Stream (seqs : List Seq) (ending : Ending) (produced : Octets) : Prop where
  valid : ValidFrom seqs produced.length
  ended : ending.Valid (expandSeqs seqs produced).length

lemma Stream.cons {s : Seq} {seqs : List Seq} {ending : Ending} {produced : Octets}
    (hoff : 1 ≤ s.offset ∧ s.offset ≤ 65535 ∧ s.offset ≤ produced.length + s.literals.length)
    (hmatch : 4 ≤ s.matchLen)
    (h : Stream seqs ending (copyMatch s.offset s.matchLen (produced ++ s.literals))) :
    Stream (s :: seqs) ending produced := by
  refine ⟨⟨hoff, hmatch, ?_⟩, h.ended⟩
  have hseqs := h.valid
  rwa [copyMatch_length, List.length_append] at hseqs

lemma validFrom_of_forall {seqs : List Seq} {out : Octets}
    (h : ∀ pre s rest, seqs = pre ++ s :: rest →
    (1 ≤ s.offset ∧ s.offset ≤ min 65535 ((expandSeqs pre out).length + s.literals.length)) ∧
    4 ≤ s.matchLen) : ValidFrom seqs out.length := by
  induction seqs generalizing out with
  | nil => trivial
  | cons s rest ih =>
    obtain ⟨⟨hpos, hback⟩, hmatch⟩ := h [] s rest rfl
    rw [expandSeqs] at hback
    refine ⟨⟨hpos, by omega, by omega⟩, hmatch, ?_⟩
    have hrest := @ih (copyMatch s.offset s.matchLen (out ++ s.literals)) fun pre t more hseqs =>
      h (s :: pre) t more (by rw [hseqs, List.cons_append])
    rwa [copyMatch_length, List.length_append] at hrest

lemma extension_of_lt {n : Nat} (h : n < 255) : extension n = [UInt8.ofNat n] := by
  rw [extension, if_pos h]

lemma extension_add (n : Nat) : extension (n + 255) = 255 :: extension n := by
  rw [extension, if_neg (by omega), Nat.add_sub_cancel]

lemma eq_token {t : UInt8} {lit mat : Nat} (hlit : (t >>> 4).toNat = min lit 15)
    (hmat : (t &&& 0xF).toNat = min mat 15) : t = token lit mat := by
  rw [UInt8.toNat_shiftRight, show (4 : UInt8).toNat % 8 = 4 from rfl] at hlit
  rw [UInt8.toNat_and, show (0xF : UInt8).toNat = 2 ^ 4 - 1 from rfl,
    Nat.and_two_pow_sub_one_eq_mod] at hmat
  apply UInt8.toNat_inj.mp
  rw [token, UInt8.toNat_ofNat']
  omega

end Millennium.Lz4
