import Millennium.Lib.Bytes

/-!
# The `.star` container: header, section table and their byte layout

The first half follows `star_parser.cc`, which reads a container, the second `starlight/src/format`,
which writes one. An entry written by one is read back by the other.
-/

namespace Millennium.Star

open Bytes List

def starMagic : Octets := [0x53, 0x54, 0x41, 0x52]
def starParitySeed : UInt32 := 0xA7C3E91F
def starStride : Nat := 64
def starXorKey : UInt8 := 0x4D
def flagObfuscated : UInt8 := 0x40
def flagCompressed : UInt8 := 0x80
def starFlagSigned : UInt8 := 0x01

def secMetadata : UInt8 := 0x01
def secBackend : UInt8 := 0x02
def secFrontend : UInt8 := 0x03
def secWebkit : UInt8 := 0x04
def secAssets : UInt8 := 0x05

def metaFlagDeferred : UInt32 := 0x0001
def metaFlagRequired : UInt32 := 0x0002

def formatVersion : UInt8 := 2
def starHeaderSize : Nat := 12
def starEntrySize : Nat := 256
def maxShimSize : Nat := 4 * 1024 * 1024
def maxSectionSize : Nat := 256 * 1024 * 1024
def maxSections : Nat := 32
def sigLen : Nat := 64

/-- What a reader does with bytes it does not accept. `outOfBounds` is undefined behaviour. -/
inductive Fault where
  | runtimeError (message : String)
  | outOfBounds (start length : Nat)
  deriving Repr, DecidableEq

structure StarSection where
  id : UInt8
  encodeFlags : UInt8
  metaFlags : UInt32
  offset : UInt64
  length : UInt64
  crc32 : UInt32
  deriving Repr, DecidableEq

namespace StarSection

/-- The loader skips a deferred section; it is read on demand. -/
def deferred (s : StarSection) : Prop := s.metaFlags &&& metaFlagDeferred ≠ 0

instance (s : StarSection) : Decidable s.deferred :=
  inferInstanceAs (Decidable (_ ≠ _))

/-- A required section with an unknown id makes the loader refuse the file. -/
def required (s : StarSection) : Prop := s.metaFlags &&& metaFlagRequired ≠ 0

instance (s : StarSection) : Decidable s.required :=
  inferInstanceAs (Decidable (_ ≠ _))

def known (s : StarSection) : Prop :=
  s.id = secMetadata ∨ s.id = secBackend ∨ s.id = secFrontend ∨ s.id = secWebkit ∨
    s.id = secAssets

instance (s : StarSection) : Decidable s.known :=
  inferInstanceAs (Decidable (_ ∨ _ ∨ _ ∨ _ ∨ _))

end StarSection

def readU16Le (p : Octets) : UInt16 :=
  (byteAt p 0).toUInt16 ||| (byteAt p 1).toUInt16 <<< 8

def readU32Le (p : Octets) : UInt32 :=
  (byteAt p 0).toUInt32 ||| (byteAt p 1).toUInt32 <<< 8 ||| (byteAt p 2).toUInt32 <<< 16 |||
    (byteAt p 3).toUInt32 <<< 24

def readU64Le (p : Octets) : UInt64 :=
  (byteAt p 0).toUInt64 ||| (byteAt p 1).toUInt64 <<< 8 ||| (byteAt p 2).toUInt64 <<< 16 |||
    (byteAt p 3).toUInt64 <<< 24 ||| (byteAt p 4).toUInt64 <<< 32 |||
    (byteAt p 5).toUInt64 <<< 40 ||| (byteAt p 6).toUInt64 <<< 48 |||
    (byteAt p 7).toUInt64 <<< 56

lemma readU32Le_toNat (p : Octets) : (readU32Le p).toNat =
    (byteAt p 0).toNat + (byteAt p 1).toNat * 2 ^ 8 + (byteAt p 2).toNat * 2 ^ 16 +
    (byteAt p 3).toNat * 2 ^ 24 := by
  have h₀ := (byteAt p 0).toNat_lt
  have h₁ := (byteAt p 1).toNat_lt
  have h₂ := (byteAt p 2).toNat_lt
  simp only [readU32Le, UInt32.toNat_or, UInt32.toNat_shiftLeft, UInt8.toNat_toUInt32,
    UInt32.reduceToNat]
  rw [octet_shift_mod _ (by decide), octet_shift_mod _ (by decide), octet_shift_mod _ (by decide)]
  rw [or_field (k := 8) _ (by omega), or_field (k := 16) _ (by omega),
    or_field (k := 24) _ (by omega)]

lemma readU64Le_toNat (p : Octets) : (readU64Le p).toNat =
    (byteAt p 0).toNat + (byteAt p 1).toNat * 2 ^ 8 + (byteAt p 2).toNat * 2 ^ 16 +
    (byteAt p 3).toNat * 2 ^ 24 + (byteAt p 4).toNat * 2 ^ 32 +
    (byteAt p 5).toNat * 2 ^ 40 + (byteAt p 6).toNat * 2 ^ 48 +
    (byteAt p 7).toNat * 2 ^ 56 := by
  have h₀ := (byteAt p 0).toNat_lt
  have h₁ := (byteAt p 1).toNat_lt
  have h₂ := (byteAt p 2).toNat_lt
  have h₃ := (byteAt p 3).toNat_lt
  have h₄ := (byteAt p 4).toNat_lt
  have h₅ := (byteAt p 5).toNat_lt
  have h₆ := (byteAt p 6).toNat_lt
  simp only [readU64Le, UInt64.toNat_or, UInt64.toNat_shiftLeft, UInt8.toNat_toUInt64,
    UInt64.reduceToNat]
  rw [octet_shift_mod _ (by decide), octet_shift_mod _ (by decide), octet_shift_mod _ (by decide),
    octet_shift_mod _ (by decide), octet_shift_mod _ (by decide), octet_shift_mod _ (by decide),
    octet_shift_mod _ (by decide)]
  rw [or_field (k := 8) _ (by omega), or_field (k := 16) _ (by omega),
    or_field (k := 24) _ (by omega), or_field (k := 32) _ (by omega),
    or_field (k := 40) _ (by omega), or_field (k := 48) _ (by omega),
    or_field (k := 56) _ (by omega)]

lemma readU32Le_leBytes (v : UInt32) (rest : Octets) :
    readU32Le (leBytes 4 v.toNat ++ rest) = v := by
  have hv := v.toNat_lt
  apply UInt32.toNat_inj.mp
  rw [readU32Le_toNat]
  simp only [leBytes, byteAt, cons_append, getD_cons_zero, getD_cons_succ, UInt8.toNat_ofNat']
  omega

lemma readU64Le_leBytes (v : UInt64) (rest : Octets) :
    readU64Le (leBytes 8 v.toNat ++ rest) = v := by
  have hv := v.toNat_lt
  apply UInt64.toNat_inj.mp
  rw [readU64Le_toNat]
  simp only [leBytes, byteAt, cons_append, getD_cons_zero, getD_cons_succ, UInt8.toNat_ofNat']
  omega

lemma readU32Le_congr {p q : Octets} (h : ∀ i < 4, byteAt p i = byteAt q i) :
    readU32Le p = readU32Le q := by
  simp only [readU32Le, h 0 (by decide), h 1 (by decide), h 2 (by decide), h 3 (by decide)]

lemma readU64Le_congr {p q : Octets} (h : ∀ i < 8, byteAt p i = byteAt q i) :
    readU64Le p = readU64Le q := by
  simp only [readU64Le, h 0 (by decide), h 1 (by decide), h 2 (by decide), h 3 (by decide),
    h 4 (by decide), h 5 (by decide), h 6 (by decide), h 7 (by decide)]

/-- The loop body of `star_load_bounded` that fills a `star_section_t` from the bytes at `e`. -/
def readSection (e : Octets) : StarSection where
  id := byteAt e 0
  encodeFlags := byteAt e 1
  metaFlags := readU32Le (e.drop 4)
  offset := readU64Le (e.drop 8)
  length := readU64Le (e.drop 16)
  crc32 := readU32Le (e.drop 24)

def entryUsed : Nat := 28

/-- Only the first 28 octets of an entry matter; the rest is reserved. -/
lemma readSection_congr {e e' : Octets} (h : ∀ i < entryUsed, byteAt e i = byteAt e' i) :
    readSection e = readSection e' := by
  simp only [entryUsed] at h
  have h₄ : readU32Le (e.drop 4) = readU32Le (e'.drop 4) := by
    apply readU32Le_congr
    intro i hi
    rw [byteAt_drop, byteAt_drop, h _ (by omega)]
  have h₈ : readU64Le (e.drop 8) = readU64Le (e'.drop 8) := by
    apply readU64Le_congr
    intro i hi
    rw [byteAt_drop, byteAt_drop, h _ (by omega)]
  have h₁₆ : readU64Le (e.drop 16) = readU64Le (e'.drop 16) := by
    apply readU64Le_congr
    intro i hi
    rw [byteAt_drop, byteAt_drop, h _ (by omega)]
  have h₂₄ : readU32Le (e.drop 24) = readU32Le (e'.drop 24) := by
    apply readU32Le_congr
    intro i hi
    rw [byteAt_drop, byteAt_drop, h _ (by omega)]
  simp only [readSection, h 0 (by decide), h 1 (by decide), h₄, h₈, h₁₆, h₂₄]

/-- `SectionEntry::to_bytes`: pad and reserved octets are left as zero. -/
def StarSection.toBytes (s : StarSection) : Octets :=
  [s.id, s.encodeFlags, 0, 0] ++ (leBytes 4 s.metaFlags.toNat ++ (leBytes 8 s.offset.toNat ++
    (leBytes 8 s.length.toNat ++ (leBytes 4 s.crc32.toNat ++ List.replicate 228 0))))

@[simp] lemma StarSection.toBytes_length (s : StarSection) :
    s.toBytes.length = starEntrySize := by
  simp only [toBytes, length_append, length_cons, length_nil, leBytes_length,
    length_replicate, starEntrySize]

lemma readSection_toBytes (s : StarSection) : readSection s.toBytes = s := by
  have hm : (s.toBytes.drop 4) = leBytes 4 s.metaFlags.toNat ++ (leBytes 8 s.offset.toNat ++
      (leBytes 8 s.length.toNat ++ (leBytes 4 s.crc32.toNat ++ List.replicate 228 0))) := rfl
  have ho : (s.toBytes.drop 8) = leBytes 8 s.offset.toNat ++
      (leBytes 8 s.length.toNat ++ (leBytes 4 s.crc32.toNat ++ List.replicate 228 0)) := by
    exact drop_left' (leBytes_length _ _)
  have hl : (s.toBytes.drop 16) =
      leBytes 8 s.length.toNat ++ (leBytes 4 s.crc32.toNat ++ List.replicate 228 0) := by
    exact drop_left' (leBytes_length _ _)
  have hc : (s.toBytes.drop 24) = leBytes 4 s.crc32.toNat ++ List.replicate 228 0 := by
    exact drop_left' (leBytes_length _ _)
  cases s with
  | mk =>
    simp only [readSection, hm, ho, hl, hc, readU32Le_leBytes, readU64Le_leBytes,
      StarSection.mk.injEq, and_true]
    exact ⟨rfl, rfl⟩

def fnv1aStep (hash : UInt32) (byte : UInt8) : UInt32 :=
  (hash ^^^ byte.toUInt32) * 0x01000193

/-- `fnv1a` of `header.rs`, and `fnv1a_hash_bytes` of the loader. -/
def fnv1a (data : Octets) : UInt32 := data.foldl fnv1aStep 0x811c9dc5

structure StarHeader where
  versionMajor : UInt8
  versionMinor : UInt8
  sectionCount : UInt8
  starFlags : UInt8
  shimIntegrity : UInt32
  deriving Repr, DecidableEq

/-- `StarHeader::new`: a fresh header claims to be signed. -/
def StarHeader.new (sectionCount : UInt8) (shim : Octets) : StarHeader where
  versionMajor := 2
  versionMinor := 0
  sectionCount := sectionCount
  starFlags := starFlagSigned
  shimIntegrity := fnv1a shim

def StarHeader.toBytes (h : StarHeader) : Octets :=
  starMagic ++ [h.versionMajor, h.versionMinor, h.sectionCount, h.starFlags] ++
    leBytes 4 h.shimIntegrity.toNat

@[simp] lemma StarHeader.toBytes_length (h : StarHeader) :
    h.toBytes.length = starHeaderSize := by
  simp [toBytes, starMagic, starHeaderSize]

end Millennium.Star
