import Mathlib.Data.List.Induction
import Millennium.Star.Sign

/-!
# What signing leaves of the sections

`sign` puts 64 octets into the middle of a file and moves the offset of the first assets only.
Whether the other entries still point at their own octets is asked of every signature scheme, so
that it is a matter of places in the file.
-/

namespace Millennium.Star

open Bytes Outcome List Except

/-- A way to sign whose public half accepts what is signed. -/
structure Scheme where
  sign : Octets → Octets
  verify : Octets → Octets → Bool
  length_sign : ∀ message, (sign message).length = sigLen
  verify_sign : ∀ message, verify message (sign message) = true

/-- A file of at most `isize::MAX` octets without a signature that `parse_header` accepts and whose
sections can be read. -/
structure UnsignedFile where
  data : Octets
  header : StarHeader
  entries : List StarSection
  plgStart : Nat
  length_lt : data.length < 2 ^ 63
  parsed : ∃ verifyStar, parseHeader verifyStar data = .ok (header, entries, plgStart)
  unsigned : header.starFlags &&& starFlagSigned = 0
  readable : ∀ s ∈ entries, ∃ blob, readSectionBlob data plgStart s = .ok blob

namespace UnsignedFile

/-- An entry of the output has the id, the flags and the octets of the entry. -/
structure Kept (file : UnsignedFile) (out : Octets) (plgStart : Nat) (s s' : StarSection) :
    Prop where
  id : s'.id = s.id
  encodeFlags : s'.encodeFlags = s.encodeFlags
  metaFlags : s'.metaFlags = s.metaFlags
  blob : readSectionBlob out plgStart s' = readSectionBlob file.data file.plgStart s

/-- If the file is signed, the output has the same sections. -/
def KeepsSections (file : UnsignedFile) : Prop :=
  ∀ (scheme : Scheme) path out,
    Star.sign scheme.verify (fun message => .ok (scheme.sign message)) path file.data = .ok out →
      ∃ header entries plgStart,
        parseHeader scheme.verify out = .ok (header, entries, plgStart) ∧
          List.Forall₂ (file.Kept out plgStart) file.entries entries

variable (file : UnsignedFile)

def sigStart : Nat := Star.sigStart file.plgStart file.entries

def flagged : Octets :=
  let data := patchAssets file.data (file.plgStart + starHeaderSize) file.entries
  data.set (file.plgStart + 7) (byteAt data (file.plgStart + 7) ||| starFlagSigned)

def signedWith (signature : Octets) : Octets :=
  file.flagged.take file.sigStart ++ signature ++ file.flagged.drop file.sigStart

def mark (c : UInt8) : Octets := List.replicate sigLen c

def entryStart (i : Nat) : Nat := file.plgStart + starHeaderSize + i * starEntrySize

def fieldsUsed : Nat := 24

/-- Where an octet was before the signature was put in. -/
def origin (place : Nat) : Nat := if place < file.sigStart then place else place - sigLen

/-- What is found at the place of an entry once everything behind the signature has moved. -/
def shifted (i : Nat) : StarSection :=
  readSection (file.flagged.drop (file.origin (file.entryStart i)))

/-- An entry says what the other said, and points to the octets of the section. -/
structure StillThere (s s' : StarSection) : Prop where
  id : s'.id = s.id
  encodeFlags : s'.encodeFlags = s.encodeFlags
  metaFlags : s'.metaFlags = s.metaFlags
  length : s'.length = s.length
  inside : addU64 file.plgStart s'.offset.toNat + s.length.toNat ≤ file.data.length + sigLen
  apart : ∀ i < s.length.toNat, addU64 file.plgStart s'.offset.toNat + i < file.sigStart ∨
    file.sigStart + sigLen ≤ addU64 file.plgStart s'.offset.toNat + i
  octets : ∀ i < s.length.toNat,
    byteAt file.flagged (file.origin (addU64 file.plgStart s'.offset.toNat + i)) =
      byteAt file.data (addU64 file.plgStart s.offset.toNat + i)

/-- The signature is behind the header and cuts no entry, and the sections are still there. -/
structure PutBetween : Prop where
  header : file.plgStart + starHeaderSize ≤ file.sigStart
  table : ∀ i < file.entries.length, file.entryStart i + fieldsUsed ≤ file.sigStart ∨
    file.sigStart + sigLen ≤ file.entryStart i
  eager : maxEagerEnd ((List.range file.entries.length).map file.shifted) =
    maxEagerEnd file.entries
  sections : ∀ i < file.entries.length,
    file.StillThere (readSection (file.data.drop (file.entryStart i))) (file.shifted i)

end UnsignedFile

lemma readSectionBlob_eq_ok_iff {data : Octets} {plg : Nat} {s : StarSection} {blob : Octets} :
    readSectionBlob data plg s = .ok blob ↔
    addU64 plg s.offset.toNat + s.length.toNat ≤ data.length ∧
    addU64 plg s.offset.toNat + s.length.toNat < 2 ^ 64 ∧
    blob = slice data (addU64 plg s.offset.toNat) s.length.toNat := by
  have hstart : addU64 plg s.offset.toNat < 2 ^ 64 := addU64_lt _ _
  have hlen := s.length.toNat_lt
  simp only [readSectionBlob]
  generalize addU64 plg s.offset.toNat = start at hstart ⊢
  have hstop : addU64 start s.length.toNat = (start + s.length.toNat) % 2 ^ 64 := rfl
  split_ifs with hlong hwrap
  · simp only [false_iff]
    omega
  · simp only [false_iff]
    omega
  · have hsum : addU64 start s.length.toNat = start + s.length.toNat := by omega
    rw [ok.injEq, hsum, Nat.add_sub_cancel_left]
    constructor
    · rintro rfl
      exact ⟨by omega, by omega, rfl⟩
    · rintro ⟨-, -, rfl⟩
      rfl

def StarSection.unchecked (s : StarSection) : StarSection := { s with crc32 := 0 }

lemma readSectionBlob_unchecked (data : Octets) (plg : Nat) (s : StarSection) :
    readSectionBlob data plg s.unchecked = readSectionBlob data plg s := rfl

lemma readSection_unchecked_congr {e e' : Octets}
    (h : ∀ i < UnsignedFile.fieldsUsed, byteAt e i = byteAt e' i) :
    (readSection e).unchecked = (readSection e').unchecked := by
  have hword : readU32Le (e.drop 4) = readU32Le (e'.drop 4) := by
    apply readU32Le_congr
    intro i hi
    rw [byteAt_drop, byteAt_drop, h _ (by simp only [UnsignedFile.fieldsUsed]; omega)]
  have hlong : ∀ k, k + 8 ≤ UnsignedFile.fieldsUsed →
      readU64Le (e.drop k) = readU64Le (e'.drop k) := by
    intro k hk
    apply readU64Le_congr
    intro i hi
    rw [byteAt_drop, byteAt_drop, h _ (by omega)]
  simp only [StarSection.unchecked, readSection, h 0 (by decide), h 1 (by decide), hword,
    hlong 8 (by decide), hlong 16 (by decide)]

lemma maxEagerEnd_unchecked (entries : List StarSection) :
    maxEagerEnd (entries.map StarSection.unchecked) = maxEagerEnd entries := by
  rw [maxEagerEnd, foldl_map]
  rfl

lemma maxEagerEnd_cases (entries : List StarSection) : maxEagerEnd entries = 0 ∨
    ∃ s ∈ entries, ¬ s.deferred ∧ maxEagerEnd entries = s.offset + s.length := by
  induction entries using List.reverseRecOn with
  | nil => exact Or.inl rfl
  | append_singleton init s ih =>
    have hinit : maxEagerEnd init = 0 ∨ ∃ x ∈ init ++ [s], ¬ x.deferred ∧
        maxEagerEnd init = x.offset + x.length := by
      rcases ih with hzero | ⟨x, hx, hend⟩
      · exact Or.inl hzero
      · exact Or.inr ⟨x, mem_append_left _ hx, hend⟩
    rw [maxEagerEnd_append, eagerEnd]
    split_ifs with hdef hlt
    · exact hinit
    · exact Or.inr ⟨s, by simp, hdef, rfl⟩
    · exact hinit

lemma plgStartOf_congr {a b : Octets} {plg : Nat} (hle : a.length ≤ b.length)
    (h : ∀ i < 4, byteAt b i = byteAt a i) (ha : plgStartOf a = .ok plg) :
    plgStartOf b = .ok plg := by
  obtain ⟨hfour, hcases⟩ := plgStartOf_eq_ok_iff.mp ha
  have htake : b.take 4 = a.take 4 := by
    refine @slice_congr b a 0 4 (by omega) (by omega) fun i _ hi => h i (by omega)
  rw [plgStartOf_eq_ok_iff, htake]
  exact ⟨by omega, hcases.imp_right fun ⟨hne, hstart, hlong⟩ => ⟨hne, hstart, by omega⟩⟩

lemma fnv1a_of_checkShim {data : Octets} {plg : Nat} {header : StarHeader}
    (hne : plg ≠ 0) (h : checkShim data plg header = .ok ()) :
    fnv1a (slice data 4 (plg - 4)) = header.shimIntegrity := by
  rw [checkShim, if_neg hne] at h
  by_contra hhash
  rw [if_neg hhash] at h
  cases h

/-- The prime of the hash is odd, so that multiplying by it loses nothing. -/
lemma mul_prime_injective {x y : UInt32} (h : x * 0x01000193 = y * 0x01000193) : x = y := by
  have hinv : (0x01000193 : UInt32) * 0x359c449b = 1 := by decide
  calc
    x = x * 0x01000193 * 0x359c449b := by rw [UInt32.mul_assoc, hinv, UInt32.mul_one]
    _ = y * 0x01000193 * 0x359c449b := by rw [h]
    _ = y := by rw [UInt32.mul_assoc, hinv, UInt32.mul_one]

lemma fnv1aStep_left {hash hash' : UInt32} {b : UInt8}
    (h : fnv1aStep hash b = fnv1aStep hash' b) : hash = hash' :=
  (UInt32.xor_left_inj _).mp (mul_prime_injective h)

lemma fnv1aStep_right {hash : UInt32} {b b' : UInt8}
    (h : fnv1aStep hash b = fnv1aStep hash b') : b = b' :=
  UInt8.toUInt32_inj.mp ((UInt32.xor_right_inj _).mp (mul_prime_injective h))

lemma foldl_fnv1aStep_left (data : Octets) {hash hash' : UInt32}
    (h : data.foldl fnv1aStep hash = data.foldl fnv1aStep hash') : hash = hash' := by
  induction data generalizing hash hash' with
  | nil => exact h
  | cons b data ih => exact fnv1aStep_left (ih h)

lemma byteAt_eq_of_fnv1a {a b : Octets} {k : Nat} (hlen : a.length = b.length)
    (hk : k < a.length) (hagree : ∀ i < a.length, i ≠ k → byteAt a i = byteAt b i)
    (h : fnv1a a = fnv1a b) : byteAt a k = byteAt b k := by
  have hset : b = a.set k (byteAt b k) := by
    apply ext_byteAt
    · rw [length_set, hlen]
    · intro i hi
      by_cases hik : i = k
      · rw [hik, byteAt_set_self hk]
      · rw [byteAt_set_ne (Ne.symm hik), hagree i (by omega) hik]
  have hself : a = a.take k ++ byteAt a k :: a.drop (k + 1) := by
    have hget : byteAt a k = a[k] := by simp [byteAt, hk]
    rw [hget, getElem_cons_drop, take_append_drop]
  rw [hset, set_eq_take_append_cons_drop, if_pos hk, fnv1a, fnv1a, foldl_append] at h
  nth_rewrite 1 [hself] at h
  rw [foldl_append] at h
  exact fnv1aStep_right (foldl_fnv1aStep_left _ h)

section
variable {data : Octets} {entries : List StarSection} {start : Nat}

lemma length_patchAssets (h : start + entries.length * starEntrySize ≤ data.length) :
    (patchAssets data start entries).length = data.length := by
  induction entries generalizing start with
  | nil => rfl
  | cons entry rest ih =>
    rw [length_cons, Nat.succ_mul] at h
    rw [patchAssets]
    split_ifs
    · apply overwrite_length
      rw [StarSection.toBytes_length]
      omega
    · exact ih (by omega)

lemma byteAt_patchAssets_before (h : start + entries.length * starEntrySize ≤ data.length)
    {i : Nat} (hi : i < start) : byteAt (patchAssets data start entries) i = byteAt data i := by
  induction entries generalizing start with
  | nil => rfl
  | cons entry rest ih =>
    rw [length_cons, Nat.succ_mul] at h
    rw [patchAssets]
    split_ifs
    · refine byteAt_overwrite_before ?_ hi
      rw [StarSection.toBytes_length]
      omega
    · exact ih (by omega) (by omega)

end

namespace UnsignedFile
variable (file : UnsignedFile)

lemma parts : plgStartOf file.data = .ok file.plgStart ∧
    slice file.data file.plgStart 4 = starMagic ∧
    file.header = headerAt file.data file.plgStart ∧
    file.plgStart + starHeaderSize + file.header.sectionCount.toNat * starEntrySize ≤
    file.data.length ∧
    file.entries = tableEntries file.data file.plgStart file.header.sectionCount.toNat ∧
    checkShim file.data file.plgStart file.header = .ok () := by
  obtain ⟨verify, h⟩ := file.parsed
  obtain ⟨hstart, hmagic, hhead, htable, hents, -, hshim⟩ := parseHeader_eq_ok_iff.mp h
  exact ⟨hstart, hmagic, hhead, htable, hents, hshim⟩

lemma parsed_all (verify : Octets → Octets → Bool) :
    parseHeader verify file.data = .ok (file.header, file.entries, file.plgStart) := by
  obtain ⟨hstart, hmagic, hhead, htable, hents, hshim⟩ := file.parts
  refine parseHeader_eq_ok_iff.mpr ⟨hstart, hmagic, hhead, htable, hents, ?_, hshim⟩
  rw [checkSignature, if_pos file.unsigned]

lemma length_entries : file.entries.length = file.header.sectionCount.toNat := by
  rw [file.parts.2.2.2.2.1, tableEntries_length]

lemma table_le :
    file.plgStart + starHeaderSize + file.entries.length * starEntrySize ≤ file.data.length := by
  rw [length_entries]
  exact file.parts.2.2.2.1

lemma header_le : file.plgStart + starHeaderSize ≤ file.data.length := by
  have := file.table_le
  omega

lemma plgStart_cases : file.plgStart = 0 ∨ 4 ≤ file.plgStart := by
  obtain ⟨-, ⟨-, h⟩ | ⟨-, h, -⟩⟩ := plgStartOf_eq_ok_iff.mp file.parts.1 <;> omega

lemma sigStart_le : file.sigStart ≤ file.data.length := by
  have hhead := file.header_le
  have hlen := file.length_lt
  rcases maxEagerEnd_cases file.entries with hzero | ⟨s, hs, -, hend⟩
  · have hsum : file.sigStart = file.plgStart := by
      rw [sigStart, Star.sigStart, hzero, UInt64.toNat_zero, addU64_of_lt (by omega), Nat.add_zero]
    omega
  · obtain ⟨blob, hblob⟩ := file.readable s hs
    obtain ⟨hle, hlt, -⟩ := readSectionBlob_eq_ok_iff.mp hblob
    have hsum : file.sigStart = addU64 file.plgStart s.offset.toNat + s.length.toNat := by
      rw [sigStart, Star.sigStart, hend, UInt64.toNat_add]
      unfold addU64 at hlt ⊢
      omega
    rw [hsum]
    exact hle

lemma length_flagged : file.flagged.length = file.data.length := by
  rw [flagged, length_set, length_patchAssets file.table_le]

lemma byteAt_flagged {i : Nat} (hi : i < file.plgStart + starHeaderSize)
    (hne : i ≠ file.plgStart + 7) : byteAt file.flagged i = byteAt file.data i := by
  rw [flagged, byteAt_set_ne (Ne.symm hne), byteAt_patchAssets_before file.table_le hi]

lemma byteAt_flagged_flags : byteAt file.flagged (file.plgStart + 7) =
    byteAt file.data (file.plgStart + 7) ||| starFlagSigned := by
  have hhead := file.header_le
  have hsmall : 7 < starHeaderSize := by decide
  rw [flagged, byteAt_set_self (by rw [length_patchAssets file.table_le]; omega),
    byteAt_patchAssets_before file.table_le (by omega)]

lemma sign_eq (scheme : Scheme) (path : String) :
    Star.sign scheme.verify (fun message => .ok (scheme.sign message)) path file.data =
    .ok (file.signedWith (scheme.sign (file.flagged.take file.sigStart))) := by
  have hroom : ¬ file.flagged.length < file.sigStart := by
    have := file.sigStart_le
    rw [length_flagged]
    omega
  rw [Star.sign, file.parsed_all, ok_bind]
  simp only [file.unsigned]
  exact (if_neg hroom).trans rfl

section
variable {file} {sig : Octets} {i : Nat}

lemma length_take_flagged : (file.flagged.take file.sigStart).length = file.sigStart := by
  apply length_take_of_le
  rw [length_flagged]
  exact file.sigStart_le

lemma length_signedWith (h : sig.length = sigLen) :
    (file.signedWith sig).length = file.data.length + sigLen := by
  have hle := file.sigStart_le
  rw [signedWith, length_append, length_append, length_take_flagged, length_drop, length_flagged]
  omega

lemma byteAt_before (hi : i < file.sigStart) :
    byteAt (file.signedWith sig) i = byteAt file.flagged i := by
  rw [signedWith, append_assoc, byteAt_append_left (by rwa [length_take_flagged]),
    byteAt_take hi]

lemma byteAt_inside (hi : i < sig.length) :
    byteAt (file.signedWith sig) (file.sigStart + i) = byteAt sig i := by
  have hshift := byteAt_append_right (file.flagged.take file.sigStart)
    (sig ++ file.flagged.drop file.sigStart) i
  rw [length_take_flagged, byteAt_append_left hi] at hshift
  rw [signedWith, append_assoc, hshift]

lemma byteAt_behind (h : sig.length = sigLen) :
    byteAt (file.signedWith sig) (file.sigStart + sigLen + i) =
    byteAt file.flagged (file.sigStart + i) := by
  have hshift := byteAt_append_right (file.flagged.take file.sigStart ++ sig)
    (file.flagged.drop file.sigStart) i
  rw [length_append, length_take_flagged, h, byteAt_drop] at hshift
  exact hshift

lemma byteAt_outside (h : sig.length = sigLen)
    (hi : i < file.sigStart ∨ file.sigStart + sigLen ≤ i) :
    byteAt (file.signedWith sig) i = byteAt file.flagged (file.origin i) := by
  rcases hi with hi | hi
  · rw [byteAt_before hi, origin, if_pos hi]
  · obtain ⟨k, rfl⟩ := Nat.exists_eq_add_of_le hi
    have hback : file.sigStart + sigLen + k - sigLen = file.sigStart + k := by omega
    rw [byteAt_behind h, origin, if_neg (by omega), hback]

end

def entryIn (out : Octets) (i : Nat) : StarSection := readSection (out.drop (file.entryStart i))

section
variable {file}

lemma forall₂_entries {R : StarSection → StarSection → Prop} {out : Octets} :
    List.Forall₂ R file.entries (tableEntries out file.plgStart file.entries.length) ↔
    ∀ i < file.entries.length, R (file.entryIn file.data i) (file.entryIn out i) := by
  have hents : file.entries = tableEntries file.data file.plgStart file.entries.length := by
    rw [file.length_entries]
    exact file.parts.2.2.2.2.1
  rw [hents, tableEntries_length]
  simp only [tableEntries, forall₂_map_left_iff, forall₂_map_right_iff, forall₂_same, mem_range]
  exact Iff.rfl

lemma entryIn_data_mem {i : Nat} (hi : i < file.entries.length) :
    file.entryIn file.data i ∈ file.entries := by
  have hents := file.parts.2.2.2.2.1
  rw [← file.length_entries] at hents
  rw [hents]
  exact mem_map.mpr ⟨i, mem_range.mpr hi, rfl⟩

lemma entryIn_unchecked {i : Nat} {sig : Octets} (h : sig.length = sigLen)
    (hi : file.entryStart i + fieldsUsed ≤ file.sigStart ∨
    file.sigStart + sigLen ≤ file.entryStart i) :
    (file.entryIn (file.signedWith sig) i).unchecked = (file.shifted i).unchecked := by
  apply readSection_unchecked_congr
  intro k hk
  rw [byteAt_drop, byteAt_drop, byteAt_outside h (by omega), origin, origin]
  congr 1
  split_ifs <;> omega

lemma length_mark (c : UInt8) : (mark c).length = sigLen := length_replicate

end

section
variable {file} {signature : Octets}

lemma byteAt_header (hhead : file.plgStart + starHeaderSize ≤ file.sigStart) {i : Nat}
    (hi : i < file.plgStart + starHeaderSize) (hne : i ≠ file.plgStart + 7) :
    byteAt (file.signedWith signature) i = byteAt file.data i := by
  rw [byteAt_before (by omega), file.byteAt_flagged hi hne]

lemma plgStartOf_signedWith (h : signature.length = sigLen) (hfour : 4 ≤ file.sigStart) :
    plgStartOf (file.signedWith signature) = .ok file.plgStart := by
  refine plgStartOf_congr (by rw [length_signedWith h]; omega) ?_ file.parts.1
  intro i hi
  have hsmall : starHeaderSize = 12 := rfl
  rw [byteAt_before (by omega), file.byteAt_flagged (by omega) (by omega)]

lemma headerAt_signedWith (hhead : file.plgStart + starHeaderSize ≤ file.sigStart) :
    headerAt (file.signedWith signature) file.plgStart =
    { file.header with starFlags := file.header.starFlags ||| starFlagSigned } := by
  have hsmall : starHeaderSize = 12 := rfl
  have hword : readU32Le ((file.signedWith signature).drop (file.plgStart + 8)) =
      readU32Le (file.data.drop (file.plgStart + 8)) := by
    apply readU32Le_congr
    intro i hi
    rw [byteAt_drop, byteAt_drop, byteAt_header hhead (by omega) (by omega)]
  rw [file.parts.2.2.1, headerAt, hword, byteAt_header hhead (by omega) (by omega),
    byteAt_header hhead (by omega) (by omega), byteAt_header hhead (by omega) (by omega),
    byteAt_before (by omega), file.byteAt_flagged_flags]
  rfl

section
variable (h : signature.length = sigLen) (hheader : file.plgStart + starHeaderSize ≤ file.sigStart)
include h hheader

lemma slice_signedWith {off len : Nat} (hend : off + len ≤ file.plgStart + 7) :
    slice (file.signedWith signature) off len = slice file.data off len := by
  have hsize := file.header_le
  have hsmall : starHeaderSize = 12 := rfl
  apply slice_congr
  · rw [length_signedWith h]
    omega
  · omega
  · intro i _ hi
    exact byteAt_header hheader (by omega) (by omega)

lemma checkShim_signedWith (flags : UInt8) : checkShim (file.signedWith signature) file.plgStart
      { file.header with starFlags := flags } = .ok () := by
  have hshim := file.parts.2.2.2.2.2
  rcases file.plgStart_cases with hzero | hfour
  · rw [checkShim, if_pos hzero]
  · rw [checkShim, slice_signedWith h hheader (by omega)]
    exact hshim

end

lemma checkSignature_signedWith {scheme : Scheme} {header : StarHeader} {entries : List StarSection}
    (hsign : signature = scheme.sign (file.flagged.take file.sigStart))
    (hents : maxEagerEnd entries = maxEagerEnd file.entries) :
    checkSignature scheme.verify (file.signedWith signature) file.plgStart header entries =
    .ok () := by
  have h : signature.length = sigLen := by rw [hsign, scheme.length_sign]
  have hstart : Star.sigStart file.plgStart entries = file.sigStart := by
    rw [sigStart, Star.sigStart, hents, Star.sigStart]
  have hle := file.sigStart_le
  have hlen := file.length_lt
  have hsmall : sigLen = 64 := rfl
  have htake : (file.signedWith signature).take file.sigStart =
      file.flagged.take file.sigStart := by
    rw [signedWith, append_assoc]
    exact take_left' length_take_flagged
  have hslice : slice (file.signedWith signature) file.sigStart sigLen = signature := by
    have hmiddle := slice_middle (file.flagged.take file.sigStart) signature
      (file.flagged.drop file.sigStart)
    rwa [length_take_flagged, h] at hmiddle
  simp only [checkSignature, hstart, htake, hslice]
  split_ifs with hflag hshort hpanic hverify
  · rfl
  · rw [length_signedWith h, addU64_of_lt (by omega)] at hshort
    omega
  · rw [length_signedWith h] at hpanic
    omega
  · rfl
  · rw [hsign, scheme.verify_sign] at hverify
    exact absurd rfl hverify

end

section
variable {file} {sig : Octets}

lemma StillThere.kept {s c s' : StarSection} (hthere : file.StillThere s c)
    (hs : s ∈ file.entries) (h : sig.length = sigLen) (hsame : s'.unchecked = c.unchecked) :
    file.Kept (file.signedWith sig) file.plgStart s s' := by
  obtain ⟨hid, hencode, hmeta, -, -, -⟩ := StarSection.mk.inj hsame
  refine ⟨hid.trans hthere.id, hencode.trans hthere.encodeFlags, hmeta.trans hthere.metaFlags, ?_⟩
  rw [← readSectionBlob_unchecked, hsame, readSectionBlob_unchecked]
  obtain ⟨blob, hblob⟩ := file.readable s hs
  obtain ⟨hroom, -, heq⟩ := readSectionBlob_eq_ok_iff.mp hblob
  have hin := hthere.inside
  have hlen := file.length_lt
  have hsmall : sigLen = 64 := rfl
  have hout := @length_signedWith file _ h
  rw [hblob, readSectionBlob_eq_ok_iff, hthere.length, heq]
  refine ⟨by omega, by omega, ?_⟩
  apply ext_byteAt
  · rw [slice_length_of_le hroom, slice_length_of_le (by omega)]
  · intro i hi
    rw [slice_length_of_le hroom] at hi
    rw [byteAt_slice hi, byteAt_slice hi, byteAt_outside h (hthere.apart i hi), hthere.octets i hi]

lemma maxEagerEnd_signedWith (h : sig.length = sigLen)
    (htable : ∀ i < file.entries.length, file.entryStart i + fieldsUsed ≤ file.sigStart ∨
    file.sigStart + sigLen ≤ file.entryStart i) :
    maxEagerEnd (tableEntries (file.signedWith sig) file.plgStart file.entries.length) =
    maxEagerEnd ((List.range file.entries.length).map file.shifted) := by
  rw [← maxEagerEnd_unchecked, ← maxEagerEnd_unchecked (List.map file.shifted _)]
  congr 1
  simp only [tableEntries, map_map]
  apply map_congr_left
  intro i hi
  exact entryIn_unchecked h (htable i (mem_range.mp hi))

lemma PutBetween.keepsSections (hkeeps : file.PutBetween) : file.KeepsSections := by
  intro scheme path out hout
  rw [file.sign_eq scheme path, ok.injEq] at hout
  obtain rfl := hout
  generalize hsign : scheme.sign (file.flagged.take file.sigStart) = sig
  have h : sig.length = sigLen := by rw [← hsign, scheme.length_sign]
  have hhead := hkeeps.header
  have hsmall : starHeaderSize = 12 := rfl
  refine ⟨headerAt (file.signedWith sig) file.plgStart,
    tableEntries (file.signedWith sig) file.plgStart file.entries.length, file.plgStart,
    parseHeader_eq_ok_iff.mpr ⟨plgStartOf_signedWith h (by omega), ?_, rfl, ?_, ?_, ?_, ?_⟩, ?_⟩
  · rw [slice_signedWith h hhead (by omega)]
    exact file.parts.2.1
  · rw [headerAt_signedWith hhead, length_signedWith h]
    exact Nat.le_add_right_of_le file.parts.2.2.2.1
  · rw [headerAt_signedWith hhead, file.length_entries]
  · exact checkSignature_signedWith hsign.symm
      ((maxEagerEnd_signedWith h hkeeps.table).trans hkeeps.eager)
  · rw [headerAt_signedWith hhead]
    exact checkShim_signedWith h hhead _
  · refine forall₂_entries.mpr fun i hi => ?_
    exact (hkeeps.sections i hi).kept (entryIn_data_mem hi) h
      (entryIn_unchecked h (hkeeps.table i hi))

end

structure ReadsBack (signature : Octets) (plgStart : Nat) : Prop where
  start : plgStartOf (file.signedWith signature) = .ok plgStart
  magic : slice (file.signedWith signature) plgStart 4 = starMagic
  count : (byteAt (file.signedWith signature) (plgStart + 6)).toNat = file.entries.length
  verified : checkSignature (fun _ s => s == signature) (file.signedWith signature) plgStart
    (headerAt (file.signedWith signature) plgStart)
    (tableEntries (file.signedWith signature) plgStart file.entries.length) = .ok ()
  shim : checkShim (file.signedWith signature) plgStart
    (headerAt (file.signedWith signature) plgStart) = .ok ()
  kept : List.Forall₂ (file.Kept (file.signedWith signature) plgStart) file.entries
    (tableEntries (file.signedWith signature) plgStart file.entries.length)

def constantScheme (signature : Octets) (h : signature.length = sigLen) : Scheme where
  sign _ := signature
  verify _ s := s == signature
  length_sign _ := h
  verify_sign _ := beq_self_eq_true signature

section
variable {file} {sig : Octets}

lemma KeepsSections.readsBack (hkeeps : file.KeepsSections) (h : sig.length = sigLen) :
    ∃ plg, file.ReadsBack sig plg := by
  obtain ⟨header, entries, plg, hparse, hkept⟩ :=
    hkeeps (constantScheme sig h) "" (file.signedWith sig)
      (file.sign_eq (constantScheme sig h) "")
  obtain ⟨hstart, hmagic, rfl, -, hents, hsig, hshim⟩ := parseHeader_eq_ok_iff.mp hparse
  have hcount : (headerAt (file.signedWith sig) plg).sectionCount.toNat =
      file.entries.length := by
    have hlen := hkept.length_eq
    rw [hents, tableEntries_length] at hlen
    exact hlen.symm
  rw [hcount] at hents
  subst hents
  exact ⟨plg, hstart, hmagic, hcount, hsig, hshim, hkept⟩

lemma byteAt_mark (c : UInt8) {i : Nat} (hi : i < sigLen) : byteAt (mark c) i = c := by
  simp [byteAt, mark, hi]

lemma byteAt_marked (c : UInt8) {i : Nat} (hge : file.sigStart ≤ i)
    (hlt : i < file.sigStart + sigLen) : byteAt (file.signedWith (mark c)) i = c := by
  obtain ⟨k, rfl⟩ := Nat.exists_eq_add_of_le hge
  rw [byteAt_inside (by rw [length_mark]; omega), byteAt_mark c (by omega)]

lemma exists_ne (x : UInt8) : ∃ c : UInt8, c ≠ x := by
  refine ⟨x + 1, fun h => ?_⟩
  simp at h

lemma length_set_mark : ((mark 0).set 63 1).length = sigLen := by rw [length_set, length_mark]

lemma byteAt_two_signatures {i : Nat} (hi : i ≠ file.sigStart + 63) :
    byteAt (file.signedWith (mark 0)) i = byteAt (file.signedWith ((mark 0).set 63 1)) i := by
  by_cases hin : i < file.sigStart ∨ file.sigStart + sigLen ≤ i
  · rw [byteAt_outside (length_mark 0) hin, byteAt_outside length_set_mark hin]
  · obtain ⟨k, rfl⟩ := Nat.exists_eq_add_of_le (show file.sigStart ≤ i by omega)
    rw [byteAt_inside (by rw [length_mark]; omega), byteAt_inside (by rw [length_set_mark]; omega),
      byteAt_set_ne (by omega)]

/-- The signature is not in the shim, as two signatures would give it one hash. -/
lemma ReadsBack.start_lt {plg : Nat} (hzeros : file.ReadsBack (mark 0) plg)
    (hone : file.ReadsBack ((mark 0).set 63 1) plg) :
    plg < file.sigStart + sigLen := by
  by_contra hge
  have hsmall : sigLen = 64 := rfl
  have hle := file.sigStart_le
  have hlen := @length_signedWith file _ (length_mark 0)
  have hlength' := @length_signedWith file _ length_set_mark
  have hstored : (headerAt (file.signedWith (mark 0)) plg).shimIntegrity =
      (headerAt (file.signedWith ((mark 0).set 63 1)) plg).shimIntegrity := by
    apply readU32Le_congr
    intro i hi
    rw [byteAt_drop, byteAt_drop, byteAt_two_signatures (by omega)]
  have hhash := fnv1a_of_checkShim (by omega) hzeros.shim
  rw [hstored, ← fnv1a_of_checkShim (by omega) hone.shim] at hhash
  have hsize : (slice (file.signedWith (mark 0)) 4 (plg - 4)).length =
      min (plg - 4) (file.data.length + sigLen - 4) := by rw [slice_length, hlen]
  have heq : byteAt (slice (file.signedWith (mark 0)) 4 (plg - 4)) (file.sigStart + 59) =
      byteAt (slice (file.signedWith ((mark 0).set 63 1)) 4 (plg - 4))
        (file.sigStart + 59) := by
    refine byteAt_eq_of_fnv1a (by rw [hsize, slice_length, hlength']) (by omega) ?_ hhash
    intro i hi hne
    rw [byteAt_slice (by omega), byteAt_slice (by omega), byteAt_two_signatures (by omega)]
  have hindex : 4 + (file.sigStart + 59) = file.sigStart + 63 := by omega
  rw [byteAt_slice (by omega), byteAt_slice (by omega), hindex,
    byteAt_marked 0 (by omega) (by omega), byteAt_inside (by decide)] at heq
  exact absurd heq (by decide)

lemma ReadsBack.magic_apart {plg : Nat} (hzeros : file.ReadsBack (mark 0) plg)
    (hlt : plg < file.sigStart + sigLen) : plg + 4 ≤ file.sigStart := by
  have hmagic : ∀ i < 4, byteAt starMagic i ≠ 0 := by decide
  have hsmall : sigLen = 64 := rfl
  by_contra hge
  obtain ⟨k, hk⟩ := Nat.exists_eq_add_of_le (Nat.le_max_right file.sigStart plg)
  have hfour : k < 4 := by omega
  apply hmagic k hfour
  rw [← hzeros.magic, byteAt_slice hfour, ← hk]
  exact byteAt_marked 0 (Nat.le_max_left _ _) (by omega)

section
variable (hkeeps : file.KeepsSections)
include hkeeps

lemma KeepsSections.magic_le : file.plgStart + 4 ≤ file.sigStart := by
  obtain ⟨start, hzeros⟩ := hkeeps.readsBack (length_mark 0)
  obtain ⟨start', hone⟩ := hkeeps.readsBack length_set_mark
  have hlengths : (file.signedWith ((mark 0).set 63 1)).length ≤
      (file.signedWith (mark 0)).length := by
    rw [length_signedWith (length_mark 0), length_signedWith length_set_mark]
  have hsame : start' = start := by
    have hstart := plgStartOf_congr hlengths (fun i hi => byteAt_two_signatures (by omega))
      hone.start
    rw [hzeros.start] at hstart
    exact (ok.inj hstart).symm
  subst hsame
  have hmagic := hzeros.magic_apart (hzeros.start_lt hone)
  have hown := @plgStartOf_signedWith file _ (length_mark 0) (by omega)
  rw [hzeros.start, ok.injEq] at hown
  omega

lemma KeepsSections.readsBack_own
    (h : sig.length = sigLen) : file.ReadsBack sig file.plgStart := by
  have hle := hkeeps.magic_le
  obtain ⟨start, hreads⟩ := hkeeps.readsBack h
  have hown := @plgStartOf_signedWith file _ h (by omega)
  rw [hreads.start, ok.injEq] at hown
  rwa [hown] at hreads

lemma KeepsSections.count_le : file.plgStart + 7 ≤ file.sigStart := by
  have hle := hkeeps.magic_le
  have hsmall : sigLen = 64 := rfl
  by_contra hlt
  obtain ⟨c, hc⟩ := exists_ne (UInt8.ofNat file.entries.length)
  have hcount := (hkeeps.readsBack_own (length_mark c)).count
  rw [byteAt_marked c (by omega) (by omega)] at hcount
  apply hc
  rw [← hcount, UInt8.ofNat_toNat]

section
variable {i : Nat}

lemma KeepsSections.kept (h : sig.length = sigLen) (hi : i < file.entries.length) :
    file.Kept (file.signedWith sig) file.plgStart (file.entryIn file.data i)
      (file.entryIn (file.signedWith sig) i) :=
  forall₂_entries.mp (hkeeps.readsBack_own h).kept i hi

lemma KeepsSections.id_apart (hi : i < file.entries.length)
    (hge : file.sigStart ≤ file.entryStart i) : file.sigStart + sigLen ≤ file.entryStart i := by
  by_contra hlt
  obtain ⟨c, hc⟩ := exists_ne (file.entryIn file.data i).id
  apply hc
  rw [← (hkeeps.kept (length_mark c) hi).id]
  have hid : (file.entryIn (file.signedWith (mark c)) i).id =
      byteAt (file.signedWith (mark c)) (file.entryStart i) := byteAt_drop _ _ _
  rw [hid, byteAt_marked c hge (by omega)]

/-- The signature does not begin inside the fields, as the length could be too large. -/
lemma KeepsSections.fields_apart (hi : i < file.entries.length)
    (hlt : file.entryStart i < file.sigStart) :
    file.entryStart i + fieldsUsed ≤ file.sigStart := by
  by_contra hcut
  simp only [fieldsUsed] at hcut
  have hsmall : sigLen = 64 := rfl
  have hkept := hkeeps.kept (length_mark 255) hi
  obtain ⟨blob, hblob⟩ := file.readable _ (entryIn_data_mem hi)
  have hread := readSectionBlob_eq_ok_iff.mp (hkept.blob.trans hblob)
  rw [length_signedWith (length_mark 255)] at hread
  have hlen := file.length_lt
  have hlarge : 255 * 2 ^ 56 ≤ (file.entryIn (file.signedWith (mark 255)) i).length.toNat := by
    have htop : byteAt (((file.signedWith (mark 255)).drop (file.entryStart i)).drop 16) 7 =
        255 := by
      rw [byteAt_drop, byteAt_drop]
      exact byteAt_marked 255 (by omega) (by omega)
    change _ ≤ (readU64Le (((file.signedWith (mark 255)).drop (file.entryStart i)).drop 16)).toNat
    rw [readU64Le_toNat, htop]
    exact Nat.le_add_left _ _
  omega

end

lemma KeepsSections.header_le : file.plgStart + starHeaderSize ≤ file.sigStart := by
  have hcount := hkeeps.count_le
  have hsmall : starHeaderSize = 12 := rfl
  have hlen : sigLen = 64 := rfl
  have hlength := file.length_lt
  have hsize := file.header_le
  rcases Nat.eq_zero_or_pos file.entries.length with hzero | hpos
  · have hstart : file.sigStart = file.plgStart := by
      have hnil : (maxEagerEnd []).toNat = 0 := rfl
      rw [sigStart, Star.sigStart, length_eq_zero_iff.mp hzero, hnil,
        addU64_of_lt (by omega), Nat.add_zero]
    omega
  · by_contra hlt
    have hfirst : file.entryStart 0 = file.plgStart + starHeaderSize := by
      rw [entryStart, Nat.zero_mul, Nat.add_zero]
    have hapart := hkeeps.id_apart hpos (by omega)
    omega

lemma KeepsSections.table_apart {i : Nat}
    (hi : i < file.entries.length) : file.entryStart i + fieldsUsed ≤ file.sigStart ∨
    file.sigStart + sigLen ≤ file.entryStart i := by
  rcases Nat.lt_or_ge (file.entryStart i) file.sigStart with hlt | hge
  · exact .inl (hkeeps.fields_apart hi hlt)
  · exact .inr (hkeeps.id_apart hi hge)

lemma KeepsSections.slice_eq (h : sig.length = sigLen)
    {i : Nat} (hi : i < file.entries.length) {s s' : StarSection}
    (hs : s = file.entryIn file.data i) (hs' : s' = file.shifted i) :
    addU64 file.plgStart s'.offset.toNat + s'.length.toNat ≤ (file.signedWith sig).length ∧
    slice (file.signedWith sig) (addU64 file.plgStart s'.offset.toNat) s'.length.toNat =
    slice file.data (addU64 file.plgStart s.offset.toNat) s.length.toNat ∧
    s'.length = s.length := by
  subst hs
  obtain ⟨blob, hblob⟩ := file.readable _ (entryIn_data_mem hi)
  have hread := (hkeeps.kept h hi).blob.trans hblob
  rw [← readSectionBlob_unchecked, entryIn_unchecked h (hkeeps.table_apart hi), ← hs',
    readSectionBlob_unchecked] at hread
  obtain ⟨hle, -, heq⟩ := readSectionBlob_eq_ok_iff.mp hread
  obtain ⟨hle', -, heq'⟩ := readSectionBlob_eq_ok_iff.mp hblob
  refine ⟨hle, heq.symm.trans heq', UInt64.toNat_inj.mp ?_⟩
  rw [← slice_length_of_le hle, ← slice_length_of_le hle', ← heq, ← heq']

lemma KeepsSections.stillThere {i : Nat} (hi : i < file.entries.length) :
    file.StillThere (file.entryIn file.data i) (file.shifted i) := by
  have hkept := hkeeps.kept (length_mark 0) hi
  obtain ⟨hid, hencode, hmeta, -, -, -⟩ :=
    StarSection.mk.inj (entryIn_unchecked (length_mark 0) (hkeeps.table_apart hi))
  have hslice : ∀ c, _ := fun c => hkeeps.slice_eq (length_mark c) hi rfl rfl
  obtain ⟨hinside, -, hlen⟩ := hslice 0
  rw [hlen, length_signedWith (length_mark 0)] at hinside
  have hoctet : ∀ c, ∀ k < (file.entryIn file.data i).length.toNat,
      byteAt (file.signedWith (mark c))
        (addU64 file.plgStart (file.shifted i).offset.toNat + k) =
      byteAt file.data (addU64 file.plgStart (file.entryIn file.data i).offset.toNat + k) := by
    intro c k hk
    have hbyte := congrArg (byteAt · k) (hslice c).2.1
    rw [hlen] at hbyte
    simpa only [byteAt_slice hk] using hbyte
  -- an octet of the section that is in the signature would be any octet
  have hapart : ∀ k < (file.entryIn file.data i).length.toNat,
      addU64 file.plgStart (file.shifted i).offset.toNat + k < file.sigStart ∨
        file.sigStart + sigLen ≤ addU64 file.plgStart (file.shifted i).offset.toNat + k := by
    intro k hk
    by_contra hin
    rw [not_or, not_lt, not_le] at hin
    obtain ⟨c, hc⟩ := exists_ne (byteAt file.data
      (addU64 file.plgStart (file.entryIn file.data i).offset.toNat + k))
    apply hc
    rw [← hoctet c k hk, byteAt_marked c hin.1 hin.2]
  refine ⟨hid.symm.trans hkept.id, hencode.symm.trans hkept.encodeFlags,
    hmeta.symm.trans hkept.metaFlags, hlen, hinside, hapart, fun k hk => ?_⟩
  rw [← byteAt_outside (length_mark 0) (hapart k hk), hoctet 0 k hk]

end

lemma or_starFlagSigned (flags : UInt8) : (flags ||| starFlagSigned) &&& starFlagSigned ≠ 0 := by
  intro h
  have hbit := congrArg (fun flags : UInt8 => flags.toBitVec.getLsbD 0) h
  simp [starFlagSigned] at hbit

lemma KeepsSections.slice_found (hkeeps : file.KeepsSections) (h : sig.length = sigLen)
    {start : Nat} (hstart : Star.sigStart file.plgStart
      ((List.range file.entries.length).map file.shifted) = start) :
    start + sigLen ≤ file.data.length + sigLen ∧
    slice (file.signedWith sig) start sigLen = sig := by
  have hverified := (hkeeps.readsBack_own h).verified
  have hhead := hkeeps.header_le
  have hlen := file.length_lt
  have hsmall : sigLen = 64 := rfl
  have hfound : Star.sigStart file.plgStart
      (tableEntries (file.signedWith sig) file.plgStart file.entries.length) = start := by
    rw [Star.sigStart, maxEagerEnd_signedWith h fun i hi => hkeeps.table_apart hi]
    exact hstart
  rw [checkSignature, headerAt_signedWith hhead, if_neg (or_starFlagSigned _)] at hverified
  simp only [hfound] at hverified
  obtain ⟨hshort, hverified⟩ := guard_eq_ok hverified
  obtain ⟨hpanic, hverified⟩ := guard_eq_ok hverified
  rw [length_signedWith h] at hshort hpanic
  rw [addU64_of_lt (by omega)] at hshort
  refine ⟨by omega, ?_⟩
  by_contra hne
  rw [if_neg (by simpa using hne)] at hverified
  cases hverified

/-- It is looked for where it is, or its first or last octet would be one of the file. -/
lemma KeepsSections.found (hkeeps : file.KeepsSections) :
    Star.sigStart file.plgStart ((List.range file.entries.length).map file.shifted) =
    file.sigStart := by
  generalize hstart : Star.sigStart file.plgStart _ = start
  have hsmall : sigLen = 64 := rfl
  have hoctet : ∀ c : UInt8, ∀ k < sigLen, byteAt (file.signedWith (mark c)) (start + k) = c := by
    intro c k hk
    rw [← byteAt_slice hk, (hkeeps.slice_found (length_mark c) hstart).2, byteAt_mark c hk]
  have hin : ∀ k < sigLen,
      ¬ (start + k < file.sigStart ∨ file.sigStart + sigLen ≤ start + k) := by
    intro k hk hout
    obtain ⟨c, hc⟩ := exists_ne (byteAt file.flagged (file.origin (start + k)))
    apply hc
    rw [← hoctet c k hk]
    exact byteAt_outside (length_mark c) hout
  have hfirst := hin 0 (by decide)
  have hlast := hin 63 (by decide)
  omega

lemma KeepsSections.eager (hkeeps : file.KeepsSections) :
    maxEagerEnd ((List.range file.entries.length).map file.shifted) =
    maxEagerEnd file.entries := by
  have hfound := hkeeps.found
  have hlt := (maxEagerEnd ((List.range file.entries.length).map file.shifted)).toNat_lt
  have hlt' := (maxEagerEnd file.entries).toNat_lt
  rw [sigStart, Star.sigStart, Star.sigStart, addU64, addU64] at hfound
  apply UInt64.toNat_inj.mp
  omega

lemma KeepsSections.putBetween (hkeeps : file.KeepsSections) : file.PutBetween where
  header := hkeeps.header_le
  table _ hi := hkeeps.table_apart hi
  eager := hkeeps.eager
  sections _ hi := hkeeps.stillThere hi

end

end UnsignedFile

def oneOctetMetadata : StarSection where
  id := secMetadata
  encodeFlags := 0
  metaFlags := 0
  offset := 524
  length := 1
  crc32 := 0

def oneOctetWebkit : StarSection where
  id := secWebkit
  encodeFlags := 0
  metaFlags := metaFlagDeferred
  offset := 525
  length := 1
  crc32 := 0

def twoSectionHeader : StarHeader where
  versionMajor := 2
  versionMinor := 0
  sectionCount := 2
  starFlags := 0
  shimIntegrity := 0

/-- A file without a shim whose second section is behind the place of the signature. -/
def deferredWebkit : UnsignedFile where
  data := twoSectionHeader.toBytes ++ oneOctetMetadata.toBytes ++ oneOctetWebkit.toBytes ++ [5, 9]
  header := twoSectionHeader
  entries := [oneOctetMetadata, oneOctetWebkit]
  plgStart := 0
  length_lt := by decide +kernel
  parsed := ⟨fun _ _ => false, by decide +kernel⟩
  unsigned := by decide
  readable := by
    simp only [forall_mem_cons, not_mem_nil, false_implies, implies_true, and_true]
    exact ⟨⟨[5], by decide +kernel⟩, ⟨[9], by decide +kernel⟩⟩

end Millennium.Star
