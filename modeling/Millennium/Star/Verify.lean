import Millennium.Star.Loader

/-!
# The packer's section decoder

The packer tool decodes sections as well, to verify what it has written. Its parity
check is the loader's but for one more condition: a block without data is malformed.
-/

namespace Millennium.Star

open Bytes Outcome List

inductive VerifyFault where
  | error (message : String)
  | overflow
  deriving Repr, DecidableEq

def verifyFrom (rolling expectedIndex : UInt32) (woven : Octets) : Except VerifyFault Octets :=
  if woven = [] then .ok []
  else if woven.length < 12 then
    .error (.error s!"truncated parity stream at block {expectedIndex.toNat}")
  else
    let dataEnd := min starStride (woven.length - 12)
    if dataEnd = 0 then
      .error (.error s!"malformed parity stream: zero-length chunk at block {expectedIndex.toNat}")
    else
      let chunk := woven.take dataEnd
      let parityBytes := woven.drop dataEnd
      let storedXor := readU32Le parityBytes
      let storedRoll := readU32Le (parityBytes.drop 4)
      let storedIndex := readU32Le (parityBytes.drop 8)
      let check := xorCheck chunk
      let expectedRoll := fnv1aU32Le rolling check
      if storedXor ≠ check then
        .error (.error s!"parity xor mismatch at block {expectedIndex.toNat}")
      else if storedRoll ≠ expectedRoll then
        .error (.error s!"parity chain broken at block {expectedIndex.toNat}")
      else if storedIndex ≠ expectedIndex then
        .error (.error (s!"parity block reordered at block {expectedIndex.toNat} " ++
          s!"(stored {storedIndex.toNat})"))
      else if expectedIndex.toNat + 1 = 2 ^ 32 then .error .overflow
      else
        (verifyFrom expectedRoll (expectedIndex + 1) (woven.drop (dataEnd + 12))).map (chunk ++ ·)
termination_by woven.length
decreasing_by
  have := length_pos_of_ne_nil ‹_›
  simp only [length_drop, starStride]
  omega

def verifyAndStripParity (woven : Octets) : Except VerifyFault Octets :=
  verifyFrom starParitySeed 0 woven

/-- `decode_section` of the packer tool, with any LZ4 decoder. -/
def decodeSection (lz4 : Octets → Option Octets) (blob : Octets) (encodeFlags : UInt8) :
    Except VerifyFault Octets :=
  if encodeFlags = 0 then .ok blob
  else do
    let data := if encodeFlags &&& flagObfuscated ≠ 0 then xorObfuscate blob else blob
    let stripped ← verifyAndStripParity data
    if encodeFlags &&& flagCompressed ≠ 0 then
      orError (.error "lz4 decompress failed") (lz4 stripped)
    else .ok stripped

/-- What `star_decode_section` does with the bytes of a section, with any LZ4 decoder. -/
def starDecodeWith (lz4 : Octets → Option Octets) (blob : Octets) (encodeFlags : UInt8) :
    Option Octets :=
  if encodeFlags = 0 then some blob
  else do
    let blob := if encodeFlags &&& flagObfuscated ≠ 0 then starXorDecode blob else blob
    let stripped ← (starStripParity blob).toOption
    if encodeFlags &&& flagCompressed ≠ 0 then lz4 stripped else some stripped

lemma starDecodeWith_starDecompress (blob : Octets) (flags : UInt8) :
    starDecodeWith (fun s => (starDecompress s).toOption) blob flags =
    (starDecodeBlob flags blob).toOption := by
  by_cases hflags : flags = 0
  · simp [starDecodeWith, starDecodeBlob, hflags, Except.toOption]
  simp only [starDecodeWith, starDecodeBlob, if_neg hflags]
  generalize (if flags &&& flagObfuscated ≠ 0 then starXorDecode blob else blob) = stream
  cases hstrip : starStripParity stream with
  | error => rfl
  | ok =>
    by_cases hcomp : flags &&& flagCompressed ≠ 0
    · simp [hcomp, Except.toOption]
    · simp [hcomp]

/-- A stream of blocks that keep a condition, with their trailers. Only the last may be short. -/
inductive Blocks (P : Octets → Prop) : UInt32 → UInt32 → Octets → Octets → Prop
  | nil (rolling idx : UInt32) : Blocks P rolling idx [] []
  | block {rolling idx : UInt32} {chunk tail data : Octets} (hchunk : P chunk)
      (hend : min starStride (chunk.length + tail.length) = chunk.length)
      (htail : Blocks P (fnv1aU32 rolling (xorCheck chunk)) (idx + 1) tail data) :
      Blocks P rolling idx
        (chunk ++ parityTrailer (xorCheck chunk) (fnv1aU32 rolling (xorCheck chunk)) idx ++ tail)
        (chunk ++ data)

/-- `weave_parity` with a block without data at the end. -/
def weaveEmptyFrom (rolling blockIndex : UInt32) (data : Octets) : Octets :=
  if data = [] then parityTrailer (xorCheck []) (fnv1aU32 rolling (xorCheck [])) blockIndex
  else
    let chunk := data.take starStride
    let check := xorCheck chunk
    let rolling := fnv1aU32 rolling check
    chunk ++ parityTrailer check rolling blockIndex ++
      weaveEmptyFrom rolling (blockIndex + 1) (data.drop starStride)
termination_by data.length
decreasing_by
  have := length_pos_of_ne_nil ‹_›
  simp only [length_drop, starStride]
  omega

def weaveEmpty (data : Octets) : Octets := weaveEmptyFrom starParitySeed 0 data

section

lemma leBytes_readU32Le {p : Octets} (h : 4 ≤ p.length) :
    leBytes 4 (readU32Le p).toNat = p.take 4 := by
  match p, h with
  | a :: b :: c :: d :: rest, _ =>
    have ha := a.toNat_lt
    have hb := b.toNat_lt
    have hc := c.toNat_lt
    have hd := d.toNat_lt
    rw [readU32Le_toNat]
    simp only [byteAt, getD_cons_zero, getD_cons_succ, leBytes, take_succ_cons,
      take_zero, List.cons.injEq, and_true]
    refine ⟨?_, ?_, ?_, ?_⟩ <;>
    · apply UInt8.toNat_inj.mp
      rw [UInt8.toNat_ofNat']
      omega

lemma parityTrailer_read {p : Octets} (h : 12 ≤ p.length) :
    parityTrailer (readU32Le p) (readU32Le (p.drop 4)) (readU32Le (p.drop 8)) = p.take 12 := by
  rw [parityTrailer, leBytes_readU32Le (by omega), leBytes_readU32Le (by simp; omega),
    leBytes_readU32Le (by simp; omega), show 12 = 4 + (4 + 4) from rfl, take_add,
    take_add, drop_drop]

lemma split_block {woven : Octets} {n : Nat} (h : n + 12 ≤ woven.length) :
    woven = woven.take n ++ parityTrailer (readU32Le (woven.drop n))
      (readU32Le ((woven.drop n).drop 4)) (readU32Le ((woven.drop n).drop 8)) ++
    woven.drop (n + 12) := by
  rw [parityTrailer_read (by rw [length_drop]; omega), ← drop_drop, append_assoc,
    take_append_drop, take_append_drop]

end

section
variable {P : Octets → Prop} {roll idx : UInt32} {woven data chunk tail : Octets}

lemma Blocks.mono {Q : Octets → Prop} (hPQ : ∀ chunk, P chunk → Q chunk)
    (h : Blocks P roll idx woven data) : Blocks Q roll idx woven data := by
  induction h with
  | nil roll idx => exact .nil roll idx
  | block hchunk hend _ ih => exact .block (hPQ _ hchunk) hend ih

lemma Blocks.eq_nil (h : Blocks P roll idx [] data) : data = [] := by
  generalize hwoven : ([] : Octets) = woven at h
  cases h with
  | nil => rfl
  | block =>
    have hlen := congrArg List.length hwoven
    simp only [length_nil, length_append, parityTrailer_length] at hlen
    omega

lemma full_or_last (hend : min starStride (chunk.length + tail.length) = chunk.length) :
    chunk.length = starStride ∨ chunk.length < starStride ∧ tail = [] := by
  by_cases hfull : chunk.length = starStride
  · exact .inl hfull
  · refine .inr ⟨by omega, eq_nil_of_length_eq_zero (by omega)⟩

lemma Blocks.of_checks {n : Nat} (hn : min starStride (woven.length - 12) = n)
    (hlong : 12 ≤ woven.length) (hchunk : P (woven.take n))
    (hxor : readU32Le (woven.drop n) = xorCheck (woven.take n))
    (hroll : readU32Le ((woven.drop n).drop 4) = fnv1aU32 roll (xorCheck (woven.take n)))
    (hindex : readU32Le ((woven.drop n).drop 8) = idx)
    (htail : Blocks P (fnv1aU32 roll (xorCheck (woven.take n))) (idx + 1)
      (woven.drop (n + 12)) data) :
    Blocks P roll idx woven (woven.take n ++ data) := by
  have hsplit : woven = _ := split_block (n := n) (by omega)
  rw [hxor, hroll, hindex] at hsplit
  have hend : min starStride ((woven.take n).length + (woven.drop (n + 12)).length) =
      (woven.take n).length := by
    rw [length_take, length_drop]
    omega
  have hblock := Blocks.block hchunk hend htail
  rwa [← hsplit] at hblock

lemma Blocks.eq_nil_or_length_lt (h : Blocks P roll idx woven data) :
    woven = [] ∨ data.length < woven.length := by
  induction h with
  | nil => exact .inl rfl
  | block hchunk hend htail ih =>
    simp only [length_append, parityTrailer_length]
    obtain rfl | hlt := ih
    · rw [htail.eq_nil]
      omega
    · omega

lemma stripFrom_eq_ok_iff :
    stripFrom roll idx woven = .ok data ↔ Blocks (fun _ => True) roll idx woven data := by
  constructor
  · intro h
    fun_induction stripFrom roll idx woven generalizing data with
    | case1 roll idx =>
      cases h
      exact .nil roll idx
    | case6 =>
      rename_i hxor hroll hindex ih
      obtain ⟨rest, hrest, rfl⟩ := map_eq_ok_iff.mp h
      exact .of_checks rfl (by omega) trivial (not_not.mp hxor) (not_not.mp hroll)
        (not_not.mp hindex) (ih hrest)
    | _ => cases h
  · intro h
    induction h with
    | nil => simp [stripFrom]
    | block _ hend _ ih =>
      rw [stripFrom_block _ _ _ _ hend, ih]
      rfl

lemma verifyFrom_block (hchunk : chunk ≠ [])
    (hend : min starStride (chunk.length + tail.length) = chunk.length)
    (hidx : idx.toNat + 1 < 2 ^ 32) :
    verifyFrom roll idx
        (chunk ++ parityTrailer (xorCheck chunk) (fnv1aU32 roll (xorCheck chunk)) idx ++ tail) =
    (verifyFrom (fnv1aU32 roll (xorCheck chunk)) (idx + 1) tail).map (chunk ++ ·) := by
  have hreads := readsBlock_append (xorCheck chunk) (fnv1aU32 roll (xorCheck chunk)) idx chunk
    tail hend
  have hpos : chunk.length ≠ 0 := Nat.ne_of_gt (length_pos_of_ne_nil hchunk)
  rw [verifyFrom, if_neg hreads.ne_nil, if_neg (Nat.not_lt.mpr hreads.long)]
  simp only [hreads.stop, hreads.take_eq, hreads.drop_eq, hreads.xor_eq, hreads.roll_eq,
    hreads.index_eq, fnv1aU32Le_eq, hpos, Nat.ne_of_lt hidx, ne_eq, not_true_eq_false, if_false]

lemma verifyFrom_eq_ok_iff (hidx : idx.toNat + woven.length < 2 ^ 32) :
    verifyFrom roll idx woven = .ok data ↔ Blocks (· ≠ []) roll idx woven data := by
  constructor
  · intro h
    clear hidx
    fun_induction verifyFrom roll idx woven generalizing data with
    | case1 roll idx =>
      cases h
      exact .nil roll idx
    | case8 =>
      rename_i roll _ _ _ _ _ _ _ _ _ _ _ check expectedRoll hxor hroll hindex _ ih
      obtain ⟨rest, hrest, rfl⟩ := map_eq_ok_iff.mp h
      have hroll' : expectedRoll = fnv1aU32 roll check := fnv1aU32Le_eq roll check
      have htail := ih hrest
      rw [hroll'] at htail
      refine .of_checks rfl (by omega) ?_ (not_not.mp hxor)
        ((not_not.mp hroll).trans hroll') (not_not.mp hindex) htail
      apply ne_nil_of_length_pos
      rw [length_take]
      omega
    | _ => cases h
  · intro h
    induction h with
    | nil => simp [verifyFrom]
    | block hchunk hend _ ih =>
      simp only [length_append, parityTrailer_length] at hidx
      rw [verifyFrom_block hchunk hend (by omega), ih ?_]
      · rfl
      · rw [UInt32.toNat_add, UInt32.toNat_one]
        omega

lemma weaveFrom_append (hchunk : chunk ≠ [])
    (hend : chunk.length = starStride ∨ chunk.length < starStride ∧ data = []) :
    weaveFrom roll idx (chunk ++ data) =
    chunk ++ parityTrailer (xorCheck chunk) (fnv1aU32 roll (xorCheck chunk)) idx ++
    weaveFrom (fnv1aU32 roll (xorCheck chunk)) (idx + 1) data := by
  have hne : chunk ++ data ≠ [] := append_ne_nil_of_left_ne_nil hchunk data
  have hsplit : (chunk ++ data).take starStride = chunk ∧ (chunk ++ data).drop starStride = data := by
    obtain hfull | ⟨hshort, rfl⟩ := hend
    · rw [← hfull]
      exact ⟨take_left, drop_left⟩
    · rw [append_nil]
      exact ⟨take_of_length_le hshort.le, drop_eq_nil_of_le hshort.le⟩
  rw [weaveFrom, if_neg hne]
  simp only [hsplit.1, hsplit.2, fnv1aU32Le_eq]

lemma weaveEmptyFrom_append (hfull : chunk.length = starStride) :
    weaveEmptyFrom roll idx (chunk ++ data) =
    chunk ++ parityTrailer (xorCheck chunk) (fnv1aU32 roll (xorCheck chunk)) idx ++
    weaveEmptyFrom (fnv1aU32 roll (xorCheck chunk)) (idx + 1) data := by
  have hne : chunk ++ data ≠ [] := by
    intro h
    have hlen := congrArg List.length h
    simp [hfull, starStride] at hlen
  rw [weaveEmptyFrom, if_neg hne]
  simp only [← hfull, take_left, drop_left]

lemma weaveEmptyFrom_ne_nil : weaveEmptyFrom roll idx data ≠ [] := by
  rw [weaveEmptyFrom]
  intro h
  have hlen := congrArg List.length h
  split_ifs at hlen <;> simp at hlen

lemma blockwise_induction {motive : Octets → Prop} (nil : motive [])
    (block : ∀ chunk data, chunk.length = starStride → motive data → motive (chunk ++ data))
    (data : Octets) (hdvd : starStride ∣ data.length) : motive data := by
  obtain ⟨n, hn⟩ := hdvd
  induction n generalizing data with
  | zero =>
    obtain rfl := eq_nil_of_length_eq_zero hn
    exact nil
  | succ n ih =>
    have hlen : (data.take starStride).length = starStride :=
      length_take_of_le (by rw [hn]; exact Nat.le_mul_of_pos_right _ n.succ_pos)
    have htail := ih (data.drop starStride)
      (by rw [length_drop, hn, Nat.mul_succ]; omega)
    rw [← take_append_drop starStride data]
    exact block _ _ hlen htail

lemma length_weaveEmptyFrom (hdvd : starStride ∣ data.length) :
    (weaveEmptyFrom roll idx data).length = (weaveFrom roll idx data).length + 12 := by
  revert roll idx
  apply blockwise_induction _ _ data hdvd
  · intro roll idx
    rw [weaveEmptyFrom, if_pos rfl, weaveFrom_nil, parityTrailer_length, length_nil]
  · intro chunk data hfull ih roll idx
    have hchunk : chunk ≠ [] := by
      apply ne_nil_of_length_pos
      rw [hfull]
      decide
    simp only [weaveEmptyFrom_append hfull, weaveFrom_append hchunk (.inl hfull),
      length_append, ih]
    omega

lemma blocks_ne_nil_iff :
    Blocks (· ≠ []) roll idx woven data ↔ woven = weaveFrom roll idx data := by
  constructor
  · intro h
    induction h with
    | nil roll idx => exact (weaveFrom_nil roll idx).symm
    | block hchunk hend htail ih =>
      rw [weaveFrom_append hchunk, ← ih]
      obtain hfull | ⟨hshort, rfl⟩ := full_or_last hend
      · exact .inl hfull
      · exact .inr ⟨hshort, htail.eq_nil⟩
  · rintro rfl
    induction hn : data.length using Nat.strong_induction_on generalizing roll idx data with
    | _ n ih =>
      by_cases hne : data = []
      · rw [hne, weaveFrom_nil]
        exact .nil roll idx
      · have hpos := length_pos_of_ne_nil hne
        have hstride : starStride = 64 := rfl
        have htail := @ih (data.drop starStride).length (by rw [length_drop]; omega)
          (fnv1aU32 roll (xorCheck (data.take starStride))) (idx + 1) (data.drop starStride)
          rfl
        have hchunk : data.take starStride ≠ [] := by
          apply ne_nil_of_length_pos
          rw [length_take]
          omega
        have hblock := Blocks.block (P := (· ≠ [])) hchunk (weaveFrom_end _ _ _) htail
        rw [take_append_drop] at hblock
        rw [weaveFrom, if_neg hne]
        simpa only [fnv1aU32Le_eq] using hblock

lemma blocks_iff : Blocks (fun _ => True) roll idx woven data ↔
    woven = weaveFrom roll idx data ∨
    starStride ∣ data.length ∧ woven = weaveEmptyFrom roll idx data := by
  constructor
  · intro h
    induction h with
    | nil roll idx => exact .inl (weaveFrom_nil roll idx).symm
    | @block roll idx chunk tail data _ hend htail ih =>
      by_cases hchunk : chunk = []
      · subst hchunk
        have hnil : tail = [] := by
          obtain hfull | ⟨_, hnil⟩ := full_or_last hend
          · exact absurd hfull (by decide)
          · exact hnil
        subst hnil
        obtain rfl := htail.eq_nil
        refine .inr ⟨by simp, ?_⟩
        rw [append_nil, append_nil, nil_append, weaveEmptyFrom, if_pos rfl]
      · obtain hwoven | ⟨hdvd, hwoven⟩ := ih
        · refine .inl ?_
          rw [weaveFrom_append hchunk, ← hwoven]
          obtain hfull | ⟨hshort, rfl⟩ := full_or_last hend
          · exact .inl hfull
          · exact .inr ⟨hshort, htail.eq_nil⟩
        · have hfull : chunk.length = starStride := by
            obtain hfull | ⟨_, hnil⟩ := full_or_last hend
            · exact hfull
            · exact absurd (hwoven.symm.trans hnil) weaveEmptyFrom_ne_nil
          refine .inr ⟨?_, ?_⟩
          · rw [length_append, hfull]
            exact Nat.dvd_add (Nat.dvd_refl _) hdvd
          · rw [weaveEmptyFrom_append hfull, ← hwoven]
  · rintro (rfl | ⟨hdvd, rfl⟩)
    · exact (blocks_ne_nil_iff.mpr rfl).mono fun _ _ => trivial
    · revert roll idx
      apply blockwise_induction _ _ data hdvd
      · intro roll idx
        have hlast : Blocks (fun _ => True) roll idx
            ([] ++ parityTrailer (xorCheck []) (fnv1aU32 roll (xorCheck [])) idx ++ []) _ :=
          .block trivial rfl (.nil _ _)
        rw [weaveEmptyFrom]
        rwa [append_nil, nil_append] at hlast
      · intro chunk data hfull ih roll idx
        rw [weaveEmptyFrom_append hfull]
        exact .block trivial (by omega) ih

end

def deobfuscated (blob : Octets) (encodeFlags : UInt8) : Octets :=
  if encodeFlags &&& flagObfuscated ≠ 0 then xorObfuscate blob else blob

def decompressed (lz4 : Octets → Option Octets) (encodeFlags : UInt8) (stripped : Octets) :
    Option Octets :=
  if encodeFlags &&& flagCompressed ≠ 0 then lz4 stripped else some stripped

/-- The decoders succeed on the same sections, with the same bytes. -/
def DecodersAgree (lz4 : Octets → Option Octets) (blob : Octets) (encodeFlags : UInt8) : Prop :=
  starDecodeWith lz4 blob encodeFlags = (decodeSection lz4 blob encodeFlags).toOption

/-- Behind the obfuscation are whole blocks and an empty one, which can be decompressed if need be.
-/
def EndsInEmptyBlock (lz4 : Octets → Option Octets) (blob : Octets) (encodeFlags : UInt8) : Prop :=
  encodeFlags ≠ 0 ∧ ∃ data, starStride ∣ data.length ∧
    deobfuscated blob encodeFlags = weaveEmpty data ∧ (decompressed lz4 encodeFlags data).isSome

section
variable {lz4 : Octets → Option Octets} {blob data : Octets} {flags : UInt8}

lemma starXorDecode_eq (blob : Octets) : starXorDecode blob = xorObfuscate blob := by
  simp only [starXorDecode, xorObfuscate, ofNat_and_255]

lemma deobfuscated_length : (deobfuscated blob flags).length = blob.length := by
  rw [deobfuscated]
  split_ifs <;> simp [xorObfuscate]

lemma starDecodeWith_eq (hflags : flags ≠ 0) : starDecodeWith lz4 blob flags =
    (starStripParity (deobfuscated blob flags)).toOption.bind
        (decompressed lz4 flags) := by
  rw [starDecodeWith, if_neg hflags, starXorDecode_eq]
  rfl

lemma decodeSection_eq (hflags : flags ≠ 0) : (decodeSection lz4 blob flags).toOption =
    (verifyAndStripParity (deobfuscated blob flags)).toOption.bind
        (decompressed lz4 flags) := by
  rw [decodeSection, if_neg hflags]
  change (verifyAndStripParity (deobfuscated blob flags) >>= _).toOption = _
  cases verifyAndStripParity (deobfuscated blob flags) with
  | error => rfl
  | ok stripped =>
    simp only [ok_bind, decompressed, Except.toOption, Option.bind_some]
    split_ifs
    · cases lz4 stripped <;> rfl
    · rfl

lemma starStripParity_eq_ok_iff {woven : Octets} : starStripParity woven = .ok data ↔
    woven = weaveParity data ∨ starStride ∣ data.length ∧ woven = weaveEmpty data :=
  stripFrom_eq_ok_iff.trans blocks_iff

lemma verifyAndStripParity_eq_ok_iff {woven : Octets} (hsize : woven.length < maxSectionSize) :
    verifyAndStripParity woven = .ok data ↔ woven = weaveParity data := by
  refine (verifyFrom_eq_ok_iff ?_).trans blocks_ne_nil_iff
  rw [maxSectionSize] at hsize
  rw [UInt32.toNat_zero]
  omega

lemma starStripParity_of_verify {woven : Octets} (hsize : woven.length < maxSectionSize)
    (h : verifyAndStripParity woven = .ok data) : starStripParity woven = .ok data :=
  starStripParity_eq_ok_iff.mpr (.inl ((verifyAndStripParity_eq_ok_iff hsize).mp h))

lemma verify_weaveEmpty_ne_ok {stripped : Octets} (hsize : (weaveEmpty data).length < maxSectionSize)
    (hdvd : starStride ∣ data.length) : verifyAndStripParity (weaveEmpty data) ≠ .ok stripped := by
  intro h
  have hempty : Blocks (fun _ => True) starParitySeed 0 (weaveEmpty data) data :=
    blocks_iff.mpr (.inr ⟨hdvd, rfl⟩)
  have hsame : stripped = data := by
    have hstrip := starStripParity_of_verify hsize h
    rw [starStripParity, stripFrom_eq_ok_iff.mpr hempty] at hstrip
    exact (Except.ok.inj hstrip).symm
  have hwoven := (verifyAndStripParity_eq_ok_iff hsize).mp h
  rw [hsame] at hwoven
  have hlen := congrArg List.length hwoven
  rw [weaveEmpty, weaveParity, length_weaveEmptyFrom hdvd] at hlen
  omega

end

end Millennium.Star
