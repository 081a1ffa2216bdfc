import Millennium.Star.Format

/-!
# Obfuscation and block parity

The packer appends to each block of 64 bytes a trailer of 12: the xor of the block, a rolling FNV-1a
state over those xors, and the block index. The loader checks and drops the trailers.
-/

namespace Millennium.Star

open Bytes List UInt8

def starXorDecode (data : Octets) : Octets :=
  data.mapIdx fun i b => b ^^^ (starXorKey ^^^ ofNat (i &&& 0xFF))

def xorObfuscate (data : Octets) : Octets :=
  data.mapIdx fun i b => b ^^^ (starXorKey ^^^ ofNat i)

lemma ofNat_and_255 (i : Nat) : ofNat (i &&& 0xFF) = ofNat i := by
  apply UInt8.toNat_inj.mp
  rw [toNat_ofNat', toNat_ofNat', show (0xFF : Nat) = 2 ^ 8 - 1 from rfl,
    Nat.and_two_pow_sub_one_eq_mod, Nat.mod_mod]

lemma starXorDecode_xorObfuscate (data : Octets) : starXorDecode (xorObfuscate data) = data := by
  simp only [starXorDecode, xorObfuscate, ofNat_and_255]
  apply ext_getElem
  · simp
  · intro i h₁ h₂
    simp only [getElem_mapIdx]
    rw [UInt8.xor_assoc, UInt8.xor_self, UInt8.xor_zero]

/-- `fnv1a_u32` of the loader: the four octets of a word, low octet first. -/
def fnv1aU32 (state value : UInt32) : UInt32 :=
  let state := fnv1aStep state (value &&& 0xFF).toUInt8
  let state := fnv1aStep state ((value >>> 8) &&& 0xFF).toUInt8
  let state := fnv1aStep state ((value >>> 16) &&& 0xFF).toUInt8
  fnv1aStep state ((value >>> 24) &&& 0xFF).toUInt8

/-- `fnv1a_u32` of the packer, over `value.to_le_bytes()`. -/
def fnv1aU32Le (state value : UInt32) : UInt32 :=
  (leBytes 4 value.toNat).foldl fnv1aStep state

lemma fnv1aU32Le_eq (state value : UInt32) : fnv1aU32Le state value = fnv1aU32 state value := by
  have hoctet (v : UInt32) (k : Nat) (hk : k < 32) :
      ((v >>> UInt32.ofNat k) &&& 0xFF).toUInt8 = ofNat (v.toNat / 2 ^ k) := by
    have hkn : (UInt32.ofNat k).toNat % 32 = k := by
      rw [UInt32.toNat_ofNat']
      omega
    apply UInt8.toNat_inj.mp
    rw [UInt32.toNat_toUInt8, UInt32.toNat_and, UInt32.toNat_shiftRight, hkn,
      show (0xFF : UInt32).toNat = 2 ^ 8 - 1 from rfl, Nat.and_two_pow_sub_one_eq_mod,
      Nat.shiftRight_eq_div_pow, toNat_ofNat', Nat.mod_mod]
  have h₀ := hoctet value 0 (by decide)
  have h₁ := hoctet value 8 (by decide)
  have h₂ := hoctet value 16 (by decide)
  have h₃ := hoctet value 24 (by decide)
  have hs : value >>> UInt32.ofNat 0 = value := by simp
  rw [hs] at h₀
  simp only [fnv1aU32Le, leBytes, Nat.div_div_eq_div_mul]
  change fnv1aStep (fnv1aStep (fnv1aStep (fnv1aStep state _) _) _) _ =
    fnv1aStep (fnv1aStep (fnv1aStep (fnv1aStep state _) (value >>> UInt32.ofNat 8 &&& 255).toUInt8)
      (value >>> UInt32.ofNat 16 &&& 255).toUInt8)
      (value >>> UInt32.ofNat 24 &&& 255).toUInt8
  rw [h₀, h₁, h₂, h₃]
  simp

def xorCheck (chunk : Octets) : UInt32 := chunk.foldl (fun acc b => acc ^^^ b.toUInt32) 0

def parityTrailer (check rolling blockIndex : UInt32) : Octets :=
  leBytes 4 check.toNat ++ (leBytes 4 rolling.toNat ++ leBytes 4 blockIndex.toNat)

@[simp] lemma parityTrailer_length (check roll blockIndex : UInt32) :
    (parityTrailer check roll blockIndex).length = 12 := by
  simp [parityTrailer]

def weaveFrom (rolling blockIndex : UInt32) (data : Octets) : Octets :=
  if data = [] then []
  else
    let chunk := data.take starStride
    let check := xorCheck chunk
    let rolling := fnv1aU32Le rolling check
    chunk ++ parityTrailer check rolling blockIndex ++
      weaveFrom rolling (blockIndex + 1) (data.drop starStride)
termination_by data.length
decreasing_by
  have := length_pos_of_ne_nil ‹_›
  simp only [length_drop, starStride]
  omega

def weaveParity (data : Octets) : Octets := weaveFrom starParitySeed 0 data

/-- The loop of `star_strip_parity`. A block ends after a stride, or `12` bytes before the end. -/
def stripFrom (rolling expectedIdx : UInt32) (woven : Octets) : Except Fault Octets :=
  if woven = [] then .ok []
  else if woven.length < 12 then
    .error (.runtimeError s!"truncated parity stream at block {expectedIdx.toNat}")
  else
    let dataEnd := min starStride (woven.length - 12)
    let chunk := woven.take dataEnd
    let pb := woven.drop dataEnd
    let storedXor := readU32Le pb
    let storedRoll := readU32Le (pb.drop 4)
    let storedIndex := readU32Le (pb.drop 8)
    let check := xorCheck chunk
    let expectedRoll := fnv1aU32 rolling check
    if storedXor ≠ check then
      .error (.runtimeError s!"parity xor mismatch at block {expectedIdx.toNat}")
    else if storedRoll ≠ expectedRoll then
      .error (.runtimeError s!"parity chain broken at block {expectedIdx.toNat}")
    else if storedIndex ≠ expectedIdx then
      .error (.runtimeError s!"parity block reordered at block {expectedIdx.toNat}")
    else
      (stripFrom expectedRoll (expectedIdx + 1) (woven.drop (dataEnd + 12))).map (chunk ++ ·)
termination_by woven.length
decreasing_by
  have := length_pos_of_ne_nil ‹_›
  simp only [length_drop, starStride]
  omega

def starStripParity (woven : Octets) : Except Fault Octets := stripFrom starParitySeed 0 woven

lemma weaveFrom_nil (roll blockIndex : UInt32) : weaveFrom roll blockIndex [] = [] := by
  rw [weaveFrom]
  simp

/-- What is read at the start of a stream: a block, the words of its trailer, and the rest. -/
structure ReadsBlock (woven chunk tail : Octets) (check roll idx : UInt32) : Prop where
  ne_nil : woven ≠ []
  long : 12 ≤ woven.length
  stop : min starStride (woven.length - 12) = chunk.length
  take_eq : woven.take chunk.length = chunk
  xor_eq : readU32Le (woven.drop chunk.length) = check
  roll_eq : readU32Le ((woven.drop chunk.length).drop 4) = roll
  index_eq : readU32Le ((woven.drop chunk.length).drop 8) = idx
  drop_eq : woven.drop (chunk.length + 12) = tail

lemma readsBlock_append (check roll idx : UInt32) (chunk tail : Octets)
    (hend : min starStride (chunk.length + tail.length) = chunk.length) :
    ReadsBlock (chunk ++ parityTrailer check roll idx ++ tail) chunk tail check roll idx := by
  generalize htr : parityTrailer check roll idx = trailer
  have htrl : trailer.length = 12 := by simp [← htr]
  have hlen : (chunk ++ trailer ++ tail).length = chunk.length + 12 + tail.length := by
    rw [length_append, length_append, htrl]
  have hpb : (chunk ++ trailer ++ tail).drop chunk.length = trailer ++ tail := by
    rw [append_assoc, drop_left]
  refine
    { ne_nil := ?_
      long := by omega
      stop := ?_
      take_eq := by rw [append_assoc, take_left]
      xor_eq := ?_
      roll_eq := ?_
      index_eq := ?_
      drop_eq := by rw [← htrl, ← length_append, drop_left] }
  · intro h
    rw [h, length_nil] at hlen
    omega
  · rw [← hend]
    omega
  · rw [hpb, ← htr, parityTrailer, append_assoc, readU32Le_leBytes]
  · rw [hpb, ← htr, parityTrailer, append_assoc, drop_left' (leBytes_length _ _),
      append_assoc, readU32Le_leBytes]
  · rw [hpb, show 8 = 4 + 4 from rfl, ← drop_drop, ← htr, parityTrailer, append_assoc,
      drop_left' (leBytes_length _ _), append_assoc,
      drop_left' (leBytes_length _ _), readU32Le_leBytes]

lemma stripFrom_block (roll idx : UInt32) (chunk tail : Octets)
    (hend : min starStride (chunk.length + tail.length) = chunk.length) :
    stripFrom roll idx
        (chunk ++ parityTrailer (xorCheck chunk) (fnv1aU32 roll (xorCheck chunk)) idx ++ tail) =
    (stripFrom (fnv1aU32 roll (xorCheck chunk)) (idx + 1) tail).map (chunk ++ ·) := by
  have hreads := readsBlock_append (xorCheck chunk) (fnv1aU32 roll (xorCheck chunk)) idx chunk
    tail hend
  rw [stripFrom, if_neg hreads.ne_nil, if_neg (Nat.not_lt.mpr hreads.long)]
  simp only [hreads.stop, hreads.take_eq, hreads.drop_eq, hreads.xor_eq, hreads.roll_eq,
    hreads.index_eq, ne_eq, not_true_eq_false, if_false]

lemma weaveFrom_end (roll idx : UInt32) (data : Octets) :
    min starStride ((data.take starStride).length +
    (weaveFrom roll idx (data.drop starStride)).length) = (data.take starStride).length := by
  by_cases hlong : starStride ≤ data.length
  · rw [length_take]
    omega
  · rw [drop_eq_nil_of_le (by omega), weaveFrom_nil, length_nil, length_take]
    omega

lemma stripFrom_weaveFrom (roll idx : UInt32) (data : Octets) :
    stripFrom roll idx (weaveFrom roll idx data) = .ok data := by
  induction hn : data.length using Nat.strong_induction_on generalizing roll idx data with
  | _ n ih =>
    by_cases hne : data = []
    · rw [hne, weaveFrom_nil, stripFrom]
      simp
    · have hpos := length_pos_of_ne_nil hne
      have hstride : starStride = 64 := rfl
      have hrec := ih (data.drop starStride).length (by rw [length_drop]; omega)
        (fnv1aU32 roll (xorCheck (data.take starStride))) (idx + 1) _ rfl
      rw [weaveFrom, if_neg hne]
      simp only [fnv1aU32Le_eq]
      rw [stripFrom_block _ _ _ _ (weaveFrom_end _ _ _), hrec]
      simp [Except.map]

lemma starStripParity_weaveParity (data : Octets) : starStripParity (weaveParity data) = .ok data :=
  stripFrom_weaveFrom _ _ _

end Millennium.Star
