import Millennium.Lib.LuaStrings
import Millennium.Star.Bounds
import Millennium.Star.DecompressTrace
import Millennium.Star.Verify

/-!
# The shim of a container

Every container begins with a piece of Lua that reads it once more, on strings and doubles where the
loader works on bytes and words. Its decoding functions are compared with the loader's.
-/

namespace Millennium.Star.LuaShim

open Bytes Doubles Lua Outcome List Nat UInt8

section
variable (r : Rounding)

def bxor32 (a b : ℚ) : ℚ :=
  let x := bxor a b
  if x < 0 then r.add x 4294967296 else x

def u32Le (s : Octets) (i : ℚ) : Except LuaFault ℚ := do
  let b₀ ← operand (byte s i)
  let b₁ ← operand (byte s (r.add i 1))
  let b₂ ← operand (byte s (r.add i 2))
  let b₃ ← operand (byte s (r.add i 3))
  .ok (r.add (r.add (r.add b₀ (r.mul b₁ 256)) (r.mul b₂ 65536)) (r.mul b₃ 16777216))

def xorFrom : ℕ → Octets → Except LuaFault Octets
  | _, [] => .ok []
  | i, b :: rest => do
      let c ← char (bxor32 r (bxor32 r b.toNat 0x4D) (r.mod (r.sub i 1) 256))
      let cs ← xorFrom (i + 1) rest
      .ok (c :: cs)

def xorDecode (s : Octets) : Except LuaFault Octets := xorFrom r 1 s

structure StepLocals where
  h : ℚ
  hl : ℚ
  hh : ℚ
  lo : ℚ
  mid : ℚ

def stepLocals (hash b : ℚ) : StepLocals :=
  let h := bxor32 r hash b
  let hl := r.mod h 65536
  let hh := Rounding.floor (r.div h 65536)
  let lo := r.mul hl 403
  let mid := r.add (r.add (r.mul hh 403) (r.mul hl 256)) (Rounding.floor (r.div lo 65536))
  ⟨h, hl, hh, lo, mid⟩

def fnv1aStep (hash b : ℚ) : ℚ :=
  let l := stepLocals r hash b
  r.add (r.mod l.lo 65536) (r.mul (r.mod l.mid 65536) 65536)

def fnv1aU32 (state value : ℚ) : ℚ :=
  let state := fnv1aStep r state (r.mod value 256)
  let state := fnv1aStep r state (r.mod (Rounding.floor (r.div value 256)) 256)
  let state := fnv1aStep r state (r.mod (Rounding.floor (r.div value 65536)) 256)
  fnv1aStep r state (r.mod (Rounding.floor (r.div value 16777216)) 256)

/-- The loop of `strip_parity`. A turn that does not get ahead would be repeated. -/
def stripLoop (woven : Octets) (rolling idx pos : ℚ) : Except LuaFault Octets :=
  if _hpos : pos ≤ woven.length then
    if r.add (r.sub woven.length pos) 1 < 12 then
      .error (.raised ("truncated parity stream at block " ++ numberText idx))
    else do
      let de := min (r.sub (r.add pos 64) 1) (r.sub woven.length 12)
      let chunk := sub woven pos de
      let pb := sub woven (r.add de 1) (r.add de 12)
      let sXor ← u32Le r pb 1
      let sRoll ← u32Le r pb 5
      let sIdx ← u32Le r pb 9
      let xc := chunk.foldl (fun xc (b : UInt8) => bxor32 r xc b.toNat) 0
      let eRoll := fnv1aU32 r rolling xc
      if sXor ≠ xc then .error (.raised ("parity xor mismatch at block " ++ numberText idx))
      else if sRoll ≠ eRoll then
        .error (.raised ("parity chain broken at block " ++ numberText idx))
      else if sIdx ≠ idx then
        .error (.raised ("parity block reordered at block " ++ numberText idx))
      else if _hahead : ⌊pos⌋ < ⌊r.add de 13⌋ then
        (stripLoop woven eRoll (r.add idx 1) (r.add de 13)).map (chunk ++ ·)
      else .error .endless
  else .ok []
termination_by ((woven.length : ℤ) + 1 - ⌊pos⌋).toNat
decreasing_by
  have hle : ⌊pos⌋ ≤ (woven.length : ℤ) := by
    have := Int.floor_le pos
    exact_mod_cast this.trans _hpos
  have hahead : ⌊pos⌋ <
      ⌊r.add (min (r.sub (r.add pos 64) 1) (r.sub woven.length 12)) 13⌋ := _hahead
  omega

def stripParity (woven : Octets) : Except LuaFault Octets :=
  if woven.length = 0 then .ok [] else stripLoop r woven 0xA7C3E91F 0 1

/-- The global `MILLENNIUM_DECOMPRESS`: the loader's decoder, whose exceptions are raised. -/
def decompress (data : Octets) : Except LuaFault Octets :=
  (starDecompressT data).result.mapError fun message =>
    .raised ("MILLENNIUM_DECOMPRESS: " ++ message)

def decodeSection (raw : Octets) (encodeFlags : ℚ) : Except LuaFault Octets := do
  let d ← if 64 ≤ r.mod encodeFlags 128 then xorDecode r raw else .ok raw
  let d ← stripParity r d
  if r.mod (Rounding.floor (r.div encodeFlags 128)) 2 = 1 then decompress d else .ok d

end

section
variable (r : Rounding)

lemma bxor32_nat {a b : ℕ} (ha : a < 2 ^ 32) (hb : b < 2 ^ 32) :
    bxor32 r a b = ((a ^^^ b : ℕ) : ℚ) := by
  have hlt : a ^^^ b < 2 ^ 32 := xor_lt_two_pow ha hb
  rw [bxor32, bxor_natCast ha hb]
  by_cases hsign : a ^^^ b < 2 ^ 31
  · rw [if_pos hsign, Int.cast_natCast, if_neg (not_lt.mpr (cast_nonneg _))]
  · have hneg : ((a ^^^ b : ℕ) : ℤ) - 2 ^ 32 < 0 := by omega
    have habs : |((a ^^^ b : ℕ) : ℤ) - 2 ^ 32 + 4294967296| < 2 ^ 53 := by
      rw [abs_lt]
      omega
    rw [if_neg hsign, if_pos (Int.cast_lt_zero.mpr hneg)]
    have hsum : ((a ^^^ b : ℕ) : ℤ) - 2 ^ 32 + 4294967296 = ((a ^^^ b : ℕ) : ℤ) := by omega
    have hadd := r.add_int habs
    rw [hsum] at hadd
    exact_mod_cast hadd

/-! The powers of two by which numbers are divided. -/

lemma two_eq : (2 : ℚ) = ((2 ^ 1 : ℕ) : ℚ) := by norm_num
lemma b7_eq : (128 : ℚ) = ((2 ^ 7 : ℕ) : ℚ) := by norm_num
lemma b8_eq : (256 : ℚ) = ((2 ^ 8 : ℕ) : ℚ) := by norm_num
lemma b16_eq : (65536 : ℚ) = ((2 ^ 16 : ℕ) : ℚ) := by norm_num
lemma b24_eq : (16777216 : ℚ) = ((2 ^ 24 : ℕ) : ℚ) := by norm_num

lemma stepLocals_nat {hash b h : ℕ} (hhash : hash < 2 ^ 32) (hb : b < 2 ^ 32)
    (hh : hash ^^^ b = h) :
    stepLocals r hash b =
    ⟨h, (h % 2 ^ 16 : ℕ), (h / 2 ^ 16 : ℕ), (h % 2 ^ 16 * 403 : ℕ),
    (h / 2 ^ 16 * 403 + h % 2 ^ 16 * 2 ^ 8 + h % 2 ^ 16 * 403 / 2 ^ 16 : ℕ)⟩ := by
  have hlt : h < 2 ^ 32 := hh ▸ xor_lt_two_pow hhash hb
  have h403 : (403 : ℚ) = ((403 : ℕ) : ℚ) := by norm_num
  simp only [stepLocals, bxor32_nat r hhash hb, hh, b16_eq, b8_eq, h403]
  rw [r.mod_nat (by omega) (by omega), r.floor_div_nat (by omega) (by omega),
    r.mul_nat (by omega), r.mul_nat (by omega), r.mul_nat (by omega),
    r.floor_div_nat (by omega) (by omega), r.add_nat (by omega), r.add_nat (by omega)]

lemma fnv1aStep_eq (hash : UInt32) (b : UInt8) :
    fnv1aStep r hash.toNat b.toNat = ((Star.fnv1aStep hash b).toNat : ℚ) := by
  have hb : b.toNat < 2 ^ 32 := b.toNat_lt.trans (by decide)
  have hstep : (Star.fnv1aStep hash b).toNat =
      (hash.toNat ^^^ b.toNat) * 16777619 % 2 ^ 32 := by
    rw [Star.fnv1aStep, UInt32.toNat_mul, UInt32.toNat_xor]
    rfl
  generalize hh : hash.toNat ^^^ b.toNat = h at hstep
  have hlt : h < 2 ^ 32 := hh ▸ xor_lt_two_pow hash.toNat_lt hb
  rw [fnv1aStep, stepLocals_nat r hash.toNat_lt hb hh]
  rw [b16_eq, r.mod_nat (by omega) (by omega), r.mod_nat (by omega) (by omega),
    r.mul_nat (by omega), r.add_nat (by omega)]
  congr 1
  omega

lemma octet_eq (value : UInt32) {k : ℕ} (hk : k ≤ 24) :
    r.mod (Rounding.floor (r.div value.toNat ((2 ^ k : ℕ) : ℚ))) 256 =
    ((ofNat (value.toNat / 2 ^ k)).toNat : ℚ) := by
  have hlt := value.toNat_lt
  have hdiv : value.toNat / 2 ^ k ≤ value.toNat := Nat.div_le_self _ _
  rw [r.floor_div_nat (by omega) (by omega), b8_eq, r.mod_nat (by omega) (by omega),
    toNat_ofNat']

lemma fnv1aU32_eq (state value : UInt32) :
    fnv1aU32 r state.toNat value.toNat = ((Star.fnv1aU32 state value).toNat : ℚ) := by
  have hlt := value.toNat_lt
  have hfirst : r.mod value.toNat 256 = ((ofNat value.toNat).toNat : ℚ) := by
    rw [b8_eq, r.mod_nat (by omega) (by omega), toNat_ofNat']
  have hsecond := octet_eq r value (show 8 ≤ 24 by decide)
  have hthird := octet_eq r value (show 16 ≤ 24 by decide)
  have hfourth := octet_eq r value (le_refl 24)
  rw [← b8_eq] at hsecond
  rw [← b16_eq] at hthird
  rw [← b24_eq] at hfourth
  simp only [fnv1aU32, hfirst, hsecond, hthird, hfourth, fnv1aStep_eq]
  rw [← fnv1aU32Le_eq]
  simp only [fnv1aU32Le, leBytes, Nat.div_div_eq_div_mul]
  rfl

lemma foldl_bxor32 (chunk : Octets) (acc : UInt32) :
    chunk.foldl (fun xc (b : UInt8) => bxor32 r xc b.toNat) (acc.toNat : ℚ) =
    ((chunk.foldl (fun acc b => acc ^^^ b.toUInt32) acc).toNat : ℚ) := by
  induction chunk generalizing acc with
  | nil => rfl
  | cons b chunk ih =>
    have hb : b.toNat < 2 ^ 32 := b.toNat_lt.trans (by decide)
    rw [foldl_cons, foldl_cons, bxor32_nat r acc.toNat_lt hb, ← ih, UInt32.toNat_xor,
      toNat_toUInt32]

lemma xorCheck_eq (chunk : Octets) :
    chunk.foldl (fun xc (b : UInt8) => bxor32 r xc b.toNat) 0 = ((xorCheck chunk).toNat : ℚ) := by
  have hfold := foldl_bxor32 r chunk 0
  rwa [UInt32.toNat_zero] at hfold

lemma byte_of_lt {s : Octets} {k : ℕ} (h : k < s.length) :
    operand (byte s ((k + 1 : ℕ) : ℚ)) = .ok ((byteAt s k).toNat : ℚ) := by
  rw [byte_succ, if_pos h]
  rfl

lemma u32Le_eq {s : Octets} {k : ℕ} (h : k + 4 ≤ s.length) (hk : k + 4 < 2 ^ 53) :
    u32Le r s ((k + 1 : ℕ) : ℚ) = .ok ((readU32Le (s.drop k)).toNat : ℚ) := by
  have h₀ := (byteAt s k).toNat_lt
  have h₁ := (byteAt s (k + 1)).toNat_lt
  have h₂ := (byteAt s (k + 2)).toNat_lt
  have h₃ := (byteAt s (k + 3)).toNat_lt
  have hone : r.add ((k + 1 : ℕ) : ℚ) 1 = ((k + 1 + 1 : ℕ) : ℚ) := by
    exact_mod_cast r.add_nat (show k + 1 + 1 < 2 ^ 53 by omega)
  have htwo : r.add ((k + 1 : ℕ) : ℚ) 2 = ((k + 2 + 1 : ℕ) : ℚ) := by
    exact_mod_cast r.add_nat (show k + 1 + 2 < 2 ^ 53 by omega)
  have hthree : r.add ((k + 1 : ℕ) : ℚ) 3 = ((k + 3 + 1 : ℕ) : ℚ) := by
    exact_mod_cast r.add_nat (show k + 1 + 3 < 2 ^ 53 by omega)
  rw [u32Le, hone, htwo, hthree, byte_of_lt (by omega), byte_of_lt (by omega),
    byte_of_lt (by omega), byte_of_lt (by omega)]
  simp only [ok_bind, b8_eq, b16_eq, b24_eq]
  rw [r.mul_nat (by omega), r.mul_nat (by omega), r.mul_nat (by omega), r.add_nat (by omega),
    r.add_nat (by omega), r.add_nat (by omega), readU32Le_toNat]
  simp only [byteAt_drop]
  rfl

end

inductive Alike : Except LuaFault Octets → Except Fault Octets → Prop
  | returns (data : Octets) : Alike (.ok data) (.ok data)
  | fails (message : String) : Alike (.error (.raised message)) (.error (.runtimeError message))

lemma Alike.map {x : Except LuaFault Octets} {y : Except Fault Octets} (h : Alike x y)
    (f : Octets → Octets) : Alike (x.map f) (y.map f) := by
  cases h with
  | returns data => exact .returns (f data)
  | fails message => exact .fails message

section
variable (r : Rounding)

lemma block_end {length k : ℕ} (hlen : length < 2 ^ 32) (hlong : k + 12 ≤ length) :
    min (r.sub (r.add ((k + 1 : ℕ) : ℚ) 64) 1) (r.sub (length : ℚ) 12) =
    ((k + min starStride (length - k - 12) : ℕ) : ℚ) := by
  have hadd : r.add ((k + 1 : ℕ) : ℚ) 64 = ((k + 1 + 64 : ℕ) : ℚ) := by
    exact_mod_cast r.add_nat (show k + 1 + 64 < 2 ^ 53 by omega)
  have hsub : r.sub ((k + 1 + 64 : ℕ) : ℚ) 1 = ((k + 1 + 64 - 1 : ℕ) : ℚ) := by
    exact_mod_cast r.sub_nat (show 1 ≤ k + 1 + 64 by omega) (by omega)
  have hlast : r.sub (length : ℚ) 12 = ((length - 12 : ℕ) : ℚ) := by
    exact_mod_cast r.sub_nat (show 12 ≤ length by omega) (by omega)
  rw [hadd, hsub, hlast, ← cast_min]
  congr 1
  simp only [starStride]
  omega

lemma block_room {length k : ℕ} (hlen : length < 2 ^ 32) (hk : k < length) :
    r.add (r.sub (length : ℚ) ((k + 1 : ℕ) : ℚ)) 1 = ((length - k : ℕ) : ℚ) := by
  have hsub : r.sub (length : ℚ) ((k + 1 : ℕ) : ℚ) = ((length - (k + 1) : ℕ) : ℚ) :=
    r.sub_nat hk (by omega)
  have hadd : r.add ((length - (k + 1) : ℕ) : ℚ) 1 = ((length - (k + 1) + 1 : ℕ) : ℚ) := by
    exact_mod_cast r.add_nat (show length - (k + 1) + 1 < 2 ^ 53 by omega)
  rw [hsub, hadd]
  congr 1
  omega

lemma block_trailer {woven : Octets} {e : ℕ} (hlen : woven.length < 2 ^ 32)
    (he : e + 12 ≤ woven.length) :
    sub woven (r.add (e : ℚ) 1) (r.add (e : ℚ) 12) = slice woven e 12 := by
  have hone : r.add (e : ℚ) 1 = ((e + 1 : ℕ) : ℚ) := by
    exact_mod_cast r.add_nat (show e + 1 < 2 ^ 53 by omega)
  have htwelve : r.add (e : ℚ) 12 = ((e + 12 : ℕ) : ℚ) := by
    exact_mod_cast r.add_nat (show e + 12 < 2 ^ 53 by omega)
  rw [hone, htwelve, sub_succ woven he, Nat.add_sub_cancel_left]

lemma trailer_word {woven : Octets} {e j : ℕ} (he : e + 12 ≤ woven.length) (hj : j + 4 ≤ 12) :
    u32Le r (slice woven e 12) ((j + 1 : ℕ) : ℚ) =
    .ok ((readU32Le ((woven.drop e).drop j)).toNat : ℚ) := by
  rw [u32Le_eq r (by rw [slice_length_of_le he]; exact hj) (by omega)]
  congr 3
  apply readU32Le_congr
  intro i hi
  rw [byteAt_drop, byteAt_drop, byteAt_drop, byteAt_slice (by omega)]

lemma cast_toNat_ne {a b : UInt32} : ((a.toNat : ℚ) ≠ b.toNat) ↔ a ≠ b := by
  rw [ne_eq, Nat.cast_inj, UInt32.toNat_inj]

lemma stripLoop_alike {woven : Octets} (hlen : woven.length < 2 ^ 32) {k : ℕ}
    (hk : k ≤ woven.length) (roll idx : UInt32) (hidx : idx.toNat ≤ k) :
    Alike (stripLoop r woven roll.toNat idx.toNat ((k + 1 : ℕ) : ℚ))
      (stripFrom roll idx (woven.drop k)) := by
  induction hn : woven.length - k using Nat.strong_induction_on generalizing k roll idx with
  | _ n ih =>
    rw [stripLoop, stripFrom]
    by_cases hend : k = woven.length
    · rw [dif_neg (by rw [hend, not_le]; exact_mod_cast lt_succ_self _),
        if_pos (drop_eq_nil_of_le hend.ge)]
      exact .returns []
    have hpos : ((k + 1 : ℕ) : ℚ) ≤ woven.length := by exact_mod_cast (by omega : k + 1 ≤ _)
    have hdrop : (woven.drop k).length = woven.length - k := length_drop
    have hne : woven.drop k ≠ [] := by
      intro hnil
      rw [hnil, length_nil] at hdrop
      omega
    rw [dif_pos hpos, if_neg hne, block_room r hlen (by omega), hdrop]
    by_cases hshort : woven.length - k < 12
    · rw [if_pos (by exact_mod_cast hshort), if_pos hshort]
      exact .fails _
    rw [if_neg (by exact_mod_cast hshort), block_end r hlen (by omega)]
    dsimp only
    generalize hstop : min starStride (woven.length - k - 12) = dataEnd
    have hle : k + dataEnd + 12 ≤ woven.length := by omega
    have hpb := block_trailer r hlen hle
    have hword : ∀ j, j + 4 ≤ 12 → u32Le r (slice woven (k + dataEnd) 12) ((j + 1 : ℕ) : ℚ) =
        .ok ((readU32Le (((woven.drop k).drop dataEnd).drop j)).toNat : ℚ) := by
      intro j hj
      rw [trailer_word r hle hj, ← drop_drop]
    have hxor := hword 0 (by decide)
    have hroll := hword 4 (by decide)
    have hindex := hword 8 (by decide)
    rw [show ((0 + 1 : ℕ) : ℚ) = 1 by norm_num, drop_zero] at hxor
    rw [show ((4 + 1 : ℕ) : ℚ) = 5 by norm_num] at hroll
    rw [show ((8 + 1 : ℕ) : ℚ) = 9 by norm_num] at hindex
    have hchunk : sub woven ((k + 1 : ℕ) : ℚ) ((k + dataEnd : ℕ) : ℚ) =
        (woven.drop k).take dataEnd := by
      rw [sub_succ woven (by omega), Nat.add_sub_cancel_left, slice]
    have hnext : r.add ((k + dataEnd : ℕ) : ℚ) 13 = ((k + dataEnd + 12 + 1 : ℕ) : ℚ) := by
      exact_mod_cast r.add_nat (show k + dataEnd + 13 < 2 ^ 53 by omega)
    have hahead : ⌊((k + 1 : ℕ) : ℚ)⌋ < ⌊((k + dataEnd + 12 + 1 : ℕ) : ℚ)⌋ := by
      rw [Int.floor_natCast, Int.floor_natCast]
      omega
    have hcount : r.add (idx.toNat : ℚ) 1 = ((idx + 1).toNat : ℚ) := by
      have hsum : (idx + 1).toNat = idx.toNat + 1 := by
        rw [UInt32.toNat_add, UInt32.toNat_one]
        omega
      rw [hsum]
      exact_mod_cast r.add_nat (show idx.toNat + 1 < 2 ^ 53 by omega)
    rw [hpb, hchunk, hnext, hcount]
    simp only [hxor, hroll, hindex, ok_bind, xorCheck_eq, fnv1aU32_eq, cast_toNat_ne]
    split_ifs
    · exact .fails _
    · exact .fails _
    · exact .fails _
    · have hrest := ih (woven.length - (k + dataEnd + 12)) (by omega) hle
        (Star.fnv1aU32 roll (xorCheck ((woven.drop k).take dataEnd))) (idx + 1) (by
          rw [UInt32.toNat_add, UInt32.toNat_one]
          omega) rfl
      rw [drop_drop]
      rw [Nat.add_assoc] at hrest ⊢
      exact hrest.map _

lemma stripParity_alike {woven : Octets} (hlen : woven.length < 2 ^ 32) :
    Alike (stripParity r woven) (starStripParity woven) := by
  rw [stripParity, starStripParity]
  by_cases hnil : woven.length = 0
  · rw [length_eq_zero_iff.mp hnil, stripFrom]
    exact .returns []
  · rw [if_neg hnil]
    have hseed : ((starParitySeed.toNat : ℕ) : ℚ) = 0xA7C3E91F := by
      rw [show starParitySeed.toNat = 0xA7C3E91F from rfl]
      norm_num
    have hloop := stripLoop_alike r hlen (Nat.zero_le _) starParitySeed 0 le_rfl
    rw [hseed] at hloop
    simpa using hloop

/-- What a step of the chain computes: five integers that a double holds, and the product of words.
-/
structure StepExact (hash : UInt32) (b : UInt8) : Prop where
  integers : ∃ h hl hh lo mid : ℕ,
    stepLocals r hash.toNat b.toNat = ⟨h, hl, hh, lo, mid⟩ ∧
      h < 2 ^ 53 ∧ hl < 2 ^ 53 ∧ hh < 2 ^ 53 ∧ lo < 2 ^ 53 ∧ mid < 2 ^ 53
  product : fnv1aStep r hash.toNat b.toNat = (((hash ^^^ b.toUInt32) * 0x01000193).toNat : ℚ)

lemma stepExact (hash : UInt32) (b : UInt8) : StepExact r hash b where
  integers := by
    have hb : b.toNat < 2 ^ 32 := b.toNat_lt.trans (by decide)
    have hlt : hash.toNat ^^^ b.toNat < 2 ^ 32 := xor_lt_two_pow hash.toNat_lt hb
    refine ⟨_, _, _, _, _, stepLocals_nat r hash.toNat_lt hb rfl, ?_⟩
    omega
  product := fnv1aStep_eq r hash b

/-- The shim and the loader strip the same streams, and with the same octets. -/
theorem stripParity_agrees (woven : Octets) (hlength : woven.length < 256 * 1024 * 1024) :
    Alike (stripParity r woven) (starStripParity woven) ∧
      ∀ (hash : UInt32) (b : UInt8), StepExact r hash b :=
  ⟨stripParity_alike r (by omega), stepExact r⟩

end

theorem stripParity_agrees_short : [3].length < 256 * 1024 * 1024 ∧
      Alike (stripParity .none [1, 2, 3]) (starStripParity [1, 2, 3]) :=
  ⟨by decide, (stripParity_agrees .none [1, 2, 3] (by decide)).1⟩

section
variable (r : Rounding)

lemma obfuscated_iff (flags : UInt8) :
    64 ≤ r.mod flags.toNat 128 ↔ flags &&& flagObfuscated ≠ 0 := by
  have hbits : ∀ n < 256, 64 ≤ n % 2 ^ 7 ↔ ofNat n &&& flagObfuscated ≠ 0 := by
    decide +kernel
  have hflags := hbits flags.toNat flags.toNat_lt
  rw [UInt8.ofNat_toNat] at hflags
  rw [b7_eq, r.mod_nat (flags.toNat_lt.trans (by decide)) (by decide), ← hflags]
  exact_mod_cast Iff.rfl

lemma compressed_iff (flags : UInt8) :
    r.mod (Rounding.floor (r.div flags.toNat 128)) 2 = 1 ↔ flags &&& flagCompressed ≠ 0 := by
  have hbits : ∀ n < 256, n / 2 ^ 7 % 2 ^ 1 = 1 ↔ ofNat n &&& flagCompressed ≠ 0 := by
    decide +kernel
  have hflags := hbits flags.toNat flags.toNat_lt
  have hlt := flags.toNat_lt
  rw [UInt8.ofNat_toNat] at hflags
  rw [b7_eq, two_eq, r.floor_div_nat (by omega) (by decide), r.mod_nat (by omega) (by decide),
    ← hflags]
  exact_mod_cast Iff.rfl

lemma xor_octet {k : ℕ} (hk : k + 1 < 2 ^ 53) (b : UInt8) :
    char (bxor32 r (bxor32 r b.toNat 0x4D) (r.mod (r.sub ((k + 1 : ℕ) : ℚ) 1) 256)) =
    .ok (b ^^^ (starXorKey ^^^ ofNat (k &&& 0xFF))) := by
  have hb := b.toNat_lt
  have hkey : (0x4D : ℚ) = ((0x4D : ℕ) : ℚ) := by norm_num
  have hindex : r.sub ((k + 1 : ℕ) : ℚ) 1 = (k : ℚ) := by
    have hsub := r.sub_nat (show 1 ≤ k + 1 by omega) hk
    exact_mod_cast hsub
  have hlt : b.toNat ^^^ 0x4D < 2 ^ 8 := xor_lt_two_pow hb (by decide)
  have hlast : b.toNat ^^^ 0x4D ^^^ k % 2 ^ 8 < 2 ^ 8 :=
    xor_lt_two_pow hlt (mod_lt _ (by decide))
  rw [hindex, b8_eq, r.mod_nat (by omega) (by omega), hkey, bxor32_nat r (by omega) (by decide),
    bxor32_nat r (by omega) (by omega), char_natCast hlast, ofNat_and_255]
  congr 1
  apply UInt8.toNat_inj.mp
  rw [toNat_ofNat', mod_eq_of_lt hlast, UInt8.toNat_xor, UInt8.toNat_xor, Nat.xor_assoc]
  rfl

lemma xorFrom_eq (s : Octets) {k : ℕ} (hk : k + s.length < 2 ^ 53) : xorFrom r (k + 1) s =
    .ok (s.mapIdx fun i b => b ^^^ (starXorKey ^^^ ofNat ((k + i) &&& 0xFF))) := by
  induction s generalizing k with
  | nil => rfl
  | cons b s ih =>
    rw [length_cons] at hk
    rw [xorFrom, xor_octet r (by omega), ih (by omega), mapIdx_cons]
    simp [Nat.add_assoc, Nat.add_comm 1]

lemma xorDecode_eq {s : Octets} (hs : s.length ≤ maxString) :
    xorDecode r s = .ok (starXorDecode s) := by
  have hlen : s.length < 2 ^ 53 := hs.trans_lt (by decide)
  have hloop := xorFrom_eq r s (show 0 + s.length < 2 ^ 53 by omega)
  simp only [Nat.zero_add] at hloop
  exact hloop

lemma decodeSection_bits {raw : Octets} (hraw : raw.length ≤ maxString) (flags : UInt8) :
    decodeSection r raw flags.toNat =
      stripParity r (deobfuscated raw flags) >>= fun d =>
        if flags &&& flagCompressed ≠ 0 then decompress d else .ok d := by
  simp only [decodeSection, obfuscated_iff, compressed_iff, xorDecode_eq r hraw, starXorDecode_eq,
    deobfuscated]
  by_cases hxor : flags &&& flagObfuscated ≠ 0
  · simp only [if_pos hxor]
    rfl
  · simp only [if_neg hxor]
    rfl

end

lemma starDecodeBlob_bits {flags : UInt8} (hflags : flags ≠ 0) (raw : Octets) :
    starDecodeBlob flags raw =
      starStripParity (deobfuscated raw flags) >>= fun d =>
        if flags &&& flagCompressed ≠ 0 then starDecompress d else .ok d := by
  rw [starDecodeBlob, if_neg hflags, starXorDecode_eq]
  rfl

/-- A section inside of the file data, short enough for a string. -/
structure StoredSection where
  fileData : Octets
  starStart : ℕ
  sec : StarSection
  size_lt : fileData.length < 2 ^ 64
  inside : starStart + sec.offset.toNat + sec.length.toNat ≤ fileData.length
  short : sec.length.toNat ≤ maxString

namespace StoredSection

def raw (s : StoredSection) : Octets :=
  slice s.fileData (s.starStart + s.sec.offset.toNat) s.sec.length.toNat

variable (r : Rounding) (s : StoredSection)

lemma raw_length : s.raw.length = s.sec.length.toNat := slice_length_of_le s.inside

lemma raw_short : s.raw.length ≤ maxString := s.raw_length.trans_le s.short

lemma starDecodeSection_eq :
    starDecodeSection s.fileData s.starStart s.sec = starDecodeBlob s.sec.encodeFlags s.raw := by
  have hin := s.inside
  have hrange := (starSectionRange_ok_iff (by omega) s.size_lt s.sec _ _).mpr
    ⟨rfl, rfl, hin⟩
  rw [starDecodeSection, hrange, ok_bind]
  dsimp only
  rw [readRange, if_pos hin]
  rfl

/-- The shim returns what the loader returns, and raises an error where it throws. -/
def ReadAlike : Prop :=
  (∃ data, decodeSection r s.raw s.sec.encodeFlags.toNat = .ok data ∧
    starDecodeSection s.fileData s.starStart s.sec = .ok data) ∨
  (∃ message fault, decodeSection r s.raw s.sec.encodeFlags.toNat = .error (.raised message) ∧
    starDecodeSection s.fileData s.starStart s.sec = .error fault)

lemma readAlike_of_ne (hflags : s.sec.encodeFlags ≠ 0) : s.ReadAlike r := by
  have hlen : (deobfuscated s.raw s.sec.encodeFlags).length < 2 ^ 32 := by
    rw [deobfuscated_length, s.raw_length]
    exact s.short.trans_lt (by decide)
  have halike := stripParity_alike r hlen
  rw [ReadAlike, s.starDecodeSection_eq, decodeSection_bits r s.raw_short,
    starDecodeBlob_bits hflags]
  generalize stripParity r _ = shim at halike ⊢
  generalize starStripParity _ = loader at halike ⊢
  cases halike with
  | fails message => exact .inr ⟨message, _, rfl, rfl⟩
  | returns data =>
    simp only [ok_bind]
    by_cases hcomp : s.sec.encodeFlags &&& flagCompressed ≠ 0
    · rw [if_pos hcomp, if_pos hcomp, ← thrown_starDecompressT, thrown, decompress]
      cases (starDecompressT data).result with
      | error message => exact .inr ⟨_, _, rfl, rfl⟩
      | ok out => exact .inl ⟨out, rfl, rfl⟩
    · rw [if_neg hcomp, if_neg hcomp]
      exact .inl ⟨data, rfl, rfl⟩

/-- The loader returns a section without flags as it stands, the shim strips its parity. -/
lemma readAlike_of_eq (hflags : s.sec.encodeFlags = 0) : s.ReadAlike r ↔ s.raw = [] := by
  have hshim : decodeSection r s.raw s.sec.encodeFlags.toNat = stripParity r s.raw := by
    rw [decodeSection_bits r s.raw_short, hflags]
    exact bind_pure _
  rw [ReadAlike, s.starDecodeSection_eq, starDecodeBlob, if_pos hflags, hshim]
  have halike := stripParity_alike r (s.raw_short.trans_lt (by decide))
  constructor
  · rintro (⟨data, hstrip, hraw⟩ | ⟨message, fault, -, hraw⟩)
    · obtain rfl := Except.ok.inj hraw
      rw [hstrip] at halike
      generalize hloader : starStripParity s.raw = loader at halike
      cases halike
      obtain hnil | hlt := (stripFrom_eq_ok_iff.mp hloader).eq_nil_or_length_lt
      · exact hnil
      · exact absurd hlt (lt_irrefl _)
    · cases hraw
  · intro hnil
    rw [hnil]
    exact .inl ⟨[], rfl, rfl⟩

/-- The shim reads every section as the loader does but for those without an encoding. -/
theorem readAlike_iff : s.ReadAlike r ↔ s.sec.encodeFlags ≠ 0 ∨ s.raw = [] := by
  by_cases hflags : s.sec.encodeFlags = 0
  · simp [readAlike_of_eq r s hflags, hflags]
  · exact iff_of_true (readAlike_of_ne r s hflags) (.inl hflags)

def plainOctet : StoredSection where
  fileData := [0x7B]
  starStart := 0
  sec :=
    { id := secMetadata, encodeFlags := 0, metaFlags := 0, offset := 0, length := 1, crc32 := 0 }
  size_lt := by decide
  inside := by decide
  short := by decide

theorem plainOctet_not_readAlike : ¬ plainOctet.ReadAlike .none := by
  rw [readAlike_of_eq .none plainOctet rfl]
  decide

end StoredSection

end Millennium.Star.LuaShim
