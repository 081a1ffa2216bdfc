import Millennium.Star.Verify

/-!
# What `verify_and_strip_parity` accepts

Blocks are counted in a `u32`. Behind the last number a debug build panics, and a release build goes
on with zero. For either build, the streams that are stripped to some data are what is woven from
it.
-/

namespace Millennium.Star

open Bytes Outcome List Option

inductive Overflow where
  | panics
  | wraps
  deriving Repr, DecidableEq

def Overflow.next (build : Overflow) (index : UInt32) : Option UInt32 :=
  if build = .panics ∧ index.toNat + 1 = 2 ^ 32 then none else some (index + 1)

def weaveIn (build : Overflow) (rolling blockIndex : UInt32) (data : Octets) : Option Octets :=
  if data = [] then some []
  else
    let chunk := data.take starStride
    let check := xorCheck chunk
    let rolling := fnv1aU32Le rolling check
    let block := chunk ++ parityTrailer check rolling blockIndex
    (build.next blockIndex).bind fun blockIndex =>
      (weaveIn build rolling blockIndex (data.drop starStride)).map (block ++ ·)
termination_by data.length
decreasing_by
  have := length_pos_of_ne_nil ‹_›
  simp only [length_drop, starStride]
  omega

def weaveParityIn (build : Overflow) (data : Octets) : Option Octets :=
  weaveIn build starParitySeed 0 data

def verifyIn (build : Overflow) (rolling expectedIndex : UInt32) (woven : Octets) :
    Except VerifyFault Octets :=
  if woven = [] then .ok []
  else if woven.length < 12 then
    .error (.error s!"truncated parity stream at block {expectedIndex.toNat}")
  else
    let dataEnd := min starStride (woven.length - 12)
    if dataEnd = 0 then
      .error (.error s!"malformed parity stream: zero-length chunk at block {expectedIndex.toNat}")
    else
      let chunk := woven.take dataEnd
      let parityBytes := woven.drop dataEnd
      let storedXor := readU32Le parityBytes
      let storedRoll := readU32Le (parityBytes.drop 4)
      let storedIndex := readU32Le (parityBytes.drop 8)
      let check := xorCheck chunk
      let expectedRoll := fnv1aU32Le rolling check
      if storedXor ≠ check then
        .error (.error s!"parity xor mismatch at block {expectedIndex.toNat}")
      else if storedRoll ≠ expectedRoll then
        .error (.error s!"parity chain broken at block {expectedIndex.toNat}")
      else if storedIndex ≠ expectedIndex then
        .error (.error (s!"parity block reordered at block {expectedIndex.toNat} " ++
          s!"(stored {storedIndex.toNat})"))
      else
        (orError .overflow (build.next expectedIndex)).bind fun expectedIndex =>
          (verifyIn build expectedRoll expectedIndex (woven.drop (dataEnd + 12))).map (chunk ++ ·)
termination_by woven.length
decreasing_by
  have := length_pos_of_ne_nil ‹_›
  simp only [length_drop, starStride]
  omega

def verifyAndStripParityIn (build : Overflow) (woven : Octets) : Except VerifyFault Octets :=
  verifyIn build starParitySeed 0 woven

section
variable {build : Overflow} {rolling idx : UInt32} {woven data chunk tail : Octets}

/-- The number of every block and the one behind the last can be counted to. -/
def Overflow.Counts (build : Overflow) (idx : UInt32) (data : Octets) : Prop :=
  build = .panics → idx.toNat + (data.length + 63) / 64 < 2 ^ 32

lemma Overflow.counts_nil : build.Counts idx [] := by
  intro _
  have hlt := idx.toNat_lt
  simpa using hlt

lemma Overflow.counts_append (hchunk : chunk ≠ [])
    (hend : chunk.length = starStride ∨ chunk.length < starStride ∧ data = []) :
    build.Counts idx (chunk ++ data) ↔
    build.next idx = some (idx + 1) ∧ build.Counts (idx + 1) data := by
  have hpos := length_pos_of_ne_nil hchunk
  have hlt := idx.toNat_lt
  have hblocks : (chunk.length + data.length + 63) / 64 = 1 + (data.length + 63) / 64 := by
    obtain hfull | ⟨hshort, rfl⟩ := hend
    · simp only [starStride] at hfull
      omega
    · simp only [starStride] at hshort
      rw [length_nil]
      omega
  cases build with
  | wraps => simp [Counts, next]
  | panics =>
    simp only [Counts, next, length_append, true_and, true_implies]
    by_cases hlast : idx.toNat + 1 = 2 ^ 32
    · simp only [hlast, if_true, reduceCtorEq, false_and, iff_false]
      omega
    · have hsucc : (idx + 1).toNat = idx.toNat + 1 := by
        rw [UInt32.toNat_add, UInt32.toNat_one]
        omega
      simp only [hlast, if_false, true_and]
      omega

lemma Overflow.eq_of_next {index : UInt32} (h : build.next idx = some index) : index = idx + 1 := by
  rw [Overflow.next] at h
  split_ifs at h
  exact (some.inj h).symm

lemma weaveIn_eq_some_iff : weaveIn build rolling idx data = some woven ↔
    woven = weaveFrom rolling idx data ∧ build.Counts idx data := by
  fun_induction weaveIn build rolling idx data generalizing woven with
  | case1 =>
    rw [weaveFrom_nil, some.injEq]
    exact ⟨fun h => ⟨h.symm, Overflow.counts_nil⟩, fun h => h.1.symm⟩
  | case2 =>
    rename_i rolling idx data hne chunk check rolling' block ih
    have hchunk : chunk ≠ [] := by
      apply ne_nil_of_length_pos
      have hpos := length_pos_of_ne_nil hne
      rw [length_take]
      simp only [starStride]
      omega
    have hend : chunk.length = starStride ∨
        chunk.length < starStride ∧ data.drop starStride = [] := by
      rw [length_take, drop_eq_nil_iff]
      omega
    have hcounts := @Overflow.counts_append build idx _ chunk hchunk hend
    have hweave := @weaveFrom_append rolling idx _ chunk hchunk hend
    rw [take_append_drop] at hcounts hweave
    rw [hcounts, hweave, ← fnv1aU32Le_eq]
    constructor
    · intro h
      obtain ⟨index, hnext, h⟩ := bind_eq_some_iff.mp h
      obtain rfl := Overflow.eq_of_next hnext
      obtain ⟨rest, hrest, rfl⟩ := map_eq_some_iff.mp h
      obtain ⟨rfl, hcount⟩ := (ih _).mp hrest
      exact ⟨rfl, hnext, hcount⟩
    · rintro ⟨rfl, hnext, hcount⟩
      rw [hnext, bind_some, (ih _).mpr ⟨rfl, hcount⟩]
      rfl

lemma verifyIn_block (hchunk : chunk ≠ [])
    (hend : min starStride (chunk.length + tail.length) = chunk.length)
    (hnext : build.next idx = some (idx + 1)) :
    verifyIn build rolling idx
        (chunk ++ parityTrailer (xorCheck chunk) (fnv1aU32 rolling (xorCheck chunk)) idx ++ tail) =
    (verifyIn build (fnv1aU32 rolling (xorCheck chunk)) (idx + 1) tail).map (chunk ++ ·) := by
  have hreads := readsBlock_append (xorCheck chunk) (fnv1aU32 rolling (xorCheck chunk)) idx chunk
    tail hend
  have hpos : chunk.length ≠ 0 := Nat.ne_of_gt (length_pos_of_ne_nil hchunk)
  rw [verifyIn, if_neg hreads.ne_nil, if_neg (Nat.not_lt.mpr hreads.long)]
  simp only [hreads.stop, hreads.take_eq, hreads.drop_eq, hreads.xor_eq, hreads.roll_eq,
    hreads.index_eq, fnv1aU32Le_eq, hpos, ne_eq, hnext]
  rfl

lemma Blocks.data_end (hend : min starStride (chunk.length + tail.length) = chunk.length)
    {P : Octets → Prop} (htail : Blocks P rolling idx tail data) :
    chunk.length = starStride ∨ chunk.length < starStride ∧ data = [] := by
  obtain hfull | ⟨hshort, rfl⟩ := full_or_last hend
  · exact .inl hfull
  · exact .inr ⟨hshort, htail.eq_nil⟩

lemma verifyIn_eq_ok_iff : verifyIn build rolling idx woven = .ok data ↔
    Blocks (· ≠ []) rolling idx woven data ∧ build.Counts idx data := by
  constructor
  · intro h
    fun_induction verifyIn build rolling idx woven generalizing data with
    | case1 rolling idx =>
      cases h
      exact ⟨.nil rolling idx, Overflow.counts_nil⟩
    | case7 =>
      rename_i rolling idx woven _ _ dataEnd _ chunk _ _ _ _ check expectedRoll hxor hroll hindex ih
      obtain ⟨index, hnext, h⟩ := bind_eq_ok_iff.mp h
      have hnext := orError_eq_ok_iff.mp hnext
      obtain rfl := Overflow.eq_of_next hnext
      obtain ⟨rest, hrest, rfl⟩ := map_eq_ok_iff.mp h
      obtain ⟨htail, hcount⟩ := ih _ hrest
      have hroll' : expectedRoll = fnv1aU32 rolling check := fnv1aU32Le_eq rolling check
      rw [hroll'] at htail
      have hchunk : chunk ≠ [] := by
        apply ne_nil_of_length_pos
        rw [length_take]
        omega
      have hend : min starStride (chunk.length + (woven.drop (dataEnd + 12)).length) =
          chunk.length := by
        rw [length_take, length_drop]
        omega
      refine ⟨.of_checks rfl (by omega) hchunk (not_not.mp hxor)
          ((not_not.mp hroll).trans hroll') (not_not.mp hindex) htail, ?_⟩
      exact (Overflow.counts_append hchunk (htail.data_end hend)).mpr ⟨hnext, hcount⟩
    | _ => cases h
  · rintro ⟨h, hcounts⟩
    induction h with
    | nil => simp [verifyIn]
    | block hchunk hend htail ih =>
      obtain ⟨hnext, hcount⟩ := (Overflow.counts_append hchunk (htail.data_end hend)).mp hcounts
      rw [verifyIn_block hchunk hend hnext, ih hcount]
      rfl

lemma verifyIn_panics : verifyIn .panics rolling idx woven = verifyFrom rolling idx woven := by
  induction hn : woven.length using Nat.strong_induction_on generalizing rolling idx woven with
  | _ n ih =>
    rw [verifyIn, verifyFrom]
    by_cases hne : woven = []
    · rw [if_pos hne, if_pos hne]
    have hpos := length_pos_of_ne_nil hne
    have hrest : (woven.drop (min starStride (woven.length - 12) + 12)).length < n := by
      rw [length_drop]
      omega
    have hnext : ∀ roll (chunk : Octets), ((orError .overflow (Overflow.panics.next idx)).bind
        fun index => (verifyIn .panics roll index
          (woven.drop (min starStride (woven.length - 12) + 12))).map (chunk ++ ·)) =
        if idx.toNat + 1 = 2 ^ 32 then .error .overflow
        else (verifyFrom roll (idx + 1)
          (woven.drop (min starStride (woven.length - 12) + 12))).map (chunk ++ ·) := by
      intro roll chunk
      by_cases hlast : idx.toNat + 1 = 2 ^ 32
      · rw [if_pos hlast, Overflow.next, if_pos ⟨rfl, hlast⟩]
        rfl
      · rw [if_neg hlast, Overflow.next, if_neg fun h => hlast h.2, ← ih _ hrest rfl]
        rfl
    simp only [hnext]

end

/-- In either build, a stream is stripped to some data exactly if it is woven from it. -/
theorem verifyAndStripParity_eq_weaveParity (build : Overflow) (woven data : Octets) :
    verifyAndStripParityIn build woven = .ok data ↔ weaveParityIn build data = some woven := by
  rw [verifyAndStripParityIn, weaveParityIn, verifyIn_eq_ok_iff, weaveIn_eq_some_iff,
    blocks_ne_nil_iff]

end Millennium.Star
