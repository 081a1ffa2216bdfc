import Millennium.Star.Loader

/-!
# Memory accesses of the loader

The file data a load returns ends at `readLimit`, a sum of attacker-chosen 64-bit fields that may
wrap and end before the container starts. The decoder of raw sections notices; that of encoded
sections and the signature check do not.
-/

namespace Millennium.Star

open Bytes

/-- A section is read where the table says, without wraparound, inside the file data. -/
def SectionReadsInside (b : StarBounded) : Prop :=
  ∀ s ∈ b.sections, ∀ start length,
    starSectionRange b.fileData.length b.starStart s = .ok (start, length) →
      start = b.starStart + s.offset.toNat ∧ length = s.length.toNat ∧
        b.starStart ≤ start ∧ start + length ≤ b.fileData.length

/-- Behind the size check of `parse_star_file`, message and signature lie inside the file data. -/
def VerifyInside (b : StarBounded) : Prop :=
  b.starStart + starHeaderSize ≤ b.fileData.length →
    ∀ n, starVerifyCall b.starStart b.sections b.fileData = some n →
      n + sigLen ≤ b.fileData.length

/-- No table field makes a reader leave the file data, by limits that wrap below the container's
start or to the header. -/
def TableConfined (file : Octets) (starStart : Nat) (t : StarTable) : Prop :=
  let m := t.maxEagerEnd.toNat
  (2 ^ 64 ≤ starStart + m + sigLen → m + sigLen < 2 ^ 64 →
    ∀ s ∈ t.sections, s.encodeFlags ≠ 0 → m + sigLen < s.offset.toNat + s.length.toNat) ∧
  (2 ^ 64 + starHeaderSize ≤ m + sigLen → starStart + m < 2 ^ 64 →
    byteAt file (starStart + 7) &&& starFlagSigned = 0 ∨
      ∃ s ∈ t.sections, s.id ≠ secAssets ∧ s.deferred)

lemma starSectionRange_eq_ok_iff (size starStart : Nat) (s : StarSection) (start length : Nat) :
    starSectionRange size starStart s = .ok (start, length) ↔
    (s.encodeFlags = 0 → starStart ≤ size) ∧ s.offset.toNat ≤ subU64 size starStart ∧
    s.length.toNat ≤ subU64 size (addU64 starStart s.offset.toNat) ∧
    start = addU64 starStart s.offset.toNat ∧ length = s.length.toNat := by
  unfold starSectionRange
  by_cases hflags : s.encodeFlags = 0
  · simp only [hflags, if_true, forall_const]
    split_ifs with h₁ h₂
    · simp only [false_iff]
      omega
    · simp only [false_iff]
      omega
    · simp only [Except.ok.injEq, Prod.mk.injEq]
      omega
  · simp only [hflags, if_false, false_implies, true_and]
    split_ifs with h₁ h₂
    · simp only [false_iff]
      omega
    · simp only [false_iff]
      omega
    · simp only [Except.ok.injEq, Prod.mk.injEq]
      omega

lemma starSectionRange_ok_iff {size starStart : Nat} (hle : starStart ≤ size)
    (hsize : size < 2 ^ 64) (s : StarSection) (start length : Nat) :
    starSectionRange size starStart s = .ok (start, length) ↔
    start = starStart + s.offset.toNat ∧ length = s.length.toNat ∧ start + length ≤ size := by
  rw [starSectionRange_eq_ok_iff]
  unfold addU64 subU64
  omega

/-- With the container's start past the data the raw decoder refuses; the encoded one tests against
a limit that has wrapped. -/
lemma starSectionRange_past_end {size starStart : Nat} (hlt : size < starStart)
    (hstart : starStart < 2 ^ 64) (s : StarSection) :
    (∃ r, starSectionRange size starStart s = .ok r) ↔
    s.encodeFlags ≠ 0 ∧ s.offset.toNat + s.length.toNat + starStart ≤ size + 2 ^ 64 := by
  constructor
  · rintro ⟨⟨start, length⟩, hr⟩
    obtain ⟨hflags, h₁, h₂, -, -⟩ := (starSectionRange_eq_ok_iff _ _ _ _ _).mp hr
    refine ⟨fun hz => ?_, ?_⟩
    · have := hflags hz
      omega
    · unfold addU64 subU64 at *
      omega
  · rintro ⟨hflags, hsum⟩
    refine ⟨(_, _), (starSectionRange_eq_ok_iff _ _ _ _ _).mpr
      ⟨fun hz => absurd hz hflags, ?_, ?_, rfl, rfl⟩⟩
    · unfold subU64
      omega
    · unfold addU64 subU64
      omega

lemma readLimit_lt (fileSize start : Nat) (m : UInt64) :
    readLimit fileSize start m < 2 ^ 64 :=
  lt_of_le_of_lt (Nat.min_le_right _ _) (addU64_lt _ _)

lemma addU64_addU64 (a b c : Nat) : addU64 (addU64 a b) c = (a + b + c) % 2 ^ 64 := by
  unfold addU64
  omega

section
variable {file : Octets} {start : Nat} {t : StarTable}

lemma starTable_longer (h : starTableOf file = some (start, t))
    (hm : t.maxEagerEnd ≠ 0) : start + sigLen < file.length := by
  obtain ⟨hmax, hfits⟩ := starTable_fits h
  have hne : t.sections ≠ [] := by
    intro hnil
    rw [hnil] at hmax
    exact hm hmax
  have hpos := List.length_pos_of_ne_nil hne
  simp only [starEntrySize, sigLen] at *
  omega

lemma readLimit_of_no_wrap (hwrap : start + t.maxEagerEnd.toNat + sigLen < 2 ^ 64) :
    readLimit file.length start t.maxEagerEnd =
    min file.length (start + t.maxEagerEnd.toNat + sigLen) := by
  rw [readLimit, addU64_addU64, Nat.mod_eq_of_lt hwrap]

lemma readLimit_of_wrap (h : starTableOf file = some (start, t))
    (hwrap : 2 ^ 64 ≤ start + t.maxEagerEnd.toNat + sigLen) :
    readLimit file.length start t.maxEagerEnd =
    start + t.maxEagerEnd.toNat + sigLen - 2 ^ 64 := by
  have hstart := starStart_le h
  have hlt := t.maxEagerEnd.toNat_lt
  simp only [maxShimSize, sigLen] at *
  have hne : t.maxEagerEnd ≠ 0 := by
    intro hz
    rw [hz] at hwrap
    simp at hwrap
    omega
  have hlonger := starTable_longer h hne
  simp only [sigLen] at hlonger
  rw [readLimit, addU64_addU64]
  simp only [sigLen]
  omega

lemma readLimit_lt_start_iff (h : starTableOf file = some (start, t)) :
    readLimit file.length start t.maxEagerEnd < start ↔
    2 ^ 64 ≤ start + t.maxEagerEnd.toNat + sigLen ∧
    t.maxEagerEnd.toNat + sigLen < 2 ^ 64 := by
  obtain ⟨-, hfits⟩ := starTable_fits h
  by_cases hwrap : 2 ^ 64 ≤ start + t.maxEagerEnd.toNat + sigLen
  · rw [readLimit_of_wrap h hwrap]
    omega
  · rw [readLimit_of_no_wrap (by omega)]
    omega

end

lemma sectionReadsInside_iff {file : Octets} {starStart : Nat} {t : StarTable}
    (h : starTableOf file = some (starStart, t)) :
    SectionReadsInside ⟨starStart, t.sections,
    file.take (readLimit file.length starStart t.maxEagerEnd)⟩ ↔
    (2 ^ 64 ≤ starStart + t.maxEagerEnd.toNat + sigLen →
    t.maxEagerEnd.toNat + sigLen < 2 ^ 64 → ∀ s ∈ t.sections, s.encodeFlags ≠ 0 →
    t.maxEagerEnd.toNat + sigLen < s.offset.toNat + s.length.toNat) := by
  have hstart := starStart_le h
  have hlimit := readLimit_lt file.length starStart t.maxEagerEnd
  have hsize : (file.take (readLimit file.length starStart t.maxEagerEnd)).length =
      readLimit file.length starStart t.maxEagerEnd :=
    List.length_take_of_le (Nat.min_le_left _ _)
  simp only [maxShimSize] at hstart
  unfold SectionReadsInside
  simp only [hsize]
  by_cases hpast : readLimit file.length starStart t.maxEagerEnd < starStart
  · obtain ⟨hwrap, hlow⟩ := (readLimit_lt_start_iff h).mp hpast
    have hvalue := readLimit_of_wrap h hwrap
    constructor
    · intro hread _ _ s hs hflags
      by_contra hle
      obtain ⟨⟨start, length⟩, hr⟩ :=
        (starSectionRange_past_end hpast (by omega) s).mpr ⟨hflags, by omega⟩
      have := hread s hs start length hr
      omega
    · intro hcond s hs start length hr
      obtain ⟨hflags, hsum⟩ :=
        (starSectionRange_past_end hpast (by omega) s).mp ⟨(start, length), hr⟩
      have := hcond hwrap hlow s hs hflags
      omega
  · constructor
    · intro _ hwrap hlow
      exact absurd ((readLimit_lt_start_iff h).mpr ⟨hwrap, hlow⟩) hpast
    · intro _ s _ start length hr
      obtain ⟨rfl, rfl, hle⟩ :=
        (starSectionRange_ok_iff (by omega) hlimit s start length).mp hr
      exact ⟨rfl, rfl, by omega, hle⟩

lemma starVerifyCall_eq_some_iff (start : Nat) (sections : List StarSection)
    (data : Octets) (n : Nat) :
    starVerifyCall start sections data = some n ↔
    byteAt data (start + 7) &&& starFlagSigned ≠ 0 ∧
    (∀ s ∈ sections, s.id ≠ secAssets → ¬ s.deferred) ∧
    n = sigStart start sections ∧ addU64 n sigLen ≤ data.length := by
  simp only [starVerifyCall]
  split_ifs with h₁ h₂ h₃
  · simp [h₁]
  · obtain ⟨s, hs, hid, hdef⟩ := h₂
    simp only [false_iff]
    rintro ⟨-, hall, -⟩
    exact hall s hs hid hdef
  · simp only [false_iff]
    rintro ⟨-, -, rfl, hle⟩
    omega
  · rw [Option.some.injEq]
    constructor
    · rintro rfl
      refine ⟨h₁, ?_, rfl, by omega⟩
      intro s hs hid hdef
      exact h₂ ⟨s, hs, hid, hdef⟩
    · rintro ⟨-, -, rfl, -⟩
      rfl

lemma verifyInside_iff {file : Octets} {start : Nat} {t : StarTable}
    (h : starTableOf file = some (start, t)) :
    VerifyInside ⟨start, t.sections,
    file.take (readLimit file.length start t.maxEagerEnd)⟩ ↔
    (2 ^ 64 + starHeaderSize ≤ t.maxEagerEnd.toNat + sigLen →
    start + t.maxEagerEnd.toNat < 2 ^ 64 →
    byteAt file (start + 7) &&& starFlagSigned = 0 ∨
    ∃ s ∈ t.sections, s.id ≠ secAssets ∧ s.deferred) := by
  obtain ⟨hmax, -⟩ := starTable_fits h
  have hsize : (file.take (readLimit file.length start t.maxEagerEnd)).length =
      readLimit file.length start t.maxEagerEnd :=
    List.length_take_of_le (Nat.min_le_left _ _)
  have hsig : sigStart start t.sections = addU64 start t.maxEagerEnd.toNat := by
    rw [sigStart, ← hmax]
  unfold VerifyInside
  simp only [starVerifyCall_eq_some_iff, hsig]
  simp only [sigLen, starHeaderSize] at *
  constructor
  · intro hin hhigh hlow
    have hlimit := readLimit_of_wrap h (by simp only [sigLen]; omega)
    simp only [sigLen] at hlimit
    have hflag : byteAt (file.take (readLimit file.length start t.maxEagerEnd))
        (start + 7) = byteAt file (start + 7) := byteAt_take (by omega)
    by_contra hnone
    rw [not_or] at hnone
    have hcall := hin (by omega) (addU64 start t.maxEagerEnd.toNat)
      ⟨by rw [hflag]; exact hnone.1, fun s hs hid hdef => hnone.2 ⟨s, hs, hid, hdef⟩, rfl, by
        rw [addU64_addU64]; omega⟩
    omega
  · rintro hcond hhead n ⟨hflag, hdef, rfl, hle⟩
    have hflag' : byteAt (file.take (readLimit file.length start t.maxEagerEnd))
        (start + 7) = byteAt file (start + 7) := byteAt_take (by omega)
    rw [hflag'] at hflag
    have hnowrap : ¬ (2 ^ 64 + 12 ≤ t.maxEagerEnd.toNat + 64 ∧
        start + t.maxEagerEnd.toNat < 2 ^ 64) := by
      rintro ⟨hhigh, hlow⟩
      rcases hcond hhigh hlow with hzero | ⟨s, hs, hid, hd⟩
      · exact hflag hzero
      · exact hdef s hs hid hd
    by_cases hwrap : 2 ^ 64 ≤ start + t.maxEagerEnd.toNat + 64
    · have hlimit := readLimit_of_wrap h (by simp only [sigLen]; omega)
      simp only [sigLen] at hlimit
      unfold addU64 at hle ⊢
      omega
    · unfold addU64 at hle ⊢
      omega

/-- Every access of the decoder and of the signature check lies inside the loaded
data exactly when the table is confined. -/
theorem loader_accesses_inside_iff (file : Octets) :
    (∀ b, starLoadBounded file = some b → SectionReadsInside b ∧ VerifyInside b) ↔
      ∀ starStart t, starTableOf file = some (starStart, t) → TableConfined file starStart t := by
  constructor
  · intro hsafe starStart t h
    obtain ⟨hread, hverify⟩ :=
      hsafe _ ((starLoadBounded_eq_some_iff file _).mpr ⟨starStart, t, h, rfl⟩)
    exact ⟨(sectionReadsInside_iff h).mp hread, (verifyInside_iff h).mp hverify⟩
  · intro hconf b hb
    obtain ⟨starStart, t, h, rfl⟩ := (starLoadBounded_eq_some_iff file b).mp hb
    obtain ⟨hread, hverify⟩ := hconf starStart t h
    exact ⟨(sectionReadsInside_iff h).mpr hread, (verifyInside_iff h).mpr hverify⟩

/-- A section whose end wraps the read limit to two octets, below the container's start. -/
def wrappedSection : StarSection where
  id := secFrontend
  encodeFlags := flagObfuscated
  metaFlags := 0
  offset := 0xFFFFFFFFFFFFFFB4
  length := 10
  crc32 := 0

def wrappedFile : Octets :=
  [0, 0, 0, 0] ++ starMagic ++ [2, 0, 1, 0, 0, 0, 0, 0] ++ wrappedSection.toBytes

/-- The loader accepts the file, and decoding its section for JavaScript reads ten
octets that start 72 below the two octets of file data. -/
theorem wrappedFile_reads_outside :
    ¬ (∀ b, starLoadBounded wrappedFile = some b → SectionReadsInside b ∧ VerifyInside b) := by
  intro h
  have hload : starLoadBounded wrappedFile = some ⟨4, [wrappedSection], [0, 0]⟩ := by
    decide +kernel
  have hrange : starSectionRange 2 4 wrappedSection = .ok (2 ^ 64 - 72, 10) := by
    decide +kernel
  have hread := (h _ hload).1 wrappedSection (by simp) _ _ hrange
  exact absurd hread.2.2.2 (by decide)

end Millennium.Star
