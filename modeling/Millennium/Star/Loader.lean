import Millennium.Star.Decompress
import Millennium.Star.Parity

/-!
# Loading a `.star` file

`star_load_bounded` reads the section table and then the part of the file that the non-deferred
sections need. Sizes are `size_t`, and the model keeps every wrap.
-/

namespace Millennium.Star

open Bytes Outcome List Option

/-- Where the container starts: at once, or behind a length-prefixed shim. -/
def starStartOf (file : Octets) : Option Nat :=
  if file.length < 8 then none
  else
    let pre := slice file 0 4
    if pre ≠ starMagic then
      let shimLen := (readU32Le pre).toNat
      if maxShimSize < shimLen ∨ file.length < 4 + shimLen then none else some (4 + shimLen)
    else some 0

def starSectionCount (file : Octets) (starStart : Nat) : Option Nat :=
  if file.length < starStart + starHeaderSize then none
  else
    let hdr := slice file starStart starHeaderSize
    if slice hdr 0 4 ≠ starMagic then none
    else if byteAt hdr 4 ≠ formatVersion then none
    else
      let sectionCount := (byteAt hdr 6).toNat
      if maxSections < sectionCount then none
      else if file.length < starStart + starHeaderSize + sectionCount * starEntrySize then none
      else some sectionCount

structure StarTable where
  sections : List StarSection
  maxEagerEnd : UInt64
  deriving Repr, DecidableEq

/-- The maximum of the ends of sections that are not deferred. Sums wrap as `uint64_t` does. -/
def eagerEnd (m : UInt64) (s : StarSection) : UInt64 :=
  if s.deferred then m else if m < s.offset + s.length then s.offset + s.length else m

def admitSection (t : StarTable) (s : StarSection) : Option StarTable :=
  if s.required ∧ ¬ s.known then none
  else if ¬ s.deferred ∧ maxSectionSize < s.length.toNat then none
  else some ⟨t.sections ++ [s], eagerEnd t.maxEagerEnd s⟩

def starReadSections (tbl : Octets) (count : Nat) : Option StarTable :=
  (List.range count).foldlM (fun t i => admitSection t (readSection (tbl.drop (i * starEntrySize))))
    ⟨[], 0⟩

/-- Everything `star_load_bounded` reads before it reads the data. -/
def starTableOf (file : Octets) : Option (Nat × StarTable) := do
  let starStart ← starStartOf file
  let count ← starSectionCount file starStart
  let table ← starReadSections
    (slice file (starStart + starHeaderSize) (count * starEntrySize)) count
  some (starStart, table)

structure StarBounded where
  starStart : Nat
  sections : List StarSection
  fileData : Octets
  deriving Repr, DecidableEq

/-- The non-deferred part of the file and one signature slot behind it. -/
def readLimit (fileSize starStart : Nat) (maxEagerEnd : UInt64) : Nat :=
  min fileSize (addU64 (addU64 starStart maxEagerEnd.toNat) sigLen)

def starLoadBounded (file : Octets) : Option StarBounded :=
  (starTableOf file).map fun (starStart, table) =>
    { starStart := starStart
      sections := table.sections
      fileData := file.take (readLimit file.length starStart table.maxEagerEnd) }

def hex2 (b : UInt8) : String :=
  String.ofList [Nat.digitChar (b.toNat / 16), Nat.digitChar (b.toNat % 16)]

/-- The bounds checks of `star_decode_section`: where the bytes are that it copies. -/
def starSectionRange (size starStart : Nat) (sec : StarSection) : Except Fault (Nat × Nat) :=
  let absStart := addU64 starStart sec.offset.toNat
  if sec.encodeFlags = 0 then
    if size < starStart ∨ subU64 size starStart < sec.offset.toNat then
      .error (.runtimeError s!"section 0x{hex2 sec.id} out of bounds")
    else if subU64 size absStart < sec.length.toNat then
      .error (.runtimeError s!"section 0x{hex2 sec.id} out of bounds")
    else .ok (absStart, sec.length.toNat)
  else if subU64 size starStart < sec.offset.toNat then
    .error (.runtimeError s!"section 0x{hex2 sec.id} offset overflow")
  else if subU64 size absStart < sec.length.toNat then
    .error (.runtimeError s!"section 0x{hex2 sec.id} extends beyond file")
  else .ok (absStart, sec.length.toNat)

def starDecodeBlob (encodeFlags : UInt8) (blob : Octets) : Except Fault Octets :=
  if encodeFlags = 0 then .ok blob
  else do
    let blob := if encodeFlags &&& flagObfuscated ≠ 0 then starXorDecode blob else blob
    let stripped ← starStripParity blob
    if encodeFlags &&& flagCompressed ≠ 0 then starDecompress stripped else .ok stripped

def starDecodeSection (fileData : Octets) (starStart : Nat) (sec : StarSection) :
    Except Fault Octets := do
  let (start, length) ← starSectionRange fileData.length starStart sec
  let blob ← readRange fileData start length
  starDecodeBlob sec.encodeFlags blob

/-- The `find_section` lambda of `parse_star_file`: the first entry with an id. -/
def findSection (sections : List StarSection) (id : UInt8) : Option StarSection :=
  sections.find? (·.id = id)

/-- The maximum `star_is_trusted` recomputes, over the sections in table order. -/
def maxEagerEnd (sections : List StarSection) : UInt64 := sections.foldl eagerEnd 0

/-- Where the signature is looked for, which is also the length of the signed
message. -/
def sigStart (starStart : Nat) (sections : List StarSection) : Nat :=
  addU64 starStart (maxEagerEnd sections).toNat

/-- `star_is_trusted` up to the verifier: the length of the message, where the signature starts. -/
def starVerifyCall (starStart : Nat) (sections : List StarSection) (data : Octets) :
    Option Nat :=
  if byteAt data (starStart + 7) &&& starFlagSigned = 0 then none
  else if ∃ s ∈ sections, s.id ≠ secAssets ∧ s.deferred then none
  else
    let sigStart := sigStart starStart sections
    if data.length < addU64 sigStart sigLen then none else some sigStart

/-- `star_is_trusted`; the key is fixed, so the verifier is a predicate. -/
def starIsTrusted (verify : Octets → Octets → Bool) (starStart : Nat)
    (sections : List StarSection) (data : Octets) : Except Fault Bool :=
  match starVerifyCall starStart sections data with
  | none => .ok false
  | some n => do
      let message ← readRange data 0 n
      let signature ← readRange data n sigLen
      .ok (verify message signature)

lemma starStartOf_eq_some_iff (file : Octets) (start : Nat) :
    starStartOf file = some start ↔
    8 ≤ file.length ∧
    ((slice file 0 4 = starMagic ∧ start = 0) ∨
    (slice file 0 4 ≠ starMagic ∧ start = 4 + (readU32Le (slice file 0 4)).toNat ∧
    start ≤ 4 + maxShimSize ∧ start ≤ file.length)) := by
  unfold starStartOf
  by_cases hlen : file.length < 8
  · rw [if_pos hlen]
    constructor
    · intro h
      cases h
    · omega
  · rw [if_neg hlen]
    by_cases hmagic : slice file 0 4 = starMagic
    · simp only [hmagic, ne_eq, not_true_eq_false, if_false, some.injEq, true_and,
        false_and, or_false]
      constructor
      · intro h
        exact ⟨by omega, h.symm⟩
      · rintro ⟨-, h⟩
        exact h.symm
    · simp only [hmagic, ne_eq, not_false_eq_true, if_true, false_and, true_and, false_or]
      by_cases hshim : maxShimSize < (readU32Le (slice file 0 4)).toNat ∨
          file.length < 4 + (readU32Le (slice file 0 4)).toNat
      · rw [if_pos hshim]
        constructor
        · intro h
          cases h
        · omega
      · rw [if_neg hshim, some.injEq]
        constructor
        · omega
        · rintro ⟨-, h, -⟩
          exact h.symm

lemma starSectionCount_eq_some_iff (file : Octets) (start count : Nat) :
    starSectionCount file start = some count ↔
    slice file start 4 = starMagic ∧ byteAt file (start + 4) = formatVersion ∧
    count = (byteAt file (start + 6)).toNat ∧ count ≤ maxSections ∧
    start + starHeaderSize + count * starEntrySize ≤ file.length := by
  have hm : slice (slice file start starHeaderSize) 0 4 = slice file start 4 :=
    slice_slice (by decide)
  have hv : byteAt (slice file start starHeaderSize) 4 = byteAt file (start + 4) :=
    byteAt_slice (by decide)
  have hc : byteAt (slice file start starHeaderSize) 6 = byteAt file (start + 6) :=
    byteAt_slice (by decide)
  unfold starSectionCount
  simp only [hm, hv, hc]
  split_ifs with h₁ h₂ h₃ h₄ h₅
  · simp only [false_iff]
    omega
  · simp [h₂]
  · simp [h₃]
  · simp only [false_iff, not_and]
    omega
  · simp only [false_iff, not_and]
    intro _ _ hcount
    subst hcount
    omega
  · rw [ne_eq, not_not] at h₂ h₃
    simp only [h₂, h₃, some.injEq, true_and]
    constructor
    · rintro rfl
      omega
    · rintro ⟨h, -⟩
      exact h.symm

def tableEntries (file : Octets) (starStart count : Nat) : List StarSection :=
  (List.range count).map fun i =>
    readSection (file.drop (starStart + starHeaderSize + i * starEntrySize))

@[simp] lemma tableEntries_length (file : Octets) (start count : Nat) :
    (tableEntries file start count).length = count := by
  simp [tableEntries]

lemma tableEntries_succ (file : Octets) (start n : Nat) :
    tableEntries file start (n + 1) = tableEntries file start n ++
    [readSection (file.drop (start + starHeaderSize + n * starEntrySize))] := by
  simp [tableEntries, range_succ]

/-- The entries the table loop lets through. -/
def StarSection.Admissible (s : StarSection) : Prop :=
  ¬ (s.required ∧ ¬ s.known) ∧ ¬ (¬ s.deferred ∧ maxSectionSize < s.length.toNat)

lemma admitSection_eq_some_iff (t t' : StarTable) (s : StarSection) : admitSection t s = some t' ↔
    s.Admissible ∧ t' = ⟨t.sections ++ [s], eagerEnd t.maxEagerEnd s⟩ := by
  unfold admitSection StarSection.Admissible
  split_ifs with h₁ h₂
  · simp [h₁]
  · simp [h₂]
  · simp [h₁, h₂, eq_comm]

lemma foldlM_admitSection (l : List StarSection) (t t' : StarTable) :
    l.foldlM admitSection t = some t' ↔
    (∀ s ∈ l, s.Admissible) ∧ t' = ⟨t.sections ++ l, l.foldl eagerEnd t.maxEagerEnd⟩ := by
  induction l generalizing t with
  | nil =>
    simp [eq_comm]
  | cons s rest ih =>
    rw [foldlM_cons, bind_eq_bind, bind_eq_some_iff]
    constructor
    · rintro ⟨t₁, hs, hrest⟩
      obtain ⟨hadm, rfl⟩ := (admitSection_eq_some_iff t t₁ s).mp hs
      obtain ⟨hall, rfl⟩ := (ih _).mp hrest
      refine ⟨?_, by simp⟩
      intro x hx
      rcases mem_cons.mp hx with rfl | hx
      · exact hadm
      · exact hall x hx
    · rintro ⟨hall, rfl⟩
      refine ⟨_, (admitSection_eq_some_iff t _ s).mpr ⟨hall s (by simp), rfl⟩, ?_⟩
      refine (ih _).mpr ⟨fun x hx => hall x (by simp [hx]), by simp⟩

lemma readSection_slice {file : Octets} {start count i : Nat} (hi : i < count) :
    readSection ((slice file start (count * starEntrySize)).drop (i * starEntrySize)) =
    readSection (file.drop (start + i * starEntrySize)) := by
  have hentry : starEntrySize = 256 := rfl
  have hle : (i + 1) * starEntrySize ≤ count * starEntrySize := Nat.mul_le_mul_right _ hi
  rw [Nat.add_mul] at hle
  apply readSection_congr
  intro j hj
  have hused : entryUsed = 28 := rfl
  rw [byteAt_drop, byteAt_drop, byteAt_slice (by omega)]
  congr 1
  omega

lemma starReadSections_eq_some_iff (file : Octets) (start count : Nat) (t : StarTable) :
    starReadSections (slice file (start + starHeaderSize) (count * starEntrySize)) count =
    some t ↔
    (∀ s ∈ tableEntries file start count, s.Admissible) ∧
    t = ⟨tableEntries file start count, maxEagerEnd (tableEntries file start count)⟩ := by
  have hmap : (List.range count).map (fun i => readSection
      ((slice file (start + starHeaderSize) (count * starEntrySize)).drop
        (i * starEntrySize))) = tableEntries file start count := by
    apply map_congr_left
    intro i hi
    exact readSection_slice (mem_range.mp hi)
  unfold starReadSections
  rw [← foldlM_map, hmap, foldlM_admitSection]
  rfl

lemma starTableOf_eq_some_iff (file : Octets) (starStart : Nat) (t : StarTable) :
    starTableOf file = some (starStart, t) ↔
    ∃ count, starStartOf file = some starStart ∧
    starSectionCount file starStart = some count ∧
    (∀ s ∈ tableEntries file starStart count, s.Admissible) ∧
    t = ⟨tableEntries file starStart count,
    maxEagerEnd (tableEntries file starStart count)⟩ := by
  unfold starTableOf
  simp only [bind_eq_bind, bind_eq_some_iff, some.injEq, Prod.mk.injEq]
  constructor
  · rintro ⟨start, hstart, count, hcount, t₁, ht, rfl, rfl⟩
    obtain ⟨hall, ht⟩ := (starReadSections_eq_some_iff file start count t₁).mp ht
    exact ⟨count, hstart, hcount, hall, ht⟩
  · rintro ⟨count, hstart, hcount, hall, ht⟩
    exact ⟨starStart, hstart, count, hcount, t,
      (starReadSections_eq_some_iff file starStart count t).mpr ⟨hall, ht⟩, rfl, rfl⟩

lemma starLoadBounded_eq_some_iff (file : Octets) (b : StarBounded) :
    starLoadBounded file = some b ↔
    ∃ starStart t, starTableOf file = some (starStart, t) ∧
    b = ⟨starStart, t.sections, file.take (readLimit file.length starStart t.maxEagerEnd)⟩ := by
  unfold starLoadBounded
  rw [map_eq_some_iff]
  constructor
  · rintro ⟨⟨start, t⟩, ht, rfl⟩
    exact ⟨start, t, ht, rfl⟩
  · rintro ⟨start, t, ht, rfl⟩
    exact ⟨(start, t), ht, rfl⟩

lemma starStartOf_le {file : Octets} {start : Nat} (h : starStartOf file = some start) :
    start ≤ 4 + maxShimSize := by
  obtain ⟨-, ⟨-, rfl⟩ | ⟨-, -, hle, -⟩⟩ := (starStartOf_eq_some_iff file start).mp h
  · exact Nat.zero_le _
  · exact hle

lemma starStart_le {file : Octets} {start : Nat} {t : StarTable}
    (h : starTableOf file = some (start, t)) : start ≤ 4 + maxShimSize := by
  obtain ⟨count, hstart, -, -, -⟩ := (starTableOf_eq_some_iff file start t).mp h
  exact starStartOf_le hstart

lemma starTable_fits {file : Octets} {start : Nat} {t : StarTable}
    (h : starTableOf file = some (start, t)) :
    t.maxEagerEnd = maxEagerEnd t.sections ∧
    start + starHeaderSize + t.sections.length * starEntrySize ≤ file.length := by
  obtain ⟨count, -, hcount, -, rfl⟩ := (starTableOf_eq_some_iff file start t).mp h
  obtain ⟨-, -, -, -, hle⟩ := (starSectionCount_eq_some_iff file start count).mp hcount
  exact ⟨rfl, by rw [tableEntries_length]; exact hle⟩

lemma loaded_iff (file : Octets) (b : StarBounded) : starLoadBounded file = some b ↔
    ∃ count, starStartOf file = some b.starStart ∧
    starSectionCount file b.starStart = some count ∧
    b.sections = tableEntries file b.starStart count ∧
    (∀ s ∈ b.sections, s.Admissible) ∧
    b.fileData = file.take (readLimit file.length b.starStart (maxEagerEnd b.sections)) := by
  rw [starLoadBounded_eq_some_iff]
  constructor
  · rintro ⟨start, t, h, rfl⟩
    obtain ⟨count, hstart, hcount, hall, rfl⟩ := (starTableOf_eq_some_iff _ _ _).mp h
    exact ⟨count, hstart, hcount, rfl, hall, rfl⟩
  · rintro ⟨count, hstart, hcount, hsec, hall, hdata⟩
    refine ⟨b.starStart, ⟨b.sections, maxEagerEnd b.sections⟩, ?_, ?_⟩
    · exact (starTableOf_eq_some_iff _ _ _).mpr
        ⟨count, hstart, hcount, hsec ▸ hall, by rw [hsec]⟩
    · rw [← hdata]

lemma le_eagerEnd (m : UInt64) (s : StarSection) : m ≤ eagerEnd m s := by
  unfold eagerEnd
  split_ifs with h₁ h₂
  · exact UInt64.le_refl _
  · exact UInt64.le_of_lt h₂
  · exact UInt64.le_refl _

lemma le_foldl_eagerEnd (l : List StarSection) (m : UInt64) : m ≤ l.foldl eagerEnd m := by
  induction l generalizing m with
  | nil => exact UInt64.le_refl _
  | cons s rest ih => exact UInt64.le_trans (le_eagerEnd m s) (ih _)

lemma end_le_maxEagerEnd {sections : List StarSection} {s : StarSection} (hs : s ∈ sections)
    (hdef : ¬ s.deferred) : s.offset + s.length ≤ maxEagerEnd sections := by
  obtain ⟨pre, post, rfl⟩ := append_of_mem hs
  rw [maxEagerEnd, foldl_append]
  refine UInt64.le_trans ?_ (le_foldl_eagerEnd post _)
  unfold eagerEnd
  split_ifs with h
  · exact UInt64.le_refl _
  · exact UInt64.not_lt.mp h

lemma maxEagerEnd_le {sections : List StarSection} {bound : UInt64}
    (h : ∀ s ∈ sections, ¬ s.deferred → s.offset + s.length ≤ bound) :
    maxEagerEnd sections ≤ bound := by
  have hfold (l : List StarSection) (hl : ∀ s ∈ l, ¬ s.deferred → s.offset + s.length ≤ bound)
      (m : UInt64) (hm : m ≤ bound) : l.foldl eagerEnd m ≤ bound := by
    induction l generalizing m with
    | nil => exact hm
    | cons s rest ih =>
      refine ih (fun x hx => hl x (mem_cons_of_mem _ hx)) _ ?_
      unfold eagerEnd
      split_ifs with hdef _
      · exact hm
      · exact hl s mem_cons_self hdef
      · exact hm
  exact hfold sections h 0 UInt64.zero_le

lemma maxEagerEnd_append (l : List StarSection) (s : StarSection) :
    maxEagerEnd (l ++ [s]) = eagerEnd (maxEagerEnd l) s := by
  simp [maxEagerEnd]

lemma findSection_mem {sections : List StarSection} {id : UInt8} {s : StarSection}
    (h : findSection sections id = some s) : s ∈ sections ∧ s.id = id :=
  ⟨mem_of_find?_eq_some h, by simpa using find?_some h⟩

lemma readRange_eq_ok_iff (data : Octets) (start length : Nat) (r : Octets) :
    readRange data start length = .ok r ↔
    start + length ≤ data.length ∧ r = slice data start length := by
  unfold readRange
  split_ifs with h
  · simp [h, eq_comm]
  · simp [h]

end Millennium.Star
