import Millennium.Lib.FileStream
import Millennium.Star.Sign
import Millennium.Star.SubEntries

/-!
# The index of the assets

`star_read_asset_index` walks over the table of the assets in the container and notes for each where
its data are; it reads the headers and the names and skips the data.
-/

namespace Millennium.Star

open Bytes FileStream Records List Function Option UInt64 Stream Nat Container

structure AssetEntry where
  fileOffset : ℕ
  compressedLength : ℕ
  uncompressedLength : ℕ
  deriving Repr, DecidableEq

abbrev AssetIndex := Octets → Option AssetEntry

/-- The first part of `star_read_asset_index`, with the checks of the header. -/
def findAssets (file : Octets) : Option (ℕ × StarSection) := do
  let starStart ← starStartOf file
  let sectionCount ← starSectionCount file starStart
  let entry ← findSection (tableEntries file starStart sectionCount) secAssets
  some (starStart, entry)

/-- The checks of this entry: where the assets begin and how long they are. -/
def assetsSection (file : Octets) : Option (ℕ × ℕ) := do
  let (starStart, entry) ← findAssets file
  if entry.encodeFlags ≠ 0 then none
  else if entry.length = 0 then none
  else if file.length - starStart < entry.offset.toNat then none
  else
    let assetsStart := starStart + entry.offset.toNat
    if file.length - assetsStart < entry.length.toNat then none
    else if file.length < assetsStart + 4 then none
    else some (assetsStart, entry.length.toNat)

/-- Past the data of an asset. The first four octets are the size before compression. -/
def skipData (file : Octets) (dataLen : ℕ) (f : Stream) : ℕ × Stream :=
  if 4 ≤ dataLen then
    match f.read file 4 with
    | (some szBuf, f) => ((readU32Le szBuf).toNat, f.seekOn (dataLen - 4))
    | (none, f) => (0, f)
  else if 0 < dataLen then (0, f.seekOn dataLen)
  else (0, f)

def walkAssets (file : Octets) : ℕ → Stream → AssetIndex → AssetIndex
  | 0, _, result => result
  | n + 1, f, result =>
    match f.read file 6 with
    | (none, _) => result
    | (some subHdr, f) =>
      let nameLen := (readU16Le subHdr).toNat
      let dataLen := (readU32Le (subHdr.drop 2)).toNat
      match f.read file nameLen with
      | (none, _) => result
      | (some name, f) =>
        let dataOffset := f.tell
        let (uncompressedLength, f) := skipData file dataLen f
        walkAssets file n f
          (update result name (some ⟨dataOffset, dataLen, uncompressedLength⟩))

def maxAssets : ℕ := 65536

def starReadAssetIndex (file : Octets) : AssetIndex :=
  match assetsSection file with
  | none => fun _ => none
  | some (assetsStart, _) =>
    match read file 4 ⟨assetsStart, false⟩ with
    | (none, _) => fun _ => none
    | (some countBuf, f) =>
      let count := (readU32Le countBuf).toNat
      if maxAssets < count then fun _ => none else walkAssets file count f fun _ => none

/-- The header and the name of the sub-entry at a place are in the file. -/
def Named (file : Octets) (pos : ℕ) : Prop :=
  pos + 6 + (readU16Le (file.drop pos)).toNat ≤ file.length

def nameAt (file : Octets) (pos : ℕ) : Octets :=
  slice file (pos + 6) (readU16Le (file.drop pos)).toNat

def noted (file : Octets) (pos : ℕ) : AssetEntry where
  fileOffset := pos + 6 + (readU16Le (file.drop pos)).toNat
  compressedLength := (readU32Le (file.drop (pos + 2))).toNat
  uncompressedLength :=
    let dataStart := pos + 6 + (readU16Le (file.drop pos)).toNat
    if 4 ≤ (readU32Le (file.drop (pos + 2))).toNat ∧ dataStart + 4 ≤ file.length then
      (readU32Le (file.drop dataStart)).toNat
    else 0

section
variable {file : Octets} {pos : ℕ} (n : ℕ) (result : AssetIndex)

lemma walkAssets_stopped {f : Stream} (h : f.failed = true ∨ file.length < f.pos + 6) :
    walkAssets file n f result = result := by
  cases n with
  | zero => rfl
  | succ n =>
    obtain ⟨pos, failed⟩ := f
    cases failed with
    | true => rw [walkAssets, read_of_failed rfl]
    | false =>
      have hshort : file.length < pos + 6 := h.resolve_left Bool.false_ne_true
      rw [walkAssets, read_of_lt (by omega)]

lemma readU32Le_slice {off len : ℕ} (h : 4 ≤ len) :
    readU32Le (slice file off len) = readU32Le (file.drop off) := by
  apply readU32Le_congr
  intro i hi
  rw [byteAt_drop, byteAt_slice (by omega)]

lemma readU16Le_slice {off len : ℕ} (h : 2 ≤ len) :
    readU16Le (slice file off len) = readU16Le (file.drop off) := by
  simp only [readU16Le, byteAt_drop, byteAt_slice (show 0 < len by omega),
    byteAt_slice (show 1 < len by omega)]

lemma skipData_spec (file : Octets) (dataLen pos : ℕ) : ∃ f, skipData file dataLen ⟨pos, false⟩ =
        (if 4 ≤ dataLen ∧ pos + 4 ≤ file.length then (readU32Le (file.drop pos)).toNat else 0, f) ∧
      (f = ⟨pos + dataLen, false⟩ ∨ f.failed = true ∧ file.length < pos + dataLen) := by
  rw [skipData]
  by_cases hfour : 4 ≤ dataLen
  · rw [if_pos hfour]
    by_cases hroom : pos + 4 ≤ file.length
    · rw [read_of_le (by omega), if_pos ⟨hfour, hroom⟩]
      refine ⟨⟨pos + dataLen, false⟩, ?_, .inl rfl⟩
      have hword := @readU32Le_slice file pos 4 le_rfl
      have hpos : pos + 4 + (dataLen - 4) = pos + dataLen := by omega
      simp [hword, seekOn, hpos]
    · rw [read_of_lt (by omega), if_neg (fun h => hroom h.2)]
      exact ⟨_, rfl, .inr ⟨rfl, by omega⟩⟩
  · have hno : ¬ (4 ≤ dataLen ∧ pos + 4 ≤ file.length) := fun h => hfour h.1
    rw [if_neg hfour, if_neg hno]
    refine ⟨⟨pos + dataLen, false⟩, ?_, .inl rfl⟩
    by_cases hpos : 0 < dataLen
    · rw [if_pos hpos]
      rfl
    · rw [if_neg hpos, Nat.eq_zero_of_not_pos hpos, Nat.add_zero]

lemma walkAssets_named (h : Named file pos) : walkAssets file (n + 1) ⟨pos, false⟩ result =
    walkAssets file n ⟨entryFraming.next file pos, false⟩
        (update result (nameAt file pos) (some (noted file pos))) := by
  rw [Named] at h
  have hdl : readU32Le ((slice file pos 6).drop 2) = readU32Le (file.drop (pos + 2)) := by
    rw [slice, drop_take, drop_drop]
    exact readU32Le_slice le_rfl
  obtain ⟨f, hskip, hf⟩ := skipData_spec file (readU32Le (file.drop (pos + 2))).toNat
    (pos + 6 + (readU16Le (file.drop pos)).toNat)
  rw [walkAssets, read_of_le (by omega)]
  simp only [readU16Le_slice (show 2 ≤ 6 by decide), hdl]
  rw [read_of_le (by omega)]
  simp only [hskip]
  rw [entryFraming_next]
  obtain rfl | ⟨hfailed, hend⟩ := hf
  · rfl
  · -- the data end behind the file, so that the next header is missing as well
    rw [walkAssets_stopped n _ (.inl hfailed), walkAssets_stopped n _ (.inr (by dsimp only; omega))]
    rfl

lemma walkAssets_unnamed (h : ¬ Named file pos) :
    walkAssets file (n + 1) ⟨pos, false⟩ result = result := by
  rw [Named] at h
  by_cases hhead : pos + 6 ≤ file.length
  · rw [walkAssets, read_of_le (by omega)]
    simp only [readU16Le_slice (show 2 ≤ 6 by decide)]
    rw [read_of_lt (by omega)]
  · exact walkAssets_stopped _ _ (.inr (by dsimp only; omega))

lemma noted_end (file : Octets) (pos : ℕ) :
    (noted file pos).fileOffset + (noted file pos).compressedLength =
    entryFraming.next file pos := by
  rw [entryFraming_next]
  rfl

lemma Named.of_start {j : ℕ} (h : Named file (entryFraming.start file pos j)) {i : ℕ}
    (hij : i ≤ j) : Named file (entryFraming.start file pos i) := by
  obtain rfl | hlt := hij.eq_or_lt
  · exact h
  · have hle := entryFraming.start_le_start file pos (succ_le_of_lt hlt)
    rw [Framing.start_succ, entryFraming_next] at hle
    rw [Named] at h ⊢
    omega

lemma walkAssets_cases (name : Octets) : walkAssets file n ⟨pos, false⟩ result name = result name ∨
    ∃ j < n, Named file (entryFraming.start file pos j) ∧
    nameAt file (entryFraming.start file pos j) = name ∧
    walkAssets file n ⟨pos, false⟩ result name =
    some (noted file (entryFraming.start file pos j)) := by
  induction n generalizing pos result with
  | zero => exact .inl rfl
  | succ n ih =>
    by_cases hnamed : Named file pos
    · rw [walkAssets_named n result hnamed]
      obtain hresult | ⟨j, hj, hplace⟩ := @ih (entryFraming.next file pos)
        (update result (nameAt file pos) (some (noted file pos)))
      · by_cases hname : name = nameAt file pos
        · rw [hresult, hname, update_self]
          exact .inr ⟨0, succ_pos n, hnamed, rfl, rfl⟩
        · rw [hresult, update_of_ne hname]
          exact .inl rfl
      · exact .inr ⟨j + 1, succ_lt_succ hj, hplace⟩
    · rw [walkAssets_unnamed n result hnamed]
      exact .inl rfl

lemma exists_walkAssets {j : ℕ} (hj : j < n) (h : Named file (entryFraming.start file pos j)) :
    ∃ name entry, walkAssets file n ⟨pos, false⟩ result name = some entry ∧
    entryFraming.start file pos (j + 1) ≤ entry.fileOffset + entry.compressedLength := by
  induction n generalizing pos result j with
  | zero => exact absurd hj (not_lt_zero j)
  | succ n ih =>
    have hnamed : Named file pos := h.of_start (zero_le j)
    rw [walkAssets_named n result hnamed]
    cases j with
    | succ j =>
      obtain ⟨name, entry, hentry, hend⟩ := ih _ (lt_of_succ_lt_succ hj) h
      exact ⟨name, entry, hentry, hend⟩
    | zero =>
      by_cases hmore : 0 < n ∧ Named file (entryFraming.next file pos)
      · obtain ⟨name, entry, hentry, hend⟩ := ih _ hmore.1 hmore.2
        refine ⟨name, entry, hentry, ?_⟩
        exact (le_add_right _ _).trans ((entryFraming.header_le_next file _).trans hend)
      · refine ⟨nameAt file pos, noted file pos, ?_, (noted_end file pos).ge⟩
        cases n with
        | zero => exact update_self _ _ _
        | succ n =>
          rw [walkAssets_unnamed _ _ fun hnext => hmore ⟨succ_pos n, hnext⟩]
          exact update_self _ _ _

end

section
variable {file : Octets} {assetsStart length : ℕ}

def assetCount (file : Octets) (assetsStart : ℕ) : ℕ := (readU32Le (file.drop assetsStart)).toNat

def assetPlace (file : Octets) (assetsStart i : ℕ) : ℕ :=
  entryFraming.start file (assetsStart + 4) i

lemma four_le_of_assetsSection (h : assetsSection file = some (assetsStart, length)) :
    assetsStart + 4 ≤ file.length := by
  simp only [assetsSection, bind_eq_bind, bind_eq_some_iff] at h
  obtain ⟨⟨starStart, entry⟩, -, h⟩ := h
  split_ifs at h with _ _ _ _ hroom
  obtain ⟨rfl, -⟩ := Prod.mk.inj (some.inj h)
  exact not_lt.mp hroom

lemma starReadAssetIndex_eq (h : assetsSection file = some (assetsStart, length)) :
    starReadAssetIndex file =
      if maxAssets < assetCount file assetsStart then fun _ => none
      else walkAssets file (assetCount file assetsStart) ⟨assetsStart + 4, false⟩
        fun _ => none := by
  have hroom := four_le_of_assetsSection h
  have hcount : (readU32Le (slice file assetsStart 4)).toNat = assetCount file assetsStart :=
    congrArg UInt32.toNat (readU32Le_slice le_rfl)
  rw [starReadAssetIndex, h]
  dsimp only
  rw [read_of_le (by omega), ← hcount]

def Contained (file : Octets) : Prop :=
  ∀ assetsStart length, assetsSection file = some (assetsStart, length) →
    ∀ name entry, starReadAssetIndex file name = some entry →
      assetsStart + 4 ≤ entry.fileOffset ∧
        entry.fileOffset + entry.compressedLength ≤ assetsStart + length

/-- The sub-entries end in the section, or the end of the file cuts off the header or the name of
the first that does not. -/
def SubEntriesFit (file : Octets) (assetsStart length : ℕ) : Prop :=
  (∀ j < assetCount file assetsStart, assetPlace file assetsStart (j + 1) ≤ assetsStart + length) ∨
    ∃ m < assetCount file assetsStart,
      (∀ j < m, assetPlace file assetsStart (j + 1) ≤ assetsStart + length) ∧
        ¬ Named file (assetPlace file assetsStart m)

lemma subEntriesFit_iff : SubEntriesFit file start length ↔
    ∀ j < assetCount file start, Named file (assetPlace file start j) →
    assetPlace file start (j + 1) ≤ start + length := by
  constructor
  · rintro (hall | ⟨m, -, hbefore, hnot⟩) j hj hnamed
    · exact hall j hj
    · refine hbefore j (not_le.mp fun hmj => hnot ?_)
      exact hnamed.of_start hmj
  · intro h
    by_cases hall : ∀ j < assetCount file start, Named file (assetPlace file start j)
    · exact .inl fun j hj => h j hj (hall j hj)
    · have hex : ∃ m, m < assetCount file start ∧
          ¬ Named file (assetPlace file start m) := by
        push Not at hall
        exact hall
      classical
      obtain ⟨hcount, hnot⟩ := Nat.find_spec hex
      refine .inr ⟨Nat.find hex, hcount, fun j hj => ?_, hnot⟩
      have hlt : j < assetCount file start := hj.trans hcount
      have hmin := Nat.find_min hex hj
      push Not at hmin
      exact h j hlt (hmin hlt)

/-- Nothing but the end of the file stops the walk at the end of the section. -/
theorem contained_iff (file : Octets) : Contained file ↔
      ∀ assetsStart length, assetsSection file = some (assetsStart, length) →
        assetCount file assetsStart ≤ maxAssets → SubEntriesFit file assetsStart length := by
  constructor
  · intro h assetsStart length hsection hcount
    rw [subEntriesFit_iff]
    intro j hj hnamed
    obtain ⟨name, entry, hentry, hend⟩ := exists_walkAssets _ (fun _ => none) hj hnamed
    refine hend.trans (h assetsStart length hsection name entry ?_).2
    rw [starReadAssetIndex_eq hsection, if_neg (not_lt.mpr hcount)]
    exact hentry
  · intro h assetsStart length hsection name entry hentry
    rw [starReadAssetIndex_eq hsection] at hentry
    by_cases hcount : maxAssets < assetCount file assetsStart
    · rw [if_pos hcount] at hentry
      cases hentry
    rw [if_neg hcount] at hentry
    have hfit := subEntriesFit_iff.mp (h assetsStart length hsection (not_lt.mp hcount))
    obtain hnone | ⟨j, hj, hnamed, -, hnoted⟩ := walkAssets_cases _ (fun _ => none) name
    · rw [hnone] at hentry
      cases hentry
    obtain rfl := some.inj (hnoted.symm.trans hentry)
    constructor
    · have hbase := entryFraming.start_le_start file (assetsStart + 4) (zero_le j)
      exact hbase.trans ((le_add_right _ _).trans (le_add_right _ _))
    · rw [noted_end, ← Framing.start_succ]
      exact hfit j hj hnamed

def missingData : Octets :=
  (StarHeader.mk formatVersion 0 1 0 0).toBytes ++
    (StarSection.mk secAssets 0 metaFlagDeferred 268 11 0).toBytes ++
    [1, 0, 0, 0, 1, 0, 9, 0, 0, 0, 0x61]

theorem missingData_not_contained : ¬ Contained missingData := by
  intro h
  have hentry := h 268 11 (by decide +kernel) [0x61] ⟨279, 9, 0⟩ (by decide +kernel)
  exact absurd hentry.2 (by decide)

end

structure Asset where
  name : Octets
  original : Octets

def Asset.subEntry (compressPrependSize : Octets → Octets) (a : Asset) : SubEntry :=
  ⟨a.name, compressPrependSize a.original⟩

/-- The fields hold the lengths: two octets for the name, four for the data and its first size. -/
def Asset.Fits (compressPrependSize : Octets → Octets) (a : Asset) : Prop :=
  a.name.length < 2 ^ 16 ∧ (compressPrependSize a.original).length < 2 ^ 32 ∧
    a.original.length < 2 ^ 32

/-- The index has the assets and nothing else. Data end where the next sub-entry begins. -/
structure Indexes (compressPrependSize : Octets → Octets) (assets : List Asset) (file : Octets) :
    Prop where
  each : ∀ before a behind, assets = before ++ a :: behind →
    ∃ entry, starReadAssetIndex file a.name = some entry ∧
      slice file entry.fileOffset entry.compressedLength = compressPrependSize a.original ∧
      entry.compressedLength = (compressPrependSize a.original).length ∧
      entry.fileOffset + entry.compressedLength +
        (behind.flatMap fun b => (b.subEntry compressPrependSize).encode).length = file.length ∧
      entry.uncompressedLength = a.original.length
  only : ∀ name, name ∉ assets.map Asset.name → starReadAssetIndex file name = none

section

lemma noted_lt (file : Octets) (pos : ℕ) :
    (noted file pos).compressedLength < 2 ^ 32 ∧ (noted file pos).uncompressedLength < 2 ^ 32 := by
  refine ⟨(readU32Le _).toNat_lt, ?_⟩
  simp only [noted]
  split_ifs
  · exact (readU32Le _).toNat_lt
  · decide

lemma nameAt_length_lt (file : Octets) (pos : ℕ) : (nameAt file pos).length < 2 ^ 16 := by
  rw [nameAt, slice, length_take]
  exact (min_le_left _ _).trans_lt (readU16Le _).toNat_lt

lemma starReadAssetIndex_lt {file name : Octets} {entry : AssetEntry}
    (h : starReadAssetIndex file name = some entry) :
    name.length < 2 ^ 16 ∧ entry.compressedLength < 2 ^ 32 ∧ entry.uncompressedLength < 2 ^ 32 := by
  cases hsection : assetsSection file with
  | none =>
    rw [starReadAssetIndex, hsection] at h
    cases h
  | some range =>
    rw [starReadAssetIndex_eq hsection] at h
    split_ifs at h
    obtain hnone | ⟨j, -, -, hname, hnoted⟩ := walkAssets_cases _ (fun _ => none) name
    · rw [hnone] at h
      cases h
    · obtain rfl := some.inj (hnoted.symm.trans h)
      rw [← hname]
      exact ⟨nameAt_length_lt _ _, noted_lt _ _⟩

lemma Indexes.fits {compress : Octets → Octets} {assets : List Asset} {file : Octets}
    (h : Indexes compress assets file) : ∀ a ∈ assets, a.Fits compress := by
  intro a ha
  obtain ⟨before, behind, hsplit⟩ := append_of_mem ha
  obtain ⟨entry, hentry, -, hcomp, -, hsize⟩ := h.each before a behind hsplit
  have hlt := starReadAssetIndex_lt hentry
  rwa [hcomp, hsize] at hlt

end

section
variable {file : Octets} {pos : ℕ} {e : SubEntry}

lemma walkAssets_stands (h : Stands e file pos) (n : ℕ) (result : AssetIndex) :
    walkAssets file (n + 1) ⟨pos, false⟩ result =
    walkAssets file n ⟨pos + e.size, false⟩
        (update result e.name (some (noted file pos))) := by
  have hin := h.inside
  have hnamed : Named file pos := by
    rw [Named, h.nameLen]
    omega
  rw [walkAssets_named n result hnamed, h.next_eq, nameAt, h.nameLen, h.name]

lemma walkAssets_fresh {entries : List SubEntry} (hsized : ∀ x ∈ entries, x.Sized)
    (h : Placed SubEntry.size entries (file.drop pos)) {name : Octets}
    (hname : name ∉ entries.map SubEntry.name) (result : AssetIndex) :
    walkAssets file entries.length ⟨pos, false⟩ result name = result name := by
  induction entries generalizing pos result with
  | nil => rfl
  | cons x rest ih =>
    obtain ⟨hfirst, hrest⟩ := h
    rw [drop_drop] at hrest
    obtain ⟨hsize, hsizes⟩ := forall_mem_cons.mp hsized
    rw [map_cons, mem_cons, not_or] at hname
    rw [length_cons, walkAssets_stands (stands_of_begins hsize hfirst),
      ih hsizes hrest hname.2, update_of_ne hname.1]

lemma walkAssets_placed {before behind : List SubEntry}
    (hsized : ∀ x ∈ before ++ e :: behind, x.Sized)
    (hnodup : ((before ++ e :: behind).map SubEntry.name).Nodup)
    (h : Placed SubEntry.size (before ++ e :: behind) (file.drop pos)) (result : AssetIndex) :
    Stands e file (pos + (before.flatMap SubEntry.encode).length) ∧
    walkAssets file (before ++ e :: behind).length ⟨pos, false⟩ result e.name =
    some (noted file (pos + (before.flatMap SubEntry.encode).length)) := by
  induction before generalizing pos result with
  | nil =>
    obtain ⟨hfirst, hrest⟩ := h
    rw [drop_drop] at hrest
    obtain ⟨hsize, hsizes⟩ := forall_mem_cons.mp hsized
    have hstands := stands_of_begins hsize hfirst
    refine ⟨hstands, ?_⟩
    rw [nil_append, length_cons, walkAssets_stands hstands,
      walkAssets_fresh hsizes hrest (nodup_cons.mp hnodup).1, update_self]
    rfl
  | cons x before ih =>
    obtain ⟨hfirst, hrest⟩ := h
    rw [drop_drop] at hrest
    obtain ⟨hsize, hsizes⟩ := forall_mem_cons.mp hsized
    have hstands := stands_of_begins hsize hfirst
    rw [flatMap_cons, length_append, x.encode_length, ← add_assoc, cons_append,
      length_cons, walkAssets_stands hstands]
    exact ih hsizes (nodup_cons.mp hnodup).2 hrest _

lemma Stands.noted_eq (h : Stands e file pos) {size : ℕ} (hsize : size < 2 ^ 32) {block : Octets}
    (hdata : e.data = leBytes 4 size ++ block) :
    noted file pos = ⟨pos + 6 + e.name.length, e.data.length, size⟩ := by
  have hin := h.inside
  have hfour : 4 ≤ e.data.length := by
    rw [hdata, length_append]
    exact le_add_right _ _
  have hword := @readU32Le_slice file (pos + 6 + e.name.length) e.data.length hfour
  rw [h.data, hdata] at hword
  simp only [noted, h.nameLen, h.dataLen]
  rw [if_pos ⟨hfour, by omega⟩, ← hword, readU32Le_leBytes_nat hsize]

end

section
variable {compress : Octets → Octets} {crc32 : Octets → UInt32}
  {trySign : Option (Octets → Octets)} {p : PackInput}

lemma findAssets_packed (hshim : p.shim.length ≤ maxShimSize) :
    findAssets (packed compress crc32 trySign p).toBytes =
    (findSection (packed compress crc32 trySign p).entries secAssets).map
        (4 + (packed compress crc32 trySign p).shim.length, ·) := by
  have hstart := starStartOf_toBytes (packed compress crc32 trySign p)
    (by rwa [packed_shim])
  have hcount := starSectionCount_toBytes (packed_version trySign p)
    packed_sectionCount
    ((@packed_length_le compress crc32 trySign p).trans (by decide))
  simp only [findAssets, hstart, hcount, tableEntries_toBytes, bind_eq_bind, bind_some]
  exact map_eq_bind.symm

lemma placeSections_last (l : List EncodedSection) (n : ℕ) : (placeSections crc32 (ofNat n) l).2 =
    ofNat (n + (l.flatMap EncodedSection.bytes).length) := by
  induction l generalizing n with
  | nil => rfl
  | cons x rest ih =>
    simp [placeSections, ← ofNat_add, ih, add_assoc]

lemma findSection_placeSections (offset : UInt64) : findSection (placeSections crc32 offset
      (encodeSections compress p.rawSections)).1 secAssets = none := by
  apply find?_eq_none.mpr
  intro x hx
  simpa using id_ne_assets hx

/-- The entry of the assets behind sections that end at `bodyEnd`. -/
def assetsEntry (crc32 : Octets → UInt32) (bodyEnd : ℕ) (willSign : Bool) (assets : List SubEntry) :
    StarSection where
  id := secAssets
  encodeFlags := 0
  metaFlags := metaFlagDeferred
  offset := ofNat bodyEnd + if willSign then 64 else 0
  length := ofNat (serializeSubEntries assets).length
  crc32 := crc32 (serializeSubEntries assets)

lemma findSection_packed (hassets : p.assets ≠ []) :
    findSection (packed compress crc32 trySign p).entries secAssets =
    some (assetsEntry crc32 ((packed compress crc32 trySign p).bodyOffset +
    (packed compress crc32 trySign p).body.length) trySign.isSome
        p.assets) := by
  have hnone := @findSection_placeSections compress crc32 p
  simp only [findSection] at hnone
  rw [packed_bodyOffset, packed_body, packed_entries, sectionEntries]
  simp only [if_pos hassets, placeSections_last]
  rw [findSection, find?_append, hnone]
  rfl

lemma packed_tail (hassets : p.assets ≠ [])
    (h64 : ∀ sign ∈ trySign, ∀ msg, (sign msg).length = sigLen) :
    ∃ sig, (packed compress crc32 trySign p).tail =
        sig ++ serializeSubEntries p.assets ∧
      sig.length = if trySign.isSome then 64 else 0 := by
  cases trySign with
  | none => exact ⟨[], if_pos hassets, rfl⟩
  | some sign =>
    refine ⟨sign (packed compress crc32 (some sign) p).signedPart, ?_, h64 sign rfl _⟩
    simp only [packed, signedPart, if_pos hassets]

lemma assetsSection_packed (hassets : p.assets ≠ []) (hshim : p.shim.length ≤ maxShimSize)
    (h64 : ∀ sign ∈ trySign, ∀ msg, (sign msg).length = sigLen)
    (hmemory : (packed compress crc32 trySign p).toBytes.length < 2 ^ 64) :
    ∃ start,
    assetsSection (packed compress crc32 trySign p).toBytes =
    some (start, (serializeSubEntries p.assets).length) ∧
    (packed compress crc32 trySign p).toBytes.drop start =
    serializeSubEntries p.assets := by
  have hfind := @findAssets_packed compress crc32 trySign p hshim
  rw [findSection_packed hassets, map_some] at hfind
  obtain ⟨sig, htail, hsig⟩ := @packed_tail compress crc32 _ p hassets h64
  have hfour : 4 ≤ (serializeSubEntries p.assets).length := by
    rw [serializeSubEntries_eq, length_append]
    exact le_add_right _ _
  generalize packed compress crc32 trySign p = c at *
  have hsize := c.toBytes_length
  rw [htail, length_append] at hsize
  have hgap : (if trySign.isSome then 64 else 0 : UInt64) = ofNat sig.length := by
    rw [hsig]
    split_ifs <;> rfl
  have hoffset : (assetsEntry crc32 (c.bodyOffset + c.body.length) trySign.isSome
      p.assets).offset.toNat = c.bodyOffset + c.body.length + sig.length := by
    rw [assetsEntry, hgap, ← ofNat_add]
    exact toNat_ofNat_of_lt' (by change _ < 2 ^ 64; omega)
  have hlen : (assetsEntry crc32 (c.bodyOffset + c.body.length) trySign.isSome
      p.assets).length.toNat = (serializeSubEntries p.assets).length :=
    toNat_ofNat_of_lt' (by change _ < 2 ^ 64; omega)
  have hnonzero : (assetsEntry crc32 (c.bodyOffset + c.body.length) trySign.isSome
      p.assets).length ≠ 0 := by
    intro hzero
    rw [hzero, UInt64.toNat_zero] at hlen
    omega
  refine ⟨4 + c.shim.length + (c.bodyOffset + c.body.length + sig.length), ?_, ?_⟩
  · simp only [assetsSection, hfind, bind_eq_bind, bind_some, hoffset, hlen]
    rw [if_neg (by simp [assetsEntry]), if_neg hnonzero, if_neg (by omega), if_neg (by omega),
      if_neg (by omega)]
  · have hbody := c.toBytes_drop_body
    rw [htail, ← append_assoc] at hbody
    rw [add_assoc c.bodyOffset, ← add_assoc (4 + c.shim.length), ← drop_drop, hbody]
    exact drop_left' (by rw [length_append])

lemma assetsSection_of_nil (hassets : p.assets = []) (hshim : p.shim.length ≤ maxShimSize) :
    assetsSection (packed compress crc32 trySign p).toBytes = none := by
  have hfind : findSection (packed compress crc32 trySign p).entries secAssets =
      none := by
    rw [packed_entries]
    simp only [hassets]
    exact findSection_placeSections _
  rw [assetsSection, findAssets_packed hshim, hfind]
  rfl

end

/-- A project with its assets, as many as the index takes and each with a name of its own. -/
structure AssetProject (compressPrependSize : Octets → Octets) where
  input : PackInput
  assets : List Asset
  packs : input.assets = assets.map (Asset.subEntry compressPrependSize)
  count_le : assets.length ≤ maxAssets
  nodup : (assets.map Asset.name).Nodup
  shim_le : input.shim.length ≤ maxShimSize

/-- The files of a project: those of `pack`, and those of `sign` after `pack` without a key. -/
inductive PackedFile (compressPrependSize : Octets → Octets) (crc32 : Octets → UInt32)
    (p : PackInput) : Octets → Prop
  | packed (trySignStar : Option (Octets → Octets))
      (h64 : ∀ sign ∈ trySignStar, ∀ message, (sign message).length = sigLen) :
      PackedFile compressPrependSize crc32 p (pack compressPrependSize crc32 trySignStar p)
  | signed (verifyStar : Octets → Octets → Bool) (key : Octets → Octets)
      (h64 : ∀ message, (key message).length = sigLen) (path : String) {file : Octets}
      (h : sign verifyStar (fun message => .ok (key message)) path
        (pack compressPrependSize crc32 none p) = .ok file) :
      PackedFile compressPrependSize crc32 p file

section
variable {compressPrependSize : Octets → Octets} {crc32 : Octets → UInt32} {file : Octets}

lemma PackedFile.exists_packed {p : PackInput} (h : PackedFile compressPrependSize crc32 p file)
    (hshim : p.shim.length ≤ maxShimSize)
    (hmemory : (pack compressPrependSize crc32 none p).length < 2 ^ 63) :
    ∃ trySign : Option (Octets → Octets),
    (∀ sign ∈ trySign, ∀ msg, (sign msg).length = sigLen) ∧
    file = (Star.packed compressPrependSize crc32 trySign p).toBytes := by
  cases h with
  | packed trySign h64 => exact ⟨trySign, h64, pack_eq_toBytes trySign p⟩
  | signed verifyStar key h64 path h =>
    rw [pack_eq_toBytes] at hmemory h
    rw [sign_packed verifyStar key path hshim hmemory] at h
    refine ⟨some key, ?_, (Except.ok.inj h).symm⟩
    rintro sign ⟨⟩
    exact h64

lemma length_packed_le {p : PackInput} {trySign : Option (Octets → Octets)}
    (h64 : ∀ sign ∈ trySign, ∀ msg, (sign msg).length = sigLen) :
    (packed compressPrependSize crc32 trySign p).toBytes.length ≤
    (packed compressPrependSize crc32 none p).toBytes.length + sigLen := by
  cases trySign with
  | none => exact le_add_right _ _
  | some sign =>
    have hsig := h64 sign rfl (packed compressPrependSize crc32 (some sign) p).signedPart
    have htail : (packed compressPrependSize crc32 (some sign) p).tail =
        sign (packed compressPrependSize crc32 (some sign) p).signedPart ++
          (packed compressPrependSize crc32 none p).tail := rfl
    rw [toBytes_length, toBytes_length, htail, length_append, packed_bodyOffset, packed_bodyOffset,
      packed_body, packed_body, packed_shim, packed_shim]
    omega

lemma starReadAssetIndex_table {entries : List SubEntry} {start length : ℕ}
    (hsection : assetsSection file = some (start, length))
    (htable : file.drop start = serializeSubEntries entries)
    (hcount : entries.length ≤ maxAssets) :
    file.drop (start + 4) = entries.flatMap SubEntry.encode ∧
    starReadAssetIndex file =
    walkAssets file entries.length ⟨start + 4, false⟩ fun _ => none := by
  have hmax : entries.length < 2 ^ 32 := hcount.trans_lt (by decide)
  have hread : assetCount file start = entries.length := by
    rw [assetCount, htable, serializeSubEntries_eq, readU32Le_leBytes_nat hmax]
  refine ⟨?_, ?_⟩
  · rw [← drop_drop, htable, serializeSubEntries_eq, drop_left' (leBytes_length _ _)]
  · rw [starReadAssetIndex_eq hsection, hread, if_neg (not_lt.mpr hcount)]

lemma indexes_of_table {assets : List Asset} {start length : ℕ}
    (hprefixed : ∀ blob, ∃ block, compressPrependSize blob = leBytes 4 blob.length ++ block)
    (hfits : ∀ a ∈ assets, a.Fits compressPrependSize) (hcount : assets.length ≤ maxAssets)
    (hnodup : (assets.map Asset.name).Nodup)
    (hsection : assetsSection file = some (start, length))
    (htable : file.drop start =
    serializeSubEntries (assets.map (Asset.subEntry compressPrependSize))) :
    Indexes compressPrependSize assets file := by
  have hnames : (assets.map (Asset.subEntry compressPrependSize)).map SubEntry.name =
      assets.map Asset.name := map_map
  have hsized : ∀ e ∈ assets.map (Asset.subEntry compressPrependSize), e.Sized := by
    intro e he
    obtain ⟨a, ha, rfl⟩ := mem_map.mp he
    exact ⟨(hfits a ha).1, (hfits a ha).2.1⟩
  obtain ⟨hdrop, hindex⟩ := starReadAssetIndex_table hsection htable (by rwa [length_map])
  have hplaced := placed_flatMap (assets.map (Asset.subEntry compressPrependSize))
  rw [← hdrop] at hplaced
  rw [← hnames] at hnodup
  constructor
  · intro before a behind hsplit
    have hents : assets.map (Asset.subEntry compressPrependSize) =
        before.map (Asset.subEntry compressPrependSize) ++
          a.subEntry compressPrependSize :: behind.map (Asset.subEntry compressPrependSize) := by
      rw [hsplit, map_append, map_cons]
    have ha : a ∈ assets := by
      rw [hsplit]
      exact mem_append_right _ mem_cons_self
    rw [hents] at hsized hnodup hplaced hindex hdrop
    obtain ⟨hstands, hwalk⟩ := walkAssets_placed hsized hnodup hplaced fun _ => none
    obtain ⟨block, hblock⟩ := hprefixed a.original
    rw [hstands.noted_eq (hfits a ha).2.2 hblock] at hwalk
    have hlen := congrArg List.length hdrop
    rw [length_drop, flatMap_append, flatMap_cons, length_append,
      length_append, SubEntry.encode_length, SubEntry.size, flatMap_map _ _ behind]
      at hlen
    refine ⟨_, (congrFun hindex a.name).trans hwalk, hstands.data, rfl, ?_, rfl⟩
    dsimp only
    omega
  · intro name hname
    rw [hindex, walkAssets_fresh hsized hplaced (by rwa [hnames])]

/-- The index has the assets of a packed file exactly if the fields hold their lengths. -/
theorem indexes_iff (crc32 : Octets → UInt32)
    (hprefixed : ∀ blob, ∃ block, compressPrependSize blob = leBytes 4 blob.length ++ block)
    (project : AssetProject compressPrependSize)
    (hmemory : (pack compressPrependSize crc32 none project.input).length < 2 ^ 63)
    (hfile : PackedFile compressPrependSize crc32 project.input file) :
    Indexes compressPrependSize project.assets file ↔
      ∀ a ∈ project.assets, a.Fits compressPrependSize := by
  refine ⟨Indexes.fits, fun hfits => ?_⟩
  obtain ⟨trySignStar, h64, rfl⟩ := hfile.exists_packed project.shim_le hmemory
  by_cases hassets : project.input.assets = []
  · have hnil : project.assets = [] := map_eq_nil_iff.mp (project.packs.symm.trans hassets)
    have hindex : starReadAssetIndex
        (packed compressPrependSize crc32 trySignStar project.input).toBytes = fun _ => none := by
      rw [starReadAssetIndex, assetsSection_of_nil hassets project.shim_le]
    constructor
    · intro before a behind hsplit
      rw [hnil] at hsplit
      exact absurd hsplit.symm (append_ne_nil_of_right_ne_nil _ (cons_ne_nil _ _))
    · intro name _
      rw [hindex]
  · have hlength : (packed compressPrependSize crc32 trySignStar project.input).toBytes.length <
        2 ^ 64 := by
      have hle := @length_packed_le compressPrependSize crc32 project.input trySignStar h64
      rw [pack_eq_toBytes] at hmemory
      rw [sigLen] at hle
      omega
    obtain ⟨assetsStart, hsection, htable⟩ :=
      assetsSection_packed hassets project.shim_le h64 hlength
    rw [project.packs] at htable
    exact indexes_of_table hprefixed hfits project.count_le project.nodup hsection htable

end

def projectOf (a : Asset) : AssetProject storeOnly where
  input := ⟨[0x80], none, some [1, 2, 3], none, [a.subEntry storeOnly], [0x2D, 0x2D]⟩
  assets := [a]
  packs := rfl
  count_le := by simp [maxAssets]
  nodup := by simp
  shim_le := by simp [maxShimSize]

theorem smallAsset_indexed : Indexes storeOnly [⟨[0x61], [5, 6]⟩]
      (pack storeOnly (fun _ => 0) none (projectOf ⟨[0x61], [5, 6]⟩).input) := by
  refine (indexes_iff (fun _ => 0) (fun blob => ⟨_, rfl⟩) (projectOf ⟨[0x61], [5, 6]⟩)
    (by decide +kernel) (.packed none (by simp))).mpr ?_
  intro a ha
  obtain rfl := mem_singleton.mp ha
  exact ⟨by decide, by decide, by decide⟩

/-- An asset of 4 GiB: its size does not fit the four octets before the compressed data. -/
lemma large_not_fits {n : ℕ} (h : 2 ^ 32 ≤ n) :
    ¬ ∀ a ∈ (projectOf ⟨[0x61], List.replicate n 0⟩).assets, a.Fits storeOnly := by
  intro hfits
  have hlt := (hfits ⟨[0x61], List.replicate n 0⟩ (mem_singleton.mpr rfl)).2.2
  rw [length_replicate] at hlt
  omega

theorem largeAsset_not_indexed :
    ¬ Indexes storeOnly (projectOf ⟨[0x61], List.replicate (2 ^ 32) 0⟩).assets
      (pack storeOnly (fun _ => 0) none (projectOf ⟨[0x61], List.replicate (2 ^ 32) 0⟩).input) :=
  mt Indexes.fits (large_not_fits le_rfl)

end Millennium.Star
