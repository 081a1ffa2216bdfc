import Mathlib.Data.List.TakeWhile
import Millennium.Star.AssetIndex

/-!
# From the packer to the running plugin

The host of a back end reads the index of the assets once, and an asset from the file when the
plugin asks for it.
-/

namespace Millennium.Star

open Bytes Outcome FileStream List Stream Container

section
variable (gAssetIndex : AssetIndex)

/-- `assets_read`, with the file if it can be opened. A path is read up to a NUL. -/
def assetsRead (gBackendFile : Option Octets) (path : Octets) : Except Fault (Option Octets) :=
  match gAssetIndex (path.takeWhile (· ≠ 0)) with
  | none => .ok none
  | some entry =>
    match gBackendFile with
    | none => .ok none
    | some file =>
      match (read file entry.compressedLength ⟨entry.fileOffset, false⟩).1 with
      | none => .ok none
      | some compressed =>
        match starDecompress compressed with
        | .ok decompressed => .ok (some decompressed)
        | .error (.runtimeError what) =>
          .error (.runtimeError ("assets.read: decompress failed: " ++ what))
        | .error fault => .error fault

def assetsSize (path : Octets) : Option ℕ :=
  (gAssetIndex (path.takeWhile (· ≠ 0))).map AssetEntry.uncompressedLength

end

/-- The compressor writes the size and then a block that stands for its input. -/
def Compresses (compress : Octets → Octets) : Prop :=
  ∀ blob, ∃ block : Lz4.Block, block.Valid ∧ block.expand = blob ∧
    compress blob = leBytes 4 blob.length ++ block.encode

/-- What `assets_read` answers for an asset of the index. -/
def readAnswer (a : Asset) : Except Fault (Option Octets) :=
  if a.original.length ≤ starDecompressMax then .ok (some a.original)
  else .error (.runtimeError ("assets.read: decompress failed: " ++
    "star_decompress: decompressed size exceeds 64 MB limit"))

section
variable {compress : Octets → Octets} {crc32 : Octets → UInt32} {file : Octets}

lemma starDecompress_too_large {size : ℕ} (h : starDecompressMax < size) (hlt : size < 2 ^ 32)
    (block : Octets) : starDecompress (leBytes 4 size ++ block) =
      .error (.runtimeError "star_decompress: decompressed size exceeds 64 MB limit") := by
  have hfour : ¬ (leBytes 4 size ++ block).length < 4 := by
    rw [length_append, leBytes_length]
    omega
  rw [starDecompress, if_neg hfour, readU32Le_leBytes_nat hlt]
  exact if_pos h

lemma indexes_packedFile (hcompress : Compresses compress) (project : AssetProject compress)
    (hmemory : (pack compress crc32 none project.input).length < 2 ^ 63)
    (hfile : PackedFile compress crc32 project.input file)
    (hfits : ∀ a ∈ project.assets, a.Fits compress) :
    Indexes compress project.assets file := by
  obtain ⟨trySign, h64, rfl⟩ := hfile.exists_packed project.shim_le hmemory
  by_cases hassets : project.input.assets = []
  · have hnil : project.assets = [] := map_eq_nil_iff.mp (project.packs.symm.trans hassets)
    refine ⟨fun before a behind hsplit => ?_, fun name _ => ?_⟩
    · simp [hnil] at hsplit
    · rw [starReadAssetIndex, assetsSection_of_nil hassets project.shim_le]
  · have hle := @length_packed_le compress crc32 project.input trySign h64
    rw [pack_eq_toBytes] at hmemory
    rw [sigLen] at hle
    obtain ⟨start, hsection, htable⟩ :=
      @assetsSection_packed compress crc32 _ _ hassets project.shim_le h64 (by omega)
    rw [project.packs] at htable
    refine indexes_of_table (fun blob => ?_) hfits project.count_le project.nodup hsection htable
    obtain ⟨block, -, -, h⟩ := hcompress blob
    exact ⟨_, h⟩

/-- Every asset of a packed file is read back, unless it is too large for the decoder, and no other
name gives anything. -/
theorem assets_read_back (crc32 : Octets → UInt32) (hcompress : Compresses compress)
    (project : AssetProject compress)
    (hmemory : (pack compress crc32 none project.input).length < 2 ^ 63)
    (hfile : PackedFile compress crc32 project.input file)
    (hfits : ∀ a ∈ project.assets, a.Fits compress) :
    (∀ a ∈ project.assets, 0 ∉ a.name →
      assetsSize (starReadAssetIndex file) a.name = some a.original.length ∧
      assetsRead (starReadAssetIndex file) (some file) a.name = readAnswer a) ∧
    ∀ path, path.takeWhile (· ≠ 0) ∉ project.assets.map Asset.name →
      assetsSize (starReadAssetIndex file) path = none ∧
      assetsRead (starReadAssetIndex file) (some file) path = .ok none := by
  have hindexes := indexes_packedFile hcompress project hmemory hfile hfits
  constructor
  · intro a ha hnul
    obtain ⟨before, behind, hsplit⟩ := append_of_mem ha
    obtain ⟨entry, hentry, hdata, -, hend, hsize⟩ := hindexes.each before a behind hsplit
    have hname : a.name.takeWhile (· ≠ 0) = a.name := by
      refine takeWhile_eq_self_iff.mpr fun x hx => decide_eq_true ?_
      rintro rfl
      exact hnul hx
    obtain ⟨block, hvalid, hexpand, hblock⟩ := hcompress a.original
    refine ⟨by rw [assetsSize, hname, hentry, Option.map_some, hsize], ?_⟩
    simp only [assetsRead, hname, hentry,
      read_of_le (show entry.compressedLength ≤ file.length - entry.fileOffset by omega),
      hdata, readAnswer]
    split_ifs with hmax
    · rw [hblock, ← hexpand, starDecompress_prependSize block hvalid (by rwa [hexpand])]
    · rw [hblock, starDecompress_too_large (not_le.mp hmax) (hfits a ha).2.2]
  · intro path hpath
    have hnone := hindexes.only _ hpath
    exact ⟨by rw [assetsSize, hnone, Option.map_none], by rw [assetsRead, hnone]⟩

lemma compresses_storeOnly : Compresses storeOnly := fun blob =>
  ⟨_, Lz4.literalBlock_valid blob, Lz4.literalBlock_expand blob, rfl⟩

theorem small_asset_read :
    assetsRead (starReadAssetIndex (pack storeOnly (fun _ => 0) none
      (projectOf ⟨[0x61], [5, 6]⟩).input)) (some (pack storeOnly (fun _ => 0) none
      (projectOf ⟨[0x61], [5, 6]⟩).input)) [0x61] = .ok (some [5, 6]) := by
  have hfits : ∀ a ∈ (projectOf ⟨[0x61], [5, 6]⟩).assets, a.Fits storeOnly := by
    intro a ha
    obtain rfl := mem_singleton.mp ha
    exact ⟨by decide, by decide, by decide⟩
  have hread := (assets_read_back (fun _ => 0) compresses_storeOnly (projectOf ⟨[0x61], [5, 6]⟩)
    (by decide +kernel) (.packed none (by simp)) hfits).1 _ (mem_singleton.mpr rfl) (by decide)
  exact hread.2.trans (if_pos (by decide))

end

end Millennium.Star
