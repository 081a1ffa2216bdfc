import Millennium.Lib.LexicalPath
import Mathlib.Data.List.DropRight

/-!
# Extracting an archive

`ExtractZipArchive` appends each entry's name to the destination. The archive is the list of its
names; the location of every directory created and every file saved is logged.
-/

namespace Millennium.Util

open LexicalPath List LexPath List.Subset

inductive ArchiveEffect where
  | createdDirectory (location : Location)
  | savedFile (location : Location)
  deriving Repr, DecidableEq

def ArchiveEffect.location : ArchiveEffect → Location
  | .createdDirectory loc => loc
  | .savedFile loc => loc

def parentPath (s : List Char) : List Char :=
  let t := (s.rdropWhile (· ≠ '/')).rdropWhile (· = '/')
  if t = [] ∧ s.head? = some '/' then ['/'] else t

/-- The directories that exist, those the call remembers to have created, and the log. -/
structure Extraction where
  dirs : List Location
  createdDirs : List (List Char)
  effects : List ArchiveEffect

/-- `if (created_dirs.insert(path).second) create_directories(path);` -/
def Extraction.createOnce (st : Extraction) (path : List Char) : Extraction :=
  if path ∈ st.createdDirs then st
  else
    let created := createDirectories st.dirs (ofText path)
    ⟨st.dirs ++ created, path :: st.createdDirs,
      st.effects ++ created.map ArchiveEffect.createdDirectory⟩

/-- One turn of the extraction loop. `stray` is what is read in front of an empty name. -/
def extractEntry (stray : Char) (destDir : List Char) (st : Extraction) (filename : List Char) :
    Extraction :=
  let outPath := destDir ++ '/' :: filename
  if filename.getLast?.getD stray = '/' then st.createOnce outPath
  else
    let st := st.createOnce (parentPath outPath)
    { st with effects := st.effects ++ [.savedFile (ofText outPath).location] }

/-- `ExtractZipArchive` on an archive that opens. Creating an empty path throws. -/
def extractZipArchive (stray : Char) (dirs : List Location) (destDir : List Char)
    (filenames : List (List Char)) : List ArchiveEffect :=
  if destDir = [] then []
  else
    let created := createDirectories dirs (ofText destDir)
    let st : Extraction :=
      ⟨dirs ++ created, [], created.map ArchiveEffect.createdDirectory⟩
    (filenames.foldl (extractEntry stray destDir) st).effects

/-- Into a directory that is there, everything is extracted inside it. -/
def ExtractionConfined (destDir : List Char) (filenames : List (List Char)) : Prop :=
  ∀ stray dirs, (ofText destDir).way ⊆ dirs →
    ∀ e ∈ extractZipArchive stray dirs destDir filenames,
      (ofText destDir).location.Inside e.location

def directoryComps (filename : List Char) : List Name :=
  if filename.getLast? = some '/' then (ofText filename).comps
  else (ofText filename).comps.dropLast

/-- The directories of an entry stay in the destination or on the way to it, and a file lies in it.
-/
def EntryStays (destDir filename : List Char) : Prop :=
  (mk false (directoryComps filename)).DirsStay (ofText destDir) ∧
    (filename.getLast? ≠ some '/' →
      (mk false (ofText filename).comps).Reaches (ofText destDir).location)

instance (destDir filename : List Char) : Decidable (EntryStays destDir filename) :=
  inferInstanceAs (Decidable (_ ∧ _))

lemma splitSlash_rdropWhile (x : List Char) :
    splitSlash (x.rdropWhile (· = '/')) [] = splitSlash x [] := by
  induction x using List.reverseRecOn with
  | nil => rfl
  | append_singleton x c ih =>
    by_cases hc : c = '/'
    · rw [rdropWhile_concat_pos _ _ _ (by simpa using hc), ih, hc, splitSlash_append]
      simp [splitSlash]
    · rw [rdropWhile_concat_neg _ _ _ (by simpa using hc)]

lemma rdropWhile_last_component {b : List Char} (h : '/' ∉ b) (x : List Char) :
    (x ++ '/' :: b).rdropWhile (· ≠ '/') = x ++ ['/'] := by
  induction b using List.reverseRecOn with
  | nil => rw [rdropWhile_concat_neg _ _ _ (by simp)]
  | append_singleton b c ih =>
    rw [mem_append, not_or, mem_singleton] at h
    have hc : c ≠ '/' := Ne.symm h.2
    rw [← cons_append, ← append_assoc, rdropWhile_concat_pos _ _ _ (by simpa using hc), ih h.1]

lemma ofText_parentPath {x b : List Char} (hx : x ≠ []) (hb : '/' ∉ b) :
    ofText (parentPath (x ++ '/' :: b)) = ofText x := by
  have hhead : (x ++ '/' :: b).head? = x.head? := by
    cases x with
    | nil => exact absurd rfl hx
    | cons => rfl
  have hstrip : (x ++ ['/']).rdropWhile (· = '/') = x.rdropWhile (· = '/') :=
    rdropWhile_concat_pos _ _ _ (by simp)
  rw [parentPath, rdropWhile_last_component hb, hstrip, hhead]
  have hcomps := splitSlash_rdropWhile x
  split_ifs with h
  · rw [h.1] at hcomps
    rw [ofText, ofText, ← hcomps, h.2]
    rfl
  · rw [ofText, ofText, hcomps]
    cases ht : x.rdropWhile (· = '/') with
    | nil =>
      have hne : x.head? ≠ some '/' := fun heq => h ⟨ht, heq⟩
      simp [hne]
    | cons =>
      obtain ⟨rest, hrest⟩ := rdropWhile_prefix (p := (· = '/')) x
      rw [ht] at hrest
      rw [← hrest]
      rfl

lemma ofText_parentPath_entry {dest file : List Char} (hdest : dest ≠ [])
    (hlast : file.getLast? ≠ some '/') :
    ofText (parentPath (dest ++ '/' :: file)) =
    (ofText dest).join ⟨false, directoryComps file⟩ := by
  rw [directoryComps, if_neg hlast]
  by_cases hslash : '/' ∈ file
  · obtain ⟨b, u, hsplit, hb⟩ := eq_append_cons_of_mem (mem_reverse.mpr hslash)
    have hname : file = u.reverse ++ '/' :: b.reverse := by
      rw [← reverse_reverse file, hsplit]
      simp
    have hb' : '/' ∉ b.reverse := by rwa [mem_reverse]
    have hne : b.reverse ≠ [] := by
      intro hnil
      rw [hname, hnil] at hlast
      exact hlast (by simp)
    have hcomps : (ofText file).comps.dropLast = (ofText u.reverse).comps := by
      rw [hname]
      change (splitSlash (u.reverse ++ '/' :: b.reverse) []).dropLast = _
      rw [splitSlash_append, splitSlash_of_not_mem hb' hne, dropLast_concat]
      rfl
    rw [hcomps, ← ofText_append hdest, hname, ← cons_append, ← append_assoc]
    exact ofText_parentPath (by simp) hb'
  · rw [ofText_parentPath hdest hslash]
    have hcomps : (ofText file).comps.dropLast = [] := by
      by_cases hnil : file = []
      · rw [hnil]
        rfl
      · change (splitSlash file []).dropLast = []
        rw [splitSlash_of_not_mem hslash hnil]
        rfl
    rw [hcomps]
    change _ = mk _ (_ ++ [])
    rw [append_nil]

lemma directoryComps_of_slash {file : List Char} {stray : Char}
    (h : file.getLast?.getD stray = '/') :
    directoryComps file = (ofText file).comps := by
  rw [directoryComps]
  cases hlast : file.getLast? with
  | none =>
    rw [getLast?_eq_none_iff.mp hlast]
    rfl
  | some =>
    rw [hlast, Option.getD_some] at h
    rw [if_pos (by rw [h])]

/-- The directories are the first ones and the logged ones, and what is remembered is there. -/
structure Extraction.Consistent (start : List Location) (st : Extraction) : Prop where
  kept : start ⊆ st.dirs
  logged : ∀ loc ∈ st.dirs, loc ∈ start ∨ .createdDirectory loc ∈ st.effects
  remembered : ∀ path ∈ st.createdDirs, ∀ pre ∈ (ofText path).prefixes,
    pre.Named → pre.location ∈ st.dirs

section
variable {start : List Location} {st : Extraction} {path : List Char}

lemma mem_createOnce_effects {e : ArchiveEffect} (h : e ∈ (st.createOnce path).effects) :
    e ∈ st.effects ∨
    ∃ loc ∈ createDirectories st.dirs (ofText path), e = .createdDirectory loc := by
  unfold Extraction.createOnce at h
  split_ifs at h
  · exact .inl h
  · rcases mem_append.mp h with h | h
    · exact .inl h
    · obtain ⟨loc, hloc, rfl⟩ := mem_map.mp h
      exact .inr ⟨loc, hloc, rfl⟩

lemma createOnce_effects_mono {e : ArchiveEffect} (h : e ∈ st.effects) :
    e ∈ (st.createOnce path).effects := by
  unfold Extraction.createOnce
  split_ifs
  · exact h
  · exact mem_append_left _ h

lemma createOnce_dirs_mono {loc : Location} (h : loc ∈ st.dirs) :
    loc ∈ (st.createOnce path).dirs := by
  unfold Extraction.createOnce
  split_ifs
  · exact h
  · exact mem_append_left _ h

lemma createOnce_there (hst : st.Consistent start) {pre : LexPath}
    (hpre : pre ∈ (ofText path).prefixes) (hnamed : pre.Named) :
    pre.location ∈ (st.createOnce path).dirs := by
  unfold Extraction.createOnce
  split_ifs with hmem
  · exact hst.remembered path hmem pre hpre hnamed
  · by_cases hdirs : pre.location ∈ st.dirs
    · exact mem_append_left _ hdirs
    · exact mem_append_right _
        (mem_createDirectories.mpr ⟨hdirs, pre, hpre, hnamed, rfl⟩)

lemma createOnce_consistent (hst : st.Consistent start) :
    (st.createOnce path).Consistent start := by
  refine ⟨fun loc hloc => createOnce_dirs_mono (hst.kept hloc), ?_, ?_⟩
  · intro loc hloc
    by_cases hold : loc ∈ st.dirs
    · exact (hst.logged loc hold).imp_right createOnce_effects_mono
    · refine .inr ?_
      unfold Extraction.createOnce at hloc ⊢
      split_ifs at hloc ⊢ with hmem
      · exact absurd hloc hold
      · exact mem_append_right _
          (mem_map.mpr ⟨loc, (mem_append.mp hloc).resolve_left hold, rfl⟩)
  · intro p hp pre hpre hnamed
    by_cases hold : p ∈ st.createdDirs
    · exact createOnce_dirs_mono (hst.remembered p hold pre hpre hnamed)
    · have hpath : p = path := by
        unfold Extraction.createOnce at hp
        split_ifs at hp
        · exact absurd hp hold
        · exact (mem_cons.mp hp).resolve_right hold
      subst hpath
      exact createOnce_there hst hpre hnamed

end

section
variable {stray : Char} {dest file : List Char} {start : List Location} {st : Extraction}

lemma extractEntry_cases (hdest : dest ≠ []) : ∃ path, ofText path =
    (ofText dest).join ⟨false, directoryComps file⟩ ∧
    ((file.getLast?.getD stray = '/' ∧
    extractEntry stray dest st file = st.createOnce path) ∨
    (file.getLast?.getD stray ≠ '/' ∧ extractEntry stray dest st file =
    { st.createOnce path with effects := (st.createOnce path).effects ++ [.savedFile
            ((ofText dest).join
              ⟨false, (ofText file).comps⟩).location] })) := by
  unfold extractEntry
  by_cases h : file.getLast?.getD stray = '/'
  · refine ⟨dest ++ '/' :: file, ?_, .inl ⟨h, if_pos h⟩⟩
    rw [ofText_append hdest, directoryComps_of_slash h]
  · have hlast : file.getLast? ≠ some '/' := fun heq => h (by rw [heq]; rfl)
    refine ⟨_, ofText_parentPath_entry hdest hlast, .inr ⟨h, ?_⟩⟩
    simp only [if_neg h, ofText_append hdest]

lemma extractEntry_consistent (hdest : dest ≠ []) (hst : st.Consistent start) :
    (extractEntry stray dest st file).Consistent start := by
  obtain ⟨path, -, ⟨-, heq⟩ | ⟨-, heq⟩⟩ := @extractEntry_cases stray _ file st hdest
  · rw [heq]
    exact createOnce_consistent hst
  · have hnext : (st.createOnce path).Consistent start := createOnce_consistent hst
    rw [heq]
    exact ⟨hnext.kept, fun loc hloc => (hnext.logged loc hloc).imp_right
      (mem_append_left _), hnext.remembered⟩

lemma extractEntry_mono (hdest : dest ≠ []) :
    (∀ loc ∈ st.dirs, loc ∈ (extractEntry stray dest st file).dirs) ∧
    ∀ e ∈ st.effects, e ∈ (extractEntry stray dest st file).effects := by
  obtain ⟨path, -, ⟨-, heq⟩ | ⟨-, heq⟩⟩ := @extractEntry_cases stray _ file st hdest
  · rw [heq]
    exact ⟨fun _ => createOnce_dirs_mono, fun _ => createOnce_effects_mono⟩
  · rw [heq]
    exact ⟨fun _ => createOnce_dirs_mono,
      fun e he => mem_append_left _ (createOnce_effects_mono he)⟩

lemma extractEntry_inside (hdest : dest ≠ []) (hstay : EntryStays dest file)
    (hway : (ofText dest).way ⊆ st.dirs) {e : ArchiveEffect}
    (he : e ∈ (extractEntry stray dest st file).effects) :
    e ∈ st.effects ∨ (ofText dest).location.Inside e.location := by
  obtain ⟨path, hpath, hcase⟩ := @extractEntry_cases stray _ file st hdest
  have hcreate (he : e ∈ (st.createOnce path).effects) :
      e ∈ st.effects ∨ (ofText dest).location.Inside e.location := by
    rcases mem_createOnce_effects he with he | ⟨loc, hloc, rfl⟩
    · exact .inl he
    · rw [hpath] at hloc
      have hbelow := createDirectories_join_iff.mpr hstay.1 st.dirs hway loc hloc
      exact .inr (Location.below_iff.mp hbelow).1
  rcases hcase with ⟨-, heq⟩ | ⟨hfile, heq⟩
  · rw [heq] at he
    exact hcreate he
  · rw [heq] at he
    rcases mem_append.mp he with he | he
    · exact hcreate he
    · rw [mem_singleton.mp he]
      exact .inr (inside_join_iff.mpr (hstay.2 fun hlast => hfile (by rw [hlast]; rfl)))

lemma extractEntry_there (hdest : dest ≠ []) (hst : st.Consistent start) {pre : LexPath}
    (hpre : pre ∈ (mk false (directoryComps file)).prefixes) (hnamed : pre.Named) :
    ((ofText dest).join pre).location ∈
      (extractEntry stray dest st file).dirs := by
  obtain ⟨path, hpath, hcase⟩ := @extractEntry_cases stray _ file st hdest
  obtain ⟨hmem, hnamed'⟩ := join_mem_prefixes (p := ofText dest) hnamed hpre
  rw [← hpath] at hmem
  have hthere := createOnce_there hst hmem hnamed'
  rcases hcase with ⟨-, heq⟩ | ⟨-, heq⟩
  · rw [heq]
    exact hthere
  · rw [heq]
    exact hthere

end

section
variable {stray : Char} {dest : List Char} {start : List Location} {st : Extraction}
  {files : List (List Char)}

lemma foldl_extractEntry_consistent (hdest : dest ≠ []) (hst : st.Consistent start) :
    (files.foldl (extractEntry stray dest) st).Consistent start := by
  induction files generalizing st with
  | nil => exact hst
  | cons file rest ih => exact ih (extractEntry_consistent hdest hst)

lemma foldl_extractEntry_mono (hdest : dest ≠ []) :
    (∀ loc ∈ st.dirs, loc ∈ (files.foldl (extractEntry stray dest) st).dirs) ∧
    ∀ e ∈ st.effects, e ∈ (files.foldl (extractEntry stray dest) st).effects := by
  induction files generalizing st with
  | nil => exact ⟨fun _ h => h, fun _ h => h⟩
  | cons file rest ih =>
    obtain ⟨hdirs, heffects⟩ := @extractEntry_mono stray _ file st hdest
    exact ⟨fun loc h => ih.1 loc (hdirs loc h), fun e h => ih.2 e (heffects e h)⟩

lemma foldl_extractEntry_inside (hdest : dest ≠ [])
    (hstay : ∀ file ∈ files, EntryStays dest file)
    (hway : (ofText dest).way ⊆ st.dirs) {e : ArchiveEffect}
    (he : e ∈ (files.foldl (extractEntry stray dest) st).effects) :
    e ∈ st.effects ∨ (ofText dest).location.Inside e.location := by
  induction files generalizing st with
  | nil => exact .inl he
  | cons file rest ih =>
    have hnext : (ofText dest).way ⊆ (extractEntry stray dest st file).dirs :=
      fun loc h => (extractEntry_mono hdest).1 loc (hway h)
    rcases ih (fun x hx => hstay x (mem_cons_of_mem _ hx)) hnext he with he | he
    · exact extractEntry_inside hdest (hstay file mem_cons_self) hway he
    · exact .inr he

lemma foldl_extractEntry_there (hdest : dest ≠ []) (hst : st.Consistent start)
    {file : List Char} (hmem : file ∈ files) {pre : LexPath}
    (hpre : pre ∈ (mk false (directoryComps file)).prefixes) (hnamed : pre.Named) :
    ((ofText dest).join pre).location ∈
      (files.foldl (extractEntry stray dest) st).dirs := by
  induction files generalizing st with
  | nil => cases hmem
  | cons first rest ih =>
    rw [foldl_cons]
    rcases mem_cons.mp hmem with rfl | hmem
    · exact (foldl_extractEntry_mono hdest).1 _ (extractEntry_there hdest hst hpre hnamed)
    · exact ih (extractEntry_consistent hdest hst) hmem

lemma foldl_extractEntry_saved (hdest : dest ≠ []) (hstray : stray ≠ '/')
    {file : List Char} (hmem : file ∈ files) (hfile : file.getLast? ≠ some '/') :
    ArchiveEffect.savedFile
        ((ofText dest).join ⟨false, (ofText file).comps⟩).location ∈
      (files.foldl (extractEntry stray dest) st).effects := by
  induction files generalizing st with
  | nil => cases hmem
  | cons first rest ih =>
    rw [foldl_cons]
    rcases mem_cons.mp hmem with rfl | hmem
    · refine (foldl_extractEntry_mono hdest).2 _ ?_
      obtain ⟨path, -, ⟨hslash, -⟩ | ⟨-, heq⟩⟩ := @extractEntry_cases stray _ file st hdest
      · cases hlast : file.getLast? with
        | none =>
          rw [hlast] at hslash
          exact absurd hslash hstray
        | some =>
          rw [hlast] at hslash hfile
          exact absurd (congrArg some hslash) hfile
      · rw [heq]
        exact mem_append_right _ (mem_singleton.mpr rfl)
    · exact ih hmem

end

/-- Extraction is confined to the destination exactly when every entry stays in it. -/
theorem extraction_confined_iff (destDir : List Char) (filenames : List (List Char)) :
    ExtractionConfined destDir filenames ↔
      destDir = [] ∨ ∀ filename ∈ filenames, EntryStays destDir filename := by
  by_cases hdest : destDir = []
  · simp [ExtractionConfined, extractZipArchive, hdest]
  constructor
  · intro hconf
    refine .inr fun filename hmem => ?_
    have hrun := hconf 'x' _ (refl _)
    simp only [extractZipArchive, if_neg hdest, createDirectories_of_way (refl _),
      append_nil] at hrun
    have hstart : Extraction.Consistent (ofText destDir).way
        ⟨(ofText destDir).way, [], []⟩ :=
      ⟨refl _, fun loc hloc => .inl hloc, fun _ h => by cases h⟩
    refine ⟨fun pre hpre hnamed => ?_, fun hfile => ?_⟩
    · have hthere := @foldl_extractEntry_there 'x' _ _ _ _ hdest hstart _ hmem _ hpre hnamed
      rcases (foldl_extractEntry_consistent hdest hstart).logged _ hthere with hway | hlog
      · exact .inr hway
      · exact .inl (inside_join_iff.mp (hrun _ hlog))
    · exact inside_join_iff.mp
        (hrun _ (foldl_extractEntry_saved hdest (by decide) hmem hfile))
  · rintro (hnil | hstay)
    · exact absurd hnil hdest
    · intro stray dirs hway e he
      simp only [extractZipArchive, if_neg hdest, createDirectories_of_way hway, append_nil] at he
      rcases foldl_extractEntry_inside hdest hstay hway he with hnil | hinside
      · cases hnil
      · exact hinside

/-- An entry `../x` is saved beside the destination it was to be saved in. -/
theorem parentEntry_not_confined : ¬ ExtractionConfined "plugins".toList ["../x".toList] := by
  intro hconf
  obtain ⟨-, q, hq, -⟩ := hconf 'x' (ofText "plugins".toList).way (refl _)
    (.savedFile ⟨false, ["x".toList]⟩) (by decide)
  have hsuffix : ["plugins".toList] <:+ ["x".toList] := ⟨q, hq.symm⟩
  exact absurd hsuffix (by decide)

end Millennium.Util
