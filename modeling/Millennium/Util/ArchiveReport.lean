import Millennium.Lib.Outcome
import Millennium.Util.Archive

/-!
# What an extraction reports

`ExtractZipArchive` counts the files that it could not save in one variable and takes its result
from another, the status that ended its pass over the entries. The archive comes with the outcome of
each attempt.
-/

namespace Millennium.Util

open LexicalPath Outcome List Except

def mzOk : Int := 0

def mzEndOfList : Int := -100

structure EntryTurn where
  filename : List Char
  createDirectories : Except String Unit
  save : Int
  progress : Except String Unit
  deriving Repr

/-- The pass over the entries goes on while the status is `MZ_OK`. -/
structure Walk where
  entries : List EntryTurn
  status : Int
  ended : status ≠ mzOk

structure ArchiveRun where
  readerCreated : Bool
  openStatus : Int
  createDestination : Except String Unit
  walk : Walk

structure Saving where
  createdDirs : List (List Char)
  fileIndex : Nat
  failedCount : Nat
  saves : List (Nat × Int)
  deriving Repr, DecidableEq

section
variable (stray : Char) (destDir : List Char)

def TreatedAsDirectory (filename : List Char) : Prop := filename.getLast?.getD stray = '/'

instance (filename : List Char) : Decidable (TreatedAsDirectory stray filename) :=
  inferInstanceAs (Decidable (_ = _))

/-- `if (created_dirs.insert(path).second) create_directories(path);` -/
def insertDirectory (createdDirs : List (List Char)) (path : List Char)
    (outcome : Except String Unit) : Except String (List (List Char)) :=
  if createdDirs.contains path then .ok createdDirs
  else do
    outcome
    .ok (path :: createdDirs)

def saveEntry (st : Saving) (turn : EntryTurn) : Except String Saving := do
  let outPath := destDir ++ '/' :: turn.filename
  if TreatedAsDirectory stray turn.filename then
    let createdDirs ← insertDirectory st.createdDirs outPath turn.createDirectories
    turn.progress
    .ok { st with createdDirs, fileIndex := st.fileIndex + 1 }
  else
    let createdDirs ← insertDirectory st.createdDirs (parentPath outPath) turn.createDirectories
    let failedCount := if turn.save ≠ mzOk then st.failedCount + 1 else st.failedCount
    turn.progress
    .ok ⟨createdDirs, st.fileIndex + 1, failedCount, st.saves ++ [(st.fileIndex, turn.save)]⟩

def Saving.start : Saving := ⟨[], 0, 0, []⟩

def extractZipArchiveResult (run : ArchiveRun) : Except String (Bool × Saving) :=
  if run.readerCreated = false then .ok (false, .start)
  else if run.openStatus ≠ mzOk then .ok (false, .start)
  else do
    run.createDestination
    let st ← run.walk.entries.foldlM (saveEntry stray destDir) .start
    .ok (run.walk.status = mzEndOfList ∨ run.walk.status = mzOk, st)

structure UpdateRun where
  temporary : Except String Unit
  download : Except String Unit
  archive : ArchiveRun
  finalProgress : Except String Unit
  /-- The progress that is sent from the handler of the exception. -/
  failureProgress : Except String Unit
  /-- Asking in the handler whether the downloaded file is there. -/
  cleanup : Except String Unit

def extractionFailed : String :=
  "Failed to extract update archive. The download may be corrupt or an unsupported format."

def updateBody (run : UpdateRun) : Except String Unit := do
  run.temporary
  run.download
  let (extracted, _) ← extractZipArchiveResult stray destDir run.archive
  if extracted = false then .error extractionFailed
  else run.finalProgress

/-- `update_impl`: the values of `m_has_updated_millennium`, and how the call ends. -/
def updateImpl (run : UpdateRun) : List Bool × Except String Unit :=
  match updateBody stray destDir run with
  | .ok _ => ([true], .ok ())
  | .error e =>
    match run.failureProgress with
    | .error e' => ([], .error e')
    | .ok _ =>
      match run.cleanup with
      | .error e' => ([], .error e')
      | .ok _ => ([false], .error e)

end

section
variable (stray : Char) (destDir : List Char)

/-- Every entry whose name is not that of a directory was saved with `MZ_OK`. -/
def EveryFileSaved (entries : List EntryTurn) (saves : List (Nat × Int)) : Prop :=
  ∀ i turn, entries[i]? = some turn → turn.filename.getLast? ≠ some '/' → (i, mzOk) ∈ saves

/-- Extraction and updater report success only when every file was saved. -/
def SuccessMeansSaved (run : UpdateRun) : Prop :=
  (∀ st, extractZipArchiveResult stray destDir run.archive = .ok (true, st) →
      EveryFileSaved run.archive.walk.entries st.saves) ∧
    (true ∈ (updateImpl stray destDir run).1 →
      ∃ st, extractZipArchiveResult stray destDir run.archive = .ok (true, st) ∧
        EveryFileSaved run.archive.walk.entries st.saves)

def entryDirectory (filename : List Char) : List Char :=
  if TreatedAsDirectory stray filename then destDir ++ '/' :: filename
  else parentPath (destDir ++ '/' :: filename)

/-- Nothing throws: neither the callback nor the creation of a new directory. -/
def Quiet (createdDirs : List (List Char)) : List EntryTurn → Prop
  | [] => True
  | turn :: rest =>
    (entryDirectory stray destDir turn.filename ∉ createdDirs → turn.createDirectories = .ok ()) ∧
      turn.progress = .ok () ∧
      Quiet (createdDirs.insert (entryDirectory stray destDir turn.filename)) rest

/-- The archive opens, nothing throws, and the pass ends behind the last entry. -/
def ArchiveRun.Completes (run : ArchiveRun) : Prop :=
  run.readerCreated = true ∧ run.openStatus = mzOk ∧ run.createDestination = .ok () ∧
    Quiet stray destDir [] run.walk.entries ∧ run.walk.status = mzEndOfList

def EntryTurn.Saves (turn : EntryTurn) : Prop :=
  turn.filename.getLast? ≠ some '/' →
    ¬ TreatedAsDirectory stray turn.filename ∧ turn.save = mzOk

end

section
variable {stray : Char} {dest : List Char} {st : Saving} {turn : EntryTurn}

lemma insertDirectory_eq_ok_iff {createdDirs out : List (List Char)} {path : List Char}
    {outcome : Except String Unit} :
    insertDirectory createdDirs path outcome = .ok out ↔
    (path ∉ createdDirs → outcome = .ok ()) ∧ out = createdDirs.insert path := by
  unfold insertDirectory
  by_cases hmem : path ∈ createdDirs
  · rw [if_pos (contains_iff_mem.mpr hmem), insert_of_mem hmem, ok.injEq, eq_comm]
    exact ⟨fun h => ⟨fun hnot => absurd hmem hnot, h⟩, fun h => h.2⟩
  · rw [if_neg (mt contains_iff_mem.mp hmem), insert_of_not_mem hmem, bind_eq_ok_iff]
    constructor
    · rintro ⟨⟨⟩, houtcome, hout⟩
      exact ⟨fun _ => houtcome, (ok.inj hout).symm⟩
    · rintro ⟨houtcome, rfl⟩
      exact ⟨(), houtcome hmem, rfl⟩

def Saving.next (stray : Char) (destDir : List Char) (st : Saving) (turn : EntryTurn) : Saving :=
  let createdDirs := st.createdDirs.insert (entryDirectory stray destDir turn.filename)
  if TreatedAsDirectory stray turn.filename then
    { st with createdDirs, fileIndex := st.fileIndex + 1 }
  else
    ⟨createdDirs, st.fileIndex + 1, if turn.save ≠ mzOk then st.failedCount + 1 else st.failedCount,
      st.saves ++ [(st.fileIndex, turn.save)]⟩

@[simp] lemma Saving.next_createdDirs : (st.next stray dest turn).createdDirs =
    st.createdDirs.insert (entryDirectory stray dest turn.filename) := by
  unfold Saving.next
  split_ifs <;> rfl

@[simp] lemma Saving.next_fileIndex :
    (st.next stray dest turn).fileIndex = st.fileIndex + 1 := by
  unfold Saving.next
  split_ifs <;> rfl

lemma Saving.next_saves : (st.next stray dest turn).saves =
    st.saves ++ if TreatedAsDirectory stray turn.filename then []
      else [(st.fileIndex, turn.save)] := by
  unfold Saving.next
  by_cases hdir : TreatedAsDirectory stray turn.filename
  · rw [if_pos hdir, if_pos hdir, append_nil]
  · rw [if_neg hdir, if_neg hdir]

lemma saveEntry_eq_ok_iff {st' : Saving} : saveEntry stray dest st turn = .ok st' ↔
    (entryDirectory stray dest turn.filename ∉ st.createdDirs →
    turn.createDirectories = .ok ()) ∧
    turn.progress = .ok () ∧ st' = st.next stray dest turn := by
  unfold saveEntry entryDirectory Saving.next
  by_cases hdir : TreatedAsDirectory stray turn.filename
  · simp only [if_pos hdir, bind_eq_ok_iff, insertDirectory_eq_ok_iff, entryDirectory]
    constructor
    · rintro ⟨dirs, ⟨hcreate, rfl⟩, ⟨⟩, hprogress, hst⟩
      exact ⟨hcreate, hprogress, (ok.inj hst).symm⟩
    · rintro ⟨hcreate, hprogress, rfl⟩
      exact ⟨_, ⟨hcreate, rfl⟩, (), hprogress, rfl⟩
  · simp only [if_neg hdir, bind_eq_ok_iff, insertDirectory_eq_ok_iff, entryDirectory]
    constructor
    · rintro ⟨dirs, ⟨hcreate, rfl⟩, ⟨⟩, hprogress, hst⟩
      exact ⟨hcreate, hprogress, (ok.inj hst).symm⟩
    · rintro ⟨hcreate, hprogress, rfl⟩
      exact ⟨_, ⟨hcreate, rfl⟩, (), hprogress, rfl⟩

lemma foldlM_saveEntry_eq_ok_iff {entries : List EntryTurn} {st' : Saving} :
    entries.foldlM (saveEntry stray dest) st = .ok st' ↔
    Quiet stray dest st.createdDirs entries ∧
    st' = entries.foldl (Saving.next stray dest) st := by
  induction entries generalizing st with
  | nil =>
    rw [Quiet, true_and, eq_comm]
    exact ⟨fun h => (ok.inj h.symm).symm, fun h => by rw [h]; rfl⟩
  | cons turn rest ih =>
    rw [foldlM_cons, bind_eq_ok_iff]
    constructor
    · rintro ⟨st₁, hturn, hrest⟩
      obtain ⟨hcreate, hprogress, rfl⟩ := saveEntry_eq_ok_iff.mp hturn
      obtain ⟨hquiet, hst⟩ := ih.mp hrest
      rw [Saving.next_createdDirs] at hquiet
      exact ⟨⟨hcreate, hprogress, hquiet⟩, hst⟩
    · rintro ⟨⟨hcreate, hprogress, hquiet⟩, hst⟩
      refine ⟨_, saveEntry_eq_ok_iff.mpr ⟨hcreate, hprogress, rfl⟩, ih.mpr ⟨?_, hst⟩⟩
      rw [Saving.next_createdDirs]
      exact hquiet

lemma mem_foldl_next_saves {entries : List EntryTurn} {i : Nat} {code : Int} :
    (i, code) ∈ (entries.foldl (Saving.next stray dest) st).saves ↔
    (i, code) ∈ st.saves ∨ ∃ j turn, entries[j]? = some turn ∧ i = st.fileIndex + j ∧
    ¬ TreatedAsDirectory stray turn.filename ∧ turn.save = code := by
  induction entries generalizing st with
  | nil => simp
  | cons turn rest ih =>
    rw [foldl_cons, ih, Saving.next_saves, Saving.next_fileIndex, mem_append, or_assoc]
    refine or_congr_right ?_
    constructor
    · rintro (hmem | ⟨j, turn', hget, rfl, hfile, hsave⟩)
      · split_ifs at hmem with hdir
        · cases hmem
        · obtain ⟨rfl, rfl⟩ := Prod.mk.inj (mem_singleton.mp hmem)
          exact ⟨0, turn, rfl, rfl, hdir, rfl⟩
      · exact ⟨j + 1, turn', hget, by omega, hfile, hsave⟩
    · rintro ⟨j, turn', hget, rfl, hfile, hsave⟩
      cases j with
      | zero =>
        obtain rfl := Option.some.inj hget
        rw [if_neg hfile, hsave]
        exact .inl (mem_singleton.mpr rfl)
      | succ j => exact .inr ⟨j, turn', hget, by omega, hfile, hsave⟩

end

section
variable {stray : Char} {dest : List Char}

lemma extractZipArchiveResult_eq_true_iff {run : ArchiveRun} {st : Saving} :
    extractZipArchiveResult stray dest run = .ok (true, st) ↔
    run.Completes stray dest ∧
    st = run.walk.entries.foldl (Saving.next stray dest) .start := by
  unfold extractZipArchiveResult ArchiveRun.Completes
  cases hreader : run.readerCreated with
  | false => simp
  | true =>
    by_cases hopen : run.openStatus = mzOk
    · rw [if_neg (by decide), if_neg (by simpa using hopen), bind_eq_ok_iff]
      constructor
      · rintro ⟨⟨⟩, hdest, h⟩
        obtain ⟨st', hloop, hret⟩ := bind_eq_ok_iff.mp h
        obtain ⟨hquiet, rfl⟩ := foldlM_saveEntry_eq_ok_iff.mp hloop
        obtain ⟨hstatus, rfl⟩ := Prod.mk.inj (ok.inj hret)
        have hend := (of_decide_eq_true hstatus).resolve_right run.walk.ended
        exact ⟨⟨rfl, hopen, hdest, hquiet, hend⟩, rfl⟩
      · rintro ⟨⟨-, -, hdest, hquiet, hend⟩, rfl⟩
        refine ⟨(), hdest, bind_eq_ok_iff.mpr ⟨_, foldlM_saveEntry_eq_ok_iff.mpr ⟨hquiet, rfl⟩, ?_⟩⟩
        rw [decide_eq_true (.inl hend)]
    · simp [hopen]

lemma everyFileSaved_iff {entries : List EntryTurn} :
    EveryFileSaved entries (entries.foldl (Saving.next stray dest) .start).saves ↔
    ∀ turn ∈ entries, turn.Saves stray := by
  constructor
  · intro h turn hturn hname
    obtain ⟨i, hget⟩ := mem_iff_getElem?.mp hturn
    rcases mem_foldl_next_saves.mp (h i turn hget hname) with hnil | ⟨j, turn', hget', hij, hsaved⟩
    · cases hnil
    · rw [show i = j by rw [hij]; simp [Saving.start], hget'] at hget
      rw [← Option.some.inj hget]
      exact hsaved
  · intro h i turn hget hname
    obtain ⟨hfile, hsave⟩ := h turn (mem_of_getElem? hget) hname
    exact mem_foldl_next_saves.mpr
      (.inr ⟨i, turn, hget, by simp [Saving.start], hfile, hsave⟩)

lemma true_mem_updateImpl {run : UpdateRun} (h : true ∈ (updateImpl stray dest run).1) :
    ∃ st, extractZipArchiveResult stray dest run.archive = .ok (true, st) := by
  unfold updateImpl at h
  cases hbody : updateBody stray dest run with
  | error =>
    rw [hbody] at h
    cases hprogress : run.failureProgress with
    | error => simp [hprogress] at h
    | ok =>
      cases hcleanup : run.cleanup with
      | error | ok => simp [hprogress, hcleanup] at h
  | ok =>
    obtain ⟨-, -, hbody⟩ := bind_eq_ok_iff.mp hbody
    obtain ⟨-, -, hbody⟩ := bind_eq_ok_iff.mp hbody
    obtain ⟨⟨extracted, st⟩, hextract, hbody⟩ := bind_eq_ok_iff.mp hbody
    cases extracted with
    | false => cases hbody
    | true => exact ⟨st, hextract⟩

/-- Reported success means saved files exactly when no archive that completes has a file
that was not saved: the number of failures is not asked for. -/
theorem success_means_saved_iff (stray : Char) (destDir : List Char) (run : UpdateRun) :
    SuccessMeansSaved stray destDir run ↔
      (run.archive.Completes stray destDir → ∀ turn ∈ run.archive.walk.entries, turn.Saves stray) := by
  constructor
  · rintro ⟨hextract, -⟩ hcompletes
    exact everyFileSaved_iff.mp (hextract _ (extractZipArchiveResult_eq_true_iff.mpr ⟨hcompletes, rfl⟩))
  · intro h
    have hextract (st : Saving)
        (hst : extractZipArchiveResult stray destDir run.archive = .ok (true, st)) :
        EveryFileSaved run.archive.walk.entries st.saves := by
      obtain ⟨hcompletes, rfl⟩ := extractZipArchiveResult_eq_true_iff.mp hst
      exact everyFileSaved_iff.mpr (h hcompletes)
    refine ⟨hextract, fun htrue => ?_⟩
    obtain ⟨st, hst⟩ := true_mem_updateImpl htrue
    exact ⟨st, hst, hextract st hst⟩

def lockedFile : EntryTurn := ⟨"a".toList, .ok (), -111, .ok ()⟩

def lockedUpdate : UpdateRun :=
  ⟨.ok (), .ok (), ⟨true, mzOk, .ok (), ⟨[lockedFile], mzEndOfList, by decide⟩⟩, .ok (), .ok (), .ok ()⟩

/-- The update is reported as done although its only file was not written. -/
theorem lockedUpdate_reported : (updateImpl '/' "d".toList lockedUpdate).1 = [true] ∧
      ¬ SuccessMeansSaved '/' "d".toList lockedUpdate := by
  refine ⟨by decide, fun h => ?_⟩
  have hsaved := h.1 ⟨["d".toList], 1, 1, [(0, -111)]⟩ (by decide)
  have hmem := hsaved 0 lockedFile rfl (by decide)
  exact absurd hmem (by decide)

end

end Millennium.Util
