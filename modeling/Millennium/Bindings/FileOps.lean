import Millennium.Lib.LexicalPath
import Millennium.Lib.Script

/-!
# The file operations of the installers

A script of the theme or the plugin installer logs the location of all that it deletes, creates,
renames to or overwrites, also when the operation then fails. Answers, archives and directories are
up to the world.
-/

namespace Millennium.Bindings

open LexicalPath Script List LexPath Location

inductive FileEffect where
  | created (location : Location)
  | deleted (location : Location)
  | renamedTo (location : Location)
  | wrote (location : Location)
  deriving Repr, DecidableEq

def FileEffect.location : FileEffect → Location
  | .created loc => loc
  | .deleted loc => loc
  | .renamedTo loc => loc
  | .wrote loc => loc

/-- The answers of the world, by the clock. An error is the text of an exception. -/
structure World (folder : LexPath) where
  outcome : Nat → Except String Unit
  isThere : Nat → Except String Bool
  answer : Nat → Except String Bool
  removeError : Nat → Option String
  renameError : Nat → Option String
  copyError : Nat → Option String
  directories : Nat → List Location
  there : ∀ t, folder.way ⊆ directories t
  words : Nat → Fin 4 → UInt32
  /-- The fields `data.download` and `data.latestHash` of the server's response. -/
  response : Nat → Except String (List Char × List Char)
  contents : Nat → List Descent

/-- The response to the front end: `success`, or the text of an error. -/
inductive Response where
  | success
  | error (message : String)
  deriving Repr, DecidableEq

def hexDigits (width n : Nat) : List Char :=
  (List.range width).map fun i => Nat.digitChar (n >>> (4 * (width - 1 - i)) % 16)

def generateUUID (data : Fin 4 → UInt32) : List Char :=
  hexDigits 8 (data 0).toNat ++ '-' ::
    (hexDigits 4 (data 1 >>> 16 &&& 0xFFFF).toNat ++ '-' ::
      (hexDigits 4 (data 1 &&& 0x0FFF ||| 0x4000).toNat ++ '-' ::
        (hexDigits 4 (data 2 >>> 16 &&& 0x3FFF ||| 0x8000).toNat ++ '-' ::
          (hexDigits 4 (data 2 &&& 0xFFFF).toNat ++ hexDigits 8 (data 3).toNat))))

def tempMark : List Char := "__tmp_".toList

lemma slash_not_mem_hexDigits (width n : Nat) : '/' ∉ hexDigits width n := by
  have hdigit : ∀ k < 16, Nat.digitChar k ≠ '/' := by decide
  intro hmem
  obtain ⟨i, -, hi⟩ := mem_map.mp hmem
  exact hdigit _ (Nat.mod_lt _ (by decide)) hi

lemma slash_not_mem_generateUUID (data : Fin 4 → UInt32) : '/' ∉ generateUUID data := by
  simp [generateUUID, slash_not_mem_hexDigits]

lemma generateUUID_length (data : Fin 4 → UInt32) : (generateUUID data).length = 36 := by
  simp [generateUUID, hexDigits]

lemma uuid_name (before after : List Char) (data : Fin 4 → UInt32) (hb : '/' ∉ before)
    (ha : '/' ∉ after) :
    ofText (before ++ generateUUID data ++ after) =
    ⟨false, [before ++ generateUUID data ++ after]⟩ ∧
    Proper (before ++ generateUUID data ++ after) := by
  have hlong : 36 ≤ (before ++ generateUUID data ++ after).length := by
    rw [length_append, length_append, generateUUID_length]
    omega
  have hne (c : List Char) (hc : c.length < 36) : before ++ generateUUID data ++ after ≠ c := by
    rintro rfl
    omega
  refine ⟨ofText_name ?_ (hne [] (by decide)), hne dot (by decide), hne dotdot (by decide)⟩
  simp [hb, ha, slash_not_mem_generateUUID]

section
variable {folder : LexPath} (w : World folder)

def pathExists : Script FileEffect Bool := ask w.isThere

def query : Script FileEffect Bool := ask w.answer

def makeDirectories (p : LexPath) : Script FileEffect Unit := do
  let dirs ← ask fun t => .ok (w.directories t)
  each (createDirectories dirs p) fun loc => act (.created loc)
  ask w.outcome

def removeAll (p : LexPath) : Script FileEffect Unit := do
  act (.deleted p.location)
  ask w.outcome

/-- `platform::remove_directory`: after a failure the entries are made writable, and it tries again.
-/
def removeDirectory (p : LexPath) : Script FileEffect Bool := do
  if ← pathExists w then
    act (.deleted p.location)
    match ← ask fun t => .ok (w.removeError t) with
    | none => pure true
    | some _ =>
      ask w.outcome
      act (.deleted p.location)
      match ← ask fun t => .ok (w.removeError t) with
      | none => pure true
      | some _ => pure false
  else pure true

def rename (p : LexPath) : Script FileEffect (Option String) := do
  act (.renamedTo p.location)
  ask fun t => .ok (w.renameError t)

def copyFile (p : LexPath) : Script FileEffect Unit := do
  act (.wrote p.location)
  ask w.outcome

/-- `Http::DownloadWithProgress`: a download that fails is removed again. -/
def download (p : LexPath) : Script FileEffect Unit := do
  act (.wrote p.location)
  -- the file is opened
  ask w.outcome
  rescue (ask w.outcome) fun e => do
    removeAll w p
    raise ("Download failed: " ++ e)

/-- `Util::ExtractZipArchive`, taken to write only below its destination. -/
def extractZip (p : LexPath) : Script FileEffect Bool := do
  let entries ← ask fun t => .ok (w.contents t)
  each entries fun d => act (.wrote (p.location.descend d))
  query w

/-- `std::filesystem::copy` of a directory, recursive, with an error code. -/
def copyDirectory (p : LexPath) : Script FileEffect (Option String) := do
  let entries ← ask fun t => .ok (w.contents t)
  each entries fun d => act (.wrote (p.location.descend d))
  ask fun t => .ok (w.copyError t)

/-- An entry of an extracted directory by its canonical place, which a link may lead out of it. -/
structure Extracted where
  ups : Nat
  names : List Name
  proper : ∀ c ∈ names, Proper c
  directory : Bool

def Extracted.rel (entry : Extracted) : LexPath :=
  ⟨false, if entry.ups = 0 ∧ entry.names = [] then [dot]
    else List.replicate entry.ups dotdot ++ entry.names⟩

def copyOver (target : LexPath) (entries : List Extracted) : Script FileEffect Unit :=
  each entries fun entry =>
    let dest := target.join entry.rel
    if entry.directory then makeDirectories w dest else copyFile w dest

def Extracted.Stays (entry : Extracted) (q folder : LexPath) : Prop :=
  if entry.directory then (q.join entry.rel).DirsStay folder
  else (q.join entry.rel).ReachesBelow folder.location

instance (entry : Extracted) (q folder : LexPath) : Decidable (entry.Stays q folder) := by
  unfold Extracted.Stays
  infer_instance

end

def Within (folder : LexPath) (e : FileEffect) : Prop := folder.location.Below e.location

section
variable {folder : LexPath} (w : World folder) {p q : LexPath}

lemma only_pathExists {P : FileEffect → Prop} : Only P (pathExists w) := only_ask _

lemma only_query {P : FileEffect → Prop} : Only P (query w) := only_ask _

lemma only_makeDirectories (h : q.DirsStay folder) :
    Only (Within folder) (makeDirectories w (folder.join q)) := by
  refine only_bind (only_ask _) ?_
  rintro dirs ⟨t, hdirs⟩
  cases hdirs
  refine only_seq (only_each fun loc hloc => only_act ?_) fun _ => only_ask _
  exact createDirectories_join_iff.mpr h _ (w.there t) loc hloc

lemma only_makeFolder : Only (Within folder) (makeDirectories w folder) := by
  refine only_bind (only_ask _) ?_
  rintro dirs ⟨t, hdirs⟩
  cases hdirs
  rw [createDirectories_of_way (w.there t)]
  exact only_seq (only_pure _) fun _ => only_ask _

section
variable (h : folder.location.Below p.location)
include h

lemma only_removeAll : Only (Within folder) (removeAll w p) :=
  only_seq (only_act h) fun _ => only_ask _

lemma only_removeDirectory : Only (Within folder) (removeDirectory w p) := by
  refine only_seq (only_pathExists w) fun isThere => ?_
  cases isThere with
  | false => exact only_pure _
  | true =>
    refine only_seq (only_act h) fun _ => only_seq (only_ask _) fun first => ?_
    cases first with
    | none => exact only_pure _
    | some e =>
      refine only_seq (only_ask _) fun _ => only_seq (only_act h) fun _ =>
        only_seq (only_ask _) fun second => ?_
      cases second with
      | none | some e => exact only_pure _

lemma only_rename : Only (Within folder) (rename w p) :=
  only_seq (only_act h) fun _ => only_ask _

lemma only_copyFile : Only (Within folder) (copyFile w p) :=
  only_seq (only_act h) fun _ => only_ask _

lemma only_download : Only (Within folder) (download w p) := by
  refine only_seq (only_act h) fun _ => only_seq (only_ask _) fun _ => ?_
  exact only_rescue (only_ask _) fun e => only_seq (only_removeAll w h) fun _ => only_raise _

end

lemma only_extractZip (h : folder.location.Inside p.location) :
    Only (Within folder) (extractZip w p) :=
  only_seq (only_ask _) fun _ => only_seq
    (only_each fun d _ => only_act (below_descend h d)) fun _ => only_query w

lemma only_copyDirectory (h : folder.location.Inside p.location) :
    Only (Within folder) (copyDirectory w p) :=
  only_seq (only_ask _) fun _ => only_seq
    (only_each fun d _ => only_act (below_descend h d)) fun _ => only_ask _

lemma only_copyOver {entries : List Extracted} (h : ∀ entry ∈ entries, entry.Stays q folder) :
    Only (Within folder) (copyOver w (folder.join q) entries) := by
  refine only_each fun entry hentry => ?_
  have hstays := h entry hentry
  rw [join_assoc]
  unfold Extracted.Stays at hstays
  split_ifs at hstays ⊢
  · exact only_makeDirectories w hstays
  · exact only_copyFile w (below_join_iff.mpr hstays)

end

section
variable {folder : List Char} (w : World (ofText folder)) {p : LexPath}

def tempDirectory (folder : List Char) (data : Fin 4 → UInt32) : LexPath :=
  ofText (joinText folder (tempMark ++ generateUUID data))

def removeIfThere (p : LexPath) : Script FileEffect Unit := do
  let isThere ← pathExists w
  if isThere then removeAll w p else pure ()

def ArchiveStays (folder name : List Char) : Prop :=
  (ofText (name ++ ".zip".toList)).ReachesBelowFromChild (ofText folder).location

lemma tempDirectory_eq (folder : List Char) (data : Fin 4 → UInt32) : tempDirectory folder data =
    (ofText folder).join ⟨false, [tempMark ++ generateUUID data]⟩ := by
  have hname := (uuid_name tempMark [] data (by decide) not_mem_nil).1
  rw [append_nil] at hname
  rw [tempDirectory, ofText_joinText, hname]

lemma tempName_proper (data : Fin 4 → UInt32) : Proper (tempMark ++ generateUUID data) := by
  have hproper := (uuid_name tempMark [] data (by decide) not_mem_nil).2
  rwa [append_nil] at hproper

lemma tempDirectory_below (data : Fin 4 → UInt32) :
    (ofText folder).location.Below (tempDirectory folder data).location := by
  rw [tempDirectory_eq, join_name_location (tempName_proper data)]
  exact (below_child_iff (tempName_proper data)).mpr (inside_refl _)

lemma archive_below_iff {name : List Char} (data : Fin 4 → UInt32) :
    (ofText folder).location.Below
        ((tempDirectory folder data).join (ofText (name ++ ".zip".toList))).location ↔
    ArchiveStays folder name := by
  rw [tempDirectory_eq]
  exact below_join_child_iff (tempName_proper data)

lemma metadata_below_iff : (ofText folder).location.Below
        (p.join ⟨false, ["metadata.json".toList]⟩).location ↔
    (ofText folder).location.Inside p.location := by
  rw [join_name_location (by decide)]
  exact below_child_iff (by decide)

lemma only_tempDirectory (data : Fin 4 → UInt32) :
    Only (Within (ofText folder)) (makeDirectories w (tempDirectory folder data)) := by
  rw [tempDirectory_eq]
  exact only_makeDirectories w (dirsStay_name (tempName_proper data) _)

lemma only_removeIfThere (h : (ofText folder).location.Below p.location) :
    Only (Within (ofText folder)) (removeIfThere w p) := by
  refine only_seq (only_pathExists w) fun isThere => ?_
  split_ifs
  · exact only_removeAll w h
  · exact only_pure _

lemma only_cleanUp {α : Type} (data : Fin 4 → UInt32) (result : α) :
    Only (Within (ofText folder)) (do
      removeIfThere w (tempDirectory folder data)
      pure result) :=
  only_seq (only_removeIfThere w (tempDirectory_below data)) fun _ => only_pure _

end

/-- Only the folder is a directory, all other paths exist or none does, and only `rename` may fail.
-/
def smoothWorld (folder : LexPath) (isThere : Bool) (renameError : Option String)
    (response : List Char × List Char) : World folder where
  outcome _ := .ok ()
  isThere _ := .ok isThere
  answer _ := .ok true
  removeError _ := none
  renameError _ := renameError
  copyError _ := none
  directories _ := folder.way
  there _ := List.Subset.refl _
  words _ _ := 0
  response _ := .ok response
  contents _ := []

section
variable {folder : LexPath} {isThere : Bool} {err : Option String}
  {response : List Char × List Char}
  {p q : LexPath}

lemma returns_pathExists :
    Returns (pathExists (smoothWorld folder isThere err response)) isThere :=
  returns_ask fun _ => rfl

lemma returns_query : Returns (query (smoothWorld folder isThere err response)) true :=
  returns_ask fun _ => rfl

lemma does_makeDirectories {loc : Location} (h : loc ∈ createDirectories folder.way p) :
    Does (makeDirectories (smoothWorld folder isThere err response) p) (.created loc) :=
  .then (returns_ask fun _ => rfl)
    (.first (does_each (fun _ _ => returns_act _) h (does_act _)))

lemma returns_makeDirectories :
    Returns (makeDirectories (smoothWorld folder isThere err response) p) () :=
  .then (returns_ask fun _ => rfl)
    (.then (returns_each fun _ _ => returns_act _) (returns_ask fun _ => rfl))

lemma dirsStay_of_created
    (h : ∀ e, Does (makeDirectories (smoothWorld folder isThere err response)
      (folder.join q)) e →
    Within folder e) : q.DirsStay folder := by
  refine createDirectories_join_iff.mp fun dirs hdirs loc hloc => ?_
  obtain ⟨hnew, hpre⟩ := mem_createDirectories.mp hloc
  exact h (.created loc) (does_makeDirectories
    (mem_createDirectories.mpr ⟨fun hmem => hnew (hdirs hmem), hpre⟩))

lemma does_removeDirectory : Does (removeDirectory (smoothWorld folder true err response) p)
      (.deleted p.location) :=
  .then returns_pathExists (.first (does_act _))

lemma returns_removeDirectory :
    Returns (removeDirectory (smoothWorld folder true err response) p) true :=
  .then returns_pathExists
    (.then (returns_act _) (.then (returns_ask fun _ => rfl) (returns_pure _)))

lemma returns_rename :
    Returns (rename (smoothWorld folder isThere err response) p) err :=
  .then (returns_act _) (returns_ask fun _ => rfl)

lemma returns_copyFile :
    Returns (copyFile (smoothWorld folder isThere err response) p) () :=
  .then (returns_act _) (returns_ask fun _ => rfl)

lemma does_download :
    Does (download (smoothWorld folder isThere err response) p) (.wrote p.location) :=
  .first (does_act _)

lemma returns_download :
    Returns (download (smoothWorld folder isThere err response) p) () :=
  .then (returns_act _) (.then (returns_ask fun _ => rfl) (.rescue (returns_ask fun _ => rfl)))

lemma returns_extractZip :
    Returns (extractZip (smoothWorld folder isThere err response) p) true :=
  .then (returns_ask fun _ => rfl) (.then (returns_each fun _ _ => returns_act _) returns_query)

lemma returns_copyTurn {dest : LexPath} {entry : Extracted} :
    Returns (if entry.directory then makeDirectories
      (smoothWorld folder isThere err response) dest
      else copyFile (smoothWorld folder isThere err response) dest) () := by
  split_ifs
  · exact returns_makeDirectories
  · exact returns_copyFile

lemma returns_copyOver {entries : List Extracted} :
    Returns (copyOver (smoothWorld folder isThere err response) p entries) () :=
  returns_each fun _ _ => returns_copyTurn

lemma stays_of_copied {entries : List Extracted}
    (h : ∀ e, Does (copyOver (smoothWorld folder isThere err response) (folder.join q)
      entries) e →
    Within folder e) : ∀ entry ∈ entries, entry.Stays q folder := by
  intro entry hentry
  have hturn (e : FileEffect) (he : Does (if entry.directory
      then makeDirectories (smoothWorld folder isThere err response)
        (folder.join (q.join entry.rel))
      else copyFile (smoothWorld folder isThere err response)
        (folder.join (q.join entry.rel))) e) : Within folder e := by
    refine h e (does_each (fun _ _ => returns_copyTurn) hentry ?_)
    rwa [join_assoc]
  unfold Extracted.Stays
  split_ifs at hturn ⊢
  · exact dirsStay_of_created hturn
  · exact below_join_iff.mp (hturn (.wrote _) (.first (does_act _)))

end

end Millennium.Bindings
