import Millennium.Bindings.FileOps
import Millennium.Star.Plugin

/-!
# Installing and updating plugins

A `.star` plugin is stored under the id in its metadata, which may be any text, an updated one under
the name the front end gives. Both reach the plugins folder unchecked.
-/

namespace Millennium.Bindings

open LexicalPath Script Millennium.Star Bytes LexPath

def looksLikeZip (file : Octets) : Bool := file.take 2 = [0x50, 0x4B]

/-- The text of an exception. A run ends with an access out of bounds. -/
def faultText : Fault → String
  | .runtimeError message => message
  | .outOfBounds _ _ => "access out of bounds"

section
variable {plugins : List Char} (w : World (ofText plugins))
  (parse : Octets → Except Fault (Option StarPlugin))

def moveTo (p : LexPath) : Script FileEffect Unit := do
  act (.renamedTo p.location)
  ask w.outcome

def starPath (plugins name : List Char) : LexPath :=
  ofText (joinText plugins (name ++ ".star".toList))

def placeDownload (downloadedFile : LexPath) (file : Octets) : Script FileEffect Response :=
  if !looksLikeZip file then
    match parse file with
    | .error fault => raise (faultText fault)
    | .ok none => do
        removeAll w downloadedFile
        raise "Downloaded file is not a valid plugin archive"
    | .ok (some plugin) => do
        moveTo w (starPath plugins plugin.pluginName)
        pure .success
  else do
    let extracted ← extractZip w (ofText plugins)
    removeAll w downloadedFile
    if !extracted then raise "Failed to extract plugin archive" else pure .success

def installPlugin (file : Octets) : Script FileEffect Response :=
  rescue (do
    makeDirectories w (ofText plugins)
    let data ← ask fun t => .ok (w.words t)
    let downloadedFile := ofText (joinText plugins (generateUUID data))
    download w downloadedFile
    placeDownload w parse downloadedFile file) fun e => pure (.error e)

def updateStarPlugin (name : List Char) (file : Octets) : Script FileEffect Bool :=
  rescue (do
    let data ← ask fun t => .ok (w.words t)
    let tempFile := ofText
      (joinText plugins (tempMark ++ generateUUID data ++ ".star".toList))
    download w tempFile
    match parse file with
    | .error fault => raise (faultText fault)
    | .ok none =>
      removeAll w tempFile
      pure false
    | .ok (some _) =>
      moveTo w (starPath plugins name)
      pure true) fun _ => pure false

def readOldMetadata : Script FileEffect Unit := do
  let isThere ← pathExists w
  if isThere then ask w.outcome else pure ()

def stampCommit (targetFolder : LexPath) (commit : List Char) : Script FileEffect Unit :=
  if commit = [] then pure ()
  else do
    readOldMetadata w
    act (.wrote (targetFolder.join ⟨false, ["metadata.json".toList]⟩).location)

/-- `update_plugin` inside its `try`, from the temporary directory on. -/
def finishPluginUpdate (name commit : List Char) (data : Fin 4 → UInt32)
    (entries : List Extracted) : Script FileEffect Bool := do
  let tempDir := tempDirectory plugins data
  makeDirectories w tempDir
  download w (tempDir.join (ofText (name ++ ".zip".toList)))
  let _ ← extractZip w tempDir
  let found ← query w
  if !found then
    removeAll w tempDir
    pure false
  else
    let targetFolder := ofText (joinText plugins name)
    makeDirectories w targetFolder
    copyOver w targetFolder entries
    stampCommit w targetFolder commit
    removeAll w tempDir
    pure true

/-- `update_plugin`, for the file that is downloaded or what it holds. -/
def updatePlugin (name commit : List Char) (file : Octets) (entries : List Extracted) :
    Script FileEffect Bool := do
  let starThere ← pathExists w
  if starThere then updateStarPlugin w parse name file
  else
    let data ← ask fun t => .ok (w.words t)
    rescue (finishPluginUpdate w name commit data entries) fun _ => do
      removeAll w (tempDirectory plugins data)
      pure false

end

/-- What the installer is asked to do, with what the server then sends. -/
inductive PluginRequest where
  | install (file : Octets)
  | update (id name commit : List Char) (file : Octets) (entries : List Extracted)

def PluginRequest.Confined (plugins : List Char)
    (parse : Octets → Except Fault (Option StarPlugin)) : PluginRequest → Prop
  | .install file => ∀ w : World (ofText plugins),
      Only (Within (ofText plugins)) (installPlugin w parse file)
  | .update _ name commit file entries => ∀ w : World (ofText plugins),
      Only (Within (ofText plugins)) (updatePlugin w parse name commit file entries)

def StarNameStays (plugins name : List Char) : Prop :=
  (ofText (name ++ ".star".toList)).ReachesBelow (ofText plugins).location

def PluginRequest.Stays (plugins : List Char)
    (parse : Octets → Except Fault (Option StarPlugin)) : PluginRequest → Prop
  | .install file => looksLikeZip file ∨
      ∀ plugin, parse file = .ok (some plugin) → StarNameStays plugins plugin.pluginName
  | .update _ name commit file entries =>
    ((∃ plugin, parse file = .ok (some plugin)) → StarNameStays plugins name) ∧
      ArchiveStays plugins name ∧ (ofText name).DirsStay (ofText plugins) ∧
      (∀ entry ∈ entries, entry.Stays (ofText name) (ofText plugins)) ∧
      (commit ≠ [] → (ofText name).Reaches (ofText plugins).location)

section
variable {plugins : List Char} (w : World (ofText plugins))
  {parse : Octets → Except Fault (Option StarPlugin)} {p : LexPath}

variable {name commit : List Char} {file : Octets}

lemma starPath_below_iff :
    (ofText plugins).location.Below (starPath plugins name).location ↔
    StarNameStays plugins name := by
  rw [starPath, ofText_joinText]
  exact below_join_iff

lemma uuid_below (before after : List Char) (data : Fin 4 → UInt32) (hb : '/' ∉ before)
    (ha : '/' ∉ after) :
    (ofText plugins).location.Below
      (ofText (joinText plugins (before ++ generateUUID data ++ after))).location := by
  obtain ⟨htext, hproper⟩ := uuid_name before after data hb ha
  rw [ofText_joinText, htext, join_name_location hproper]
  exact (Location.below_child_iff hproper).mpr (Location.inside_refl _)

lemma only_moveTo (h : (ofText plugins).location.Below p.location) :
    Only (Within (ofText plugins)) (moveTo w p) :=
  only_seq (only_act h) fun _ => only_ask _

lemma only_placeDownload (hp : (ofText plugins).location.Below p.location)
    (h : (PluginRequest.install file).Stays plugins parse) :
    Only (Within (ofText plugins)) (placeDownload w parse p file) := by
  unfold placeDownload
  split_ifs with hzip
  · split
    · exact only_raise _
    · exact only_seq (only_removeAll w hp) fun _ => only_raise _
    · rename_i plugin hparse
      have hname := h.resolve_left (by simpa using hzip) plugin hparse
      exact only_seq (only_moveTo w (starPath_below_iff.mpr hname)) fun _ => only_pure _
  · refine only_seq (only_extractZip w (Location.inside_refl _)) fun extracted =>
      only_seq (only_removeAll w hp) fun _ => ?_
    split_ifs
    · exact only_raise _
    · exact only_pure _

lemma only_installPlugin (h : (PluginRequest.install file).Stays plugins parse) :
    Only (Within (ofText plugins)) (installPlugin w parse file) := by
  refine only_rescue ?_ fun e => only_pure _
  refine only_seq (only_makeFolder w) fun _ => only_seq (only_ask _) fun data => ?_
  have hfile := @uuid_below plugins [] [] data List.not_mem_nil List.not_mem_nil
  exact only_seq (only_download w hfile) fun _ => only_placeDownload w hfile h

lemma only_updateStarPlugin
    (h : (∃ plugin, parse file = .ok (some plugin)) → StarNameStays plugins name) :
    Only (Within (ofText plugins)) (updateStarPlugin w parse name file) := by
  refine only_rescue (only_seq (only_ask _) fun data => ?_) fun e => only_pure _
  have hfile := @uuid_below plugins tempMark ".star".toList data (by decide) (by decide)
  refine only_seq (only_download w hfile) fun _ => ?_
  split
  · exact only_raise _
  · exact only_seq (only_removeAll w hfile) fun _ => only_pure _
  · rename_i plugin hparse
    have hname := starPath_below_iff.mpr (h ⟨plugin, hparse⟩)
    exact only_seq (only_moveTo w hname) fun _ => only_pure _

lemma only_readOldMetadata {P : FileEffect → Prop} : Only P (readOldMetadata w) := by
  refine only_seq (only_pathExists w) fun isThere => ?_
  split_ifs
  · exact only_ask _
  · exact only_pure _

lemma only_stampCommit (h : commit ≠ [] → (ofText plugins).location.Inside p.location) :
    Only (Within (ofText plugins)) (stampCommit w p commit) := by
  unfold stampCommit
  split_ifs with hcommit
  · exact only_pure _
  · exact only_seq (only_readOldMetadata w) fun _ => only_act (metadata_below_iff.mpr (h hcommit))

lemma only_finishPluginUpdate {entries : List Extracted} (data : Fin 4 → UInt32)
    (harchive : ArchiveStays plugins name)
    (hdirs : (ofText name).DirsStay (ofText plugins))
    (hents : ∀ entry ∈ entries, entry.Stays (ofText name) (ofText plugins))
    (hcommit : commit ≠ [] → (ofText name).Reaches (ofText plugins).location) :
    Only (Within (ofText plugins)) (finishPluginUpdate w name commit data entries) := by
  have htemp := @tempDirectory_below plugins data
  unfold finishPluginUpdate
  rw [ofText_joinText]
  refine only_seq (only_tempDirectory w data) fun _ =>
    only_seq (only_download w ((archive_below_iff data).mpr harchive)) fun _ =>
      only_seq (only_extractZip w htemp.inside) fun _ => only_seq (only_query w) fun found => ?_
  split_ifs
  · exact only_seq (only_removeAll w htemp) fun _ => only_pure _
  · exact only_seq (only_makeDirectories w hdirs) fun _ =>
      only_seq (only_copyOver w hents) fun _ =>
        only_seq (only_stampCommit w fun h => inside_join_iff.mpr (hcommit h)) fun _ =>
          only_seq (only_removeAll w htemp) fun _ => only_pure _

lemma only_updatePlugin {id : List Char} {entries : List Extracted}
    (h : (PluginRequest.update id name commit file entries).Stays plugins parse) :
    Only (Within (ofText plugins)) (updatePlugin w parse name commit file entries) := by
  obtain ⟨hstar, harchive, hdirs, hents, hcommit⟩ := h
  refine only_seq (only_pathExists w) fun starThere => ?_
  split_ifs
  · exact only_updateStarPlugin w hstar
  · refine only_seq (only_ask _) fun data => ?_
    exact only_rescue (only_finishPluginUpdate w data harchive hdirs hents hcommit) fun e =>
      only_seq (only_removeAll w (tempDirectory_below data)) fun _ => only_pure _

end

section
variable {plugins : List Char} {parse : Octets → Except Fault (Option StarPlugin)}
  {isThere : Bool}

def pluginWorld (plugins : List Char) (isThere : Bool) : World (ofText plugins) :=
  smoothWorld (ofText plugins) isThere none ([], [])

lemma does_moveTo {p : LexPath} :
    Does (moveTo (pluginWorld plugins isThere) p) (.renamedTo p.location) :=
  .first (does_act _)

variable {file : Octets} {commit : List Char}

lemma stays_of_install_plugin_confined (h : (PluginRequest.install file).Confined plugins parse) :
    (PluginRequest.install file).Stays plugins parse := by
  by_cases hzip : looksLikeZip file = true
  · exact .inl hzip
  refine .inr fun plugin hparse => ?_
  have hplace (downloadedFile : LexPath) :
      Does (placeDownload (pluginWorld plugins false) parse downloadedFile file)
        (.renamedTo (starPath plugins plugin.pluginName).location) := by
    rw [placeDownload, if_pos (by simpa using hzip), hparse]
    exact .first does_moveTo
  have hmoved : Does (installPlugin (pluginWorld plugins false) parse file)
      (.renamedTo (starPath plugins plugin.pluginName).location) :=
    .rescue (.then returns_makeDirectories (.then (returns_ask fun _ => rfl)
      (.then returns_download (hplace _))))
  exact starPath_below_iff.mp (h _ 0 _ (hmoved 0))

lemma does_updatePlugin {name : List Char} {entries : List Extracted} {e : FileEffect}
    (h : Does (finishPluginUpdate (pluginWorld plugins false) name commit (fun _ => 0) entries) e) :
    Does (updatePlugin (pluginWorld plugins false) parse name commit file entries) e :=
  .then returns_pathExists (.then (returns_ask fun _ => rfl) (.rescue h))

lemma does_stampCommit {p : LexPath} (h : commit ≠ []) :
    Does (stampCommit (pluginWorld plugins false) p commit)
      (.wrote (p.join ⟨false, ["metadata.json".toList]⟩).location) := by
  rw [stampCommit, if_neg h]
  exact .then (.then returns_pathExists (returns_pure _)) (does_act _)

lemma stays_of_update_plugin_confined {id name : List Char} {entries : List Extracted}
    (h : (PluginRequest.update id name commit file entries).Confined plugins parse) :
    (PluginRequest.update id name commit file entries).Stays plugins parse := by
  have hconf {e : FileEffect} (he : Does
      (finishPluginUpdate (pluginWorld plugins false) name commit (fun _ => 0) entries) e) :
      Within (ofText plugins) e := h _ 0 e (does_updatePlugin he 0)
  refine ⟨?_, ?_, ?_, ?_, ?_⟩
  · rintro ⟨plugin, hparse⟩
    have hstar : Does (updateStarPlugin (pluginWorld plugins true) parse name file)
        (.renamedTo (starPath plugins name).location) := by
      refine .rescue (.then (returns_ask fun _ => rfl) (.then returns_download ?_))
      rw [hparse]
      exact .first does_moveTo
    have hmoved : Does (updatePlugin (pluginWorld plugins true) parse name commit file entries)
        (.renamedTo (starPath plugins name).location) := .then returns_pathExists hstar
    exact starPath_below_iff.mp (h _ 0 _ (hmoved 0))
  · exact (archive_below_iff _).mp (hconf (.then returns_makeDirectories (.first does_download)))
  · refine @dirsStay_of_created _ false none ([], []) _ fun e he => hconf ?_
    rw [← ofText_joinText] at he
    exact .then returns_makeDirectories (.then returns_download (.then returns_extractZip
      (.then returns_query (.first he))))
  · refine @stays_of_copied _ false none ([], []) _ _ fun e he => hconf ?_
    rw [← ofText_joinText] at he
    exact .then returns_makeDirectories (.then returns_download (.then returns_extractZip
      (.then returns_query (.then returns_makeDirectories (.first he)))))
  · intro hcommit
    have hwrite := hconf (.then returns_makeDirectories (.then returns_download
      (.then returns_extractZip (.then returns_query (.then returns_makeDirectories
        (.then returns_copyOver (.first (does_stampCommit hcommit))))))))
    have hin := metadata_below_iff.mp hwrite
    rw [ofText_joinText] at hin
    exact inside_join_iff.mp hin

end

/-- A request is confined to the plugins folder exactly when the names it brings stay there. -/
theorem plugin_request_confined_iff (verify : Octets → Octets → Bool)
    (fromMsgpack : Octets → Option Metadata) (plugins : List Char) (request : PluginRequest) :
    request.Confined plugins (parseStarFile verify fromMsgpack) ↔
      request.Stays plugins (parseStarFile verify fromMsgpack) := by
  cases request with
  | install =>
    exact ⟨stays_of_install_plugin_confined, fun h w => only_installPlugin w h⟩
  | update =>
    exact ⟨stays_of_update_plugin_confined, fun h w => only_updatePlugin w h⟩

/-- A MessagePack text of less than 32 bytes, and what follows it. -/
def readFixstr (bytes : Octets) : Option (List Char × Octets) :=
  match bytes with
  | [] => none
  | tag :: rest =>
    let length := tag.toNat - 0xA0
    if tag < 0xA0 ∨ 0xBF < tag ∨ rest.length < length then none
    else some ((rest.take length).map fun b => Char.ofNat b.toNat, rest.drop length)

def readFixmapEntries : Nat → Octets → Option Metadata
  | 0, bytes => if bytes = [] then some [] else none
  | n + 1, bytes => do
      let (key, bytes) ← readFixstr bytes
      let (value, bytes) ← readFixstr bytes
      let rest ← readFixmapEntries n bytes
      some ((String.ofList key, .text value) :: rest)

/-- The MessagePack of small metadata: a map of less than 16 short texts. -/
def readFixmap (bytes : Octets) : Option Metadata :=
  match bytes with
  | [] => none
  | tag :: rest => if tag < 0x80 ∨ 0x8F < tag then none else readFixmapEntries (tag.toNat - 0x80) rest

/-- A plugin whose metadata is the map of `id` to `../x` and of `name` to `x`. -/
def parentPlugin : Octets :=
  starMagic ++ [formatVersion, 0, 1, 0, 0, 0, 0, 0] ++
    (StarSection.mk secMetadata 0 0 268 16 0).toBytes ++
    [0x82, 0xA2, 0x69, 0x64, 0xA4, 0x2E, 0x2E, 0x2F, 0x78, 0xA4, 0x6E, 0x61, 0x6D, 0x65, 0xA1, 0x78]

theorem parentPlugin_not_confined :
    ¬ (PluginRequest.install parentPlugin).Confined "/m/plugins".toList
      (parseStarFile (fun _ _ => false) readFixmap) := by
  intro hconf
  obtain ⟨-, q, hq, -⟩ := hconf (pluginWorld _ false) 0
    (.renamedTo ⟨true, ["x.star".toList, "m".toList]⟩) (by decide +kernel)
  have hsuffix : ["plugins".toList, "m".toList] <:+ ["x.star".toList, "m".toList] := ⟨q, hq.symm⟩
  exact absurd hsuffix (by decide)

end Millennium.Bindings
