import Millennium.Bindings.FileOps
import Millennium.Util.Archive

/-!
# Installing, updating and removing themes

The names the installer joins to the themes folder come from the front end, from a theme's
`metadata.json` and from the folder itself. Only the last are names by their origin; whether the
others leave the folder depends on how they climb.
-/

namespace Millennium.Bindings

open LexicalPath Script Util LexPath

section
variable {themes : List Char} (w : World (ofText themes))

/-- `write_metadata`: false when the file does not open, or the writing fails. -/
def writeMetadata (themePath : LexPath) : Script FileEffect Bool := do
  act (.wrote (themePath.join ⟨false, ["metadata.json".toList]⟩).location)
  query w

/-- The request for the download URL, and the random words for the temporary directory. -/
def resolveDownload : Script FileEffect (Option (Fin 4 → UInt32)) := do
  let (downloadUrl, _) ← ask w.response
  if downloadUrl = [] then pure none
  else
    let data ← ask fun t => .ok (w.words t)
    pure (some data)

def clearTarget (finalPath : LexPath) : Script FileEffect Bool := do
  let targetThere ← pathExists w
  if targetThere then removeDirectory w finalPath else pure true

/-- `install_theme` from the first look at the disk up to the temporary directory. -/
def prepareInstall (repo : List Char) : Script FileEffect (Response ⊕ (Fin 4 → UInt32)) := do
  let finalPath := joinText themes repo
  let parentThere ← pathExists w
  if !parentThere then
    pure (.inl (.error ("Themes root directory does not exist: " ++
      String.ofList (parentPath finalPath))))
  else
    let removed ← clearTarget w (ofText finalPath)
    if !removed then
      pure (.inl (.error ("Failed to remove existing target path: " ++ String.ofList finalPath)))
    else
      match ← resolveDownload w with
      | none => pure (.inl (.error "Failed to resolve download URL for theme"))
      | some data => pure (.inr data)

def beginInstall (repo owner : List Char) : Script FileEffect (Response ⊕ (Fin 4 → UInt32)) :=
  if repo = [] ∨ owner = [] then
    pure (.inl (.error "Repository name and owner cannot be empty"))
  else prepareInstall w repo

def moveIntoPlace (finalPath : LexPath) : Script FileEffect (Option String) := do
  match ← rename w finalPath with
  | none => pure none
  | some _ =>
    makeDirectories w finalPath
    copyDirectory w finalPath

def abandonInstall (tempDir finalPath : LexPath) (message : String) :
    Script FileEffect Response := do
  removeAll w tempDir
  removeIfThere w finalPath
  pure (.error message)

def finishInstall (repo : List Char) (data : Fin 4 → UInt32) : Script FileEffect Response := do
  let finalPath := ofText (joinText themes repo)
  let tempDir := tempDirectory themes data
  makeDirectories w tempDir
  download w (tempDir.join (ofText (repo ++ ".zip".toList)))
  let extracted ← extractZip w tempDir
  if !extracted then
    removeAll w tempDir
    pure (.error "Failed to extract theme archive")
  else
    let found ← query w
    if !found then
      removeAll w tempDir
      pure (.error "No directory found in extracted theme archive")
    else
      match ← moveIntoPlace w finalPath with
      | some ec =>
        abandonInstall w tempDir finalPath ("Failed to install theme (copy failed): " ++ ec)
      | none =>
        let written ← writeMetadata w finalPath
        if !written then
          abandonInstall w tempDir finalPath "Failed to write metadata after theme install"
        else
          removeAll w tempDir
          pure .success

/-- `install_theme`. The handler removes the temporary directory once it is named. -/
def installTheme (repo owner : List Char) : Script FileEffect Response := do
  let failed (e : String) : Response := .error ("Failed to install theme: " ++ e)
  match ← rescue (beginInstall w repo owner) fun e => pure (.inl (failed e)) with
  | .inl response => pure response
  | .inr data =>
    rescue (finishInstall w repo data) fun e => do
      removeIfThere w (tempDirectory themes data)
      pure (failed e)

structure ThemeMetadata where
  owner : List Char
  repo : List Char
  deriving Repr, DecidableEq

def finishUpdate (native repo : List Char) (data : Fin 4 → UInt32) (entries : List Extracted) :
    Script FileEffect Bool := do
  let themePath := ofText (joinText themes native)
  let tempDir := tempDirectory themes data
  makeDirectories w tempDir
  download w (tempDir.join (ofText (repo ++ ".zip".toList)))
  let extracted ← extractZip w tempDir
  if !extracted then
    removeAll w tempDir
    pure false
  else
    let found ← query w
    if !found then
      removeAll w tempDir
      pure false
    else
      copyOver w themePath entries
      let written ← writeMetadata w themePath
      removeAll w tempDir
      pure written

def downloadUpdate (native repo : List Char) (entries : List Extracted) :
    Script FileEffect Bool := do
  match ← rescue (resolveDownload w) fun _ => pure none with
  | none => pure false
  | some data =>
    rescue (finishUpdate w native repo data entries) fun _ => do
      removeIfThere w (tempDirectory themes data)
      pure false

/-- `update_theme`, for what `read_metadata` finds and what the downloaded archive holds. -/
def updateTheme (native : List Char) (metadata : Except String (Option ThemeMetadata))
    (entries : List Extracted) : Script FileEffect Bool :=
  match metadata with
  | .error _ => pure false
  | .ok none => pure false
  | .ok (some m) =>
    if m.owner = [] ∨ m.repo = [] then pure false else downloadUpdate w native m.repo entries

/-- An entry of `FindAllThemes`: a directory of the themes folder, and the repository in its
`skin.json`. -/
structure InstalledTheme where
  native : Name
  proper : Proper native
  name : '/' ∉ native ∧ native ≠ []
  owner : List Char
  repo : List Char

def uninstallTheme (installed : Except String (List InstalledTheme)) (repo owner : List Char) :
    Script FileEffect Response := do
  makeDirectories w (ofText themes)
  let found ← ask fun _ => installed
  match found.find? fun theme => theme.owner = owner ∧ theme.repo = repo with
  | none => pure (.error "Couldn't locate theme on disk!")
  | some theme =>
    let path := ofText (joinText themes theme.native)
    let isThere ← pathExists w
    if !isThere then pure (.error "Theme path does not exist!")
    else
      let removed ← removeDirectory w path
      if !removed then pure (.error "Failed to delete theme folder") else pure .success

end

/-- What the installer is asked to do, and what it finds on the disk and in the archive. -/
inductive ThemeRequest where
  | install (repo owner : List Char)
  | update (native : List Char) (metadata : Except String (Option ThemeMetadata))
      (entries : List Extracted)
  | uninstall (installed : Except String (List InstalledTheme)) (repo owner : List Char)

def ThemeRequest.Confined (themes : List Char) : ThemeRequest → Prop
  | .install repo owner => ∀ w : World (ofText themes),
      Only (Within (ofText themes)) (installTheme w repo owner)
  | .update native metadata entries => ∀ w : World (ofText themes),
      Only (Within (ofText themes)) (updateTheme w native metadata entries)
  | .uninstall installed repo owner => ∀ w : World (ofText themes),
      Only (Within (ofText themes)) (uninstallTheme w installed repo owner)

def ThemeRequest.Stays (themes : List Char) : ThemeRequest → Prop
  | .install repo owner => repo = [] ∨ owner = [] ∨
      ((ofText repo).ReachesBelow (ofText themes).location ∧
        (ofText repo).DirsStay (ofText themes) ∧ ArchiveStays themes repo)
  | .update native metadata entries => ∀ m, metadata = .ok (some m) → m.owner ≠ [] → m.repo ≠ [] →
      ((ofText native).Reaches (ofText themes).location ∧
        ArchiveStays themes m.repo ∧
        ∀ entry ∈ entries, entry.Stays (ofText native) (ofText themes))
  | .uninstall _ _ _ => True

section
variable {themes : List Char} (w : World (ofText themes)) {p : LexPath}

lemma only_writeMetadata (h : (ofText themes).location.Inside p.location) :
    Only (Within (ofText themes)) (writeMetadata w p) :=
  only_seq (only_act (metadata_below_iff.mpr h)) fun _ => only_query w

lemma only_resolveDownload {P : FileEffect → Prop} : Only P (resolveDownload w) := by
  refine only_seq (only_ask _) ?_
  rintro ⟨downloadUrl, latestHash⟩
  change Only P (if downloadUrl = [] then _ else _)
  split_ifs
  · exact only_pure _
  · exact only_seq (only_ask _) fun _ => only_pure _

lemma only_clearTarget (h : (ofText themes).location.Below p.location) :
    Only (Within (ofText themes)) (clearTarget w p) := by
  refine only_seq (only_pathExists w) fun targetThere => ?_
  split_ifs
  · exact only_removeDirectory w h
  · exact only_pure _

lemma only_prepareInstall {repo : List Char}
    (h : (ofText repo).ReachesBelow (ofText themes).location) :
    Only (Within (ofText themes)) (prepareInstall w repo) := by
  have hplace := below_join_iff.mpr h
  rw [← ofText_joinText] at hplace
  refine only_seq (only_pathExists w) fun parentThere => ?_
  split_ifs
  · exact only_pure _
  refine only_seq (only_clearTarget w hplace) fun removed => ?_
  split_ifs
  · exact only_pure _
  refine only_seq (only_resolveDownload w) fun data => ?_
  cases data with
  | none | some => exact only_pure _

lemma only_moveIntoPlace {q : LexPath} (hbelow : q.ReachesBelow (ofText themes).location)
    (hdirs : q.DirsStay (ofText themes)) :
    Only (Within (ofText themes)) (moveIntoPlace w ((ofText themes).join q)) := by
  have hplace := below_join_iff.mpr hbelow
  refine only_seq (only_rename w hplace) fun ec => ?_
  cases ec with
  | none => exact only_pure _
  | some =>
    exact only_seq (only_makeDirectories w hdirs) fun _ => only_copyDirectory w hplace.inside

lemma only_abandonInstall {tempDir path : LexPath} {message : String}
    (htemp : (ofText themes).location.Below tempDir.location)
    (hfinal : (ofText themes).location.Below path.location) :
    Only (Within (ofText themes)) (abandonInstall w tempDir path message) :=
  only_seq (only_removeAll w htemp) fun _ => only_seq (only_removeIfThere w hfinal) fun _ =>
    only_pure _

lemma only_finishInstall {repo : List Char} (data : Fin 4 → UInt32)
    (hbelow : (ofText repo).ReachesBelow (ofText themes).location)
    (hdirs : (ofText repo).DirsStay (ofText themes))
    (harchive : ArchiveStays themes repo) :
    Only (Within (ofText themes)) (finishInstall w repo data) := by
  have htemp := @tempDirectory_below themes data
  have hplace := below_join_iff.mpr hbelow
  unfold finishInstall
  rw [ofText_joinText]
  refine only_seq (only_tempDirectory w data) fun _ =>
    only_seq (only_download w ((archive_below_iff data).mpr harchive)) fun _ =>
      only_seq (only_extractZip w htemp.inside) fun extracted => ?_
  split_ifs
  · exact only_seq (only_removeAll w htemp) fun _ => only_pure _
  refine only_seq (only_query w) fun found => ?_
  split_ifs
  · exact only_seq (only_removeAll w htemp) fun _ => only_pure _
  refine only_seq (only_moveIntoPlace w hbelow hdirs) fun ec => ?_
  cases ec with
  | some => exact only_abandonInstall w htemp hplace
  | none =>
    refine only_seq (only_writeMetadata w hplace.inside) fun written => ?_
    split_ifs
    · exact only_abandonInstall w htemp hplace
    · exact only_seq (only_removeAll w htemp) fun _ => only_pure _

lemma only_installTheme {repo owner : List Char}
    (h : (ThemeRequest.install repo owner).Stays themes) :
    Only (Within (ofText themes)) (installTheme w repo owner) := by
  by_cases hempty : repo = [] ∨ owner = []
  · have hreject : beginInstall w repo owner = pure (.inl (.error _)) := if_pos hempty
    rw [installTheme, hreject]
    exact only_pure _
  · obtain ⟨hbelow, hdirs, harchive⟩ := (h.resolve_left fun h => hempty (.inl h)).resolve_left
      fun h => hempty (.inr h)
    have hfirst : beginInstall w repo owner = prepareInstall w repo := if_neg hempty
    rw [installTheme, hfirst]
    refine only_seq (only_rescue (only_prepareInstall w hbelow) fun e => only_pure _) fun next => ?_
    cases next with
    | inl => exact only_pure _
    | inr data =>
      exact only_rescue (only_finishInstall w data hbelow hdirs harchive)
        fun e => only_cleanUp w data _

lemma only_finishUpdate {native repo : List Char} {entries : List Extracted} (data : Fin 4 → UInt32)
    (hin : (ofText native).Reaches (ofText themes).location)
    (harchive : ArchiveStays themes repo)
    (hents : ∀ entry ∈ entries, entry.Stays (ofText native) (ofText themes)) :
    Only (Within (ofText themes)) (finishUpdate w native repo data entries) := by
  have htemp := @tempDirectory_below themes data
  unfold finishUpdate
  rw [ofText_joinText]
  refine only_seq (only_tempDirectory w data) fun _ =>
    only_seq (only_download w ((archive_below_iff data).mpr harchive)) fun _ =>
      only_seq (only_extractZip w htemp.inside) fun extracted => ?_
  split_ifs
  · exact only_seq (only_removeAll w htemp) fun _ => only_pure _
  refine only_seq (only_query w) fun found => ?_
  split_ifs
  · exact only_seq (only_removeAll w htemp) fun _ => only_pure _
  exact only_seq (only_copyOver w hents) fun _ =>
    only_seq (only_writeMetadata w (inside_join_iff.mpr hin)) fun _ =>
      only_seq (only_removeAll w htemp) fun _ => only_pure _

lemma only_updateTheme {native : List Char} {metadata : Except String (Option ThemeMetadata)}
    {entries : List Extracted} (h : (ThemeRequest.update native metadata entries).Stays themes) :
    Only (Within (ofText themes)) (updateTheme w native metadata entries) := by
  rcases metadata with e | (- | m)
  · exact only_pure _
  · exact only_pure _
  change Only _ (if m.owner = [] ∨ m.repo = [] then _ else _)
  split_ifs with hempty
  · exact only_pure _
  rw [not_or] at hempty
  obtain ⟨hin, harchive, hents⟩ := h m rfl hempty.1 hempty.2
  refine only_seq (only_rescue (only_resolveDownload w) fun e => only_pure _) fun data => ?_
  cases data with
  | none => exact only_pure _
  | some data =>
    exact only_rescue (only_finishUpdate w data hin harchive hents)
      fun e => only_cleanUp w data _

lemma InstalledTheme.below (theme : InstalledTheme) : (ofText themes).location.Below
      (ofText (joinText themes theme.native)).location := by
  rw [ofText_joinText, ofText_name theme.name.1 theme.name.2,
    join_name_location theme.proper]
  exact (Location.below_child_iff theme.proper).mpr (Location.inside_refl _)

lemma only_uninstallTheme (installed : Except String (List InstalledTheme))
    (repo owner : List Char) :
    Only (Within (ofText themes)) (uninstallTheme w installed repo owner) := by
  refine only_seq (only_makeFolder w) fun _ => only_seq (only_ask _) fun found => ?_
  split
  · exact only_pure _
  · refine only_seq (only_pathExists w) fun isThere => ?_
    split_ifs
    · exact only_pure _
    refine only_seq (only_removeDirectory w (InstalledTheme.below _)) fun removed => ?_
    split_ifs
    · exact only_pure _
    · exact only_pure _

end

section
variable {themes : List Char} {err : Option String}

def themeWorld (themes : List Char) (renameError : Option String) :
    World (ofText themes) :=
  smoothWorld (ofText themes) true renameError (['u'], [])

lemma returns_resolveDownload :
    Returns (resolveDownload (themeWorld themes err)) (some fun _ => 0) :=
  .then (returns_ask fun _ => rfl) (.then (returns_ask fun _ => rfl) (returns_pure _))

lemma returns_clearTarget {p : LexPath} :
    Returns (clearTarget (themeWorld themes err) p) true :=
  .then returns_pathExists returns_removeDirectory

lemma returns_beginInstall {repo owner : List Char} (hrepo : repo ≠ []) (howner : owner ≠ []) :
    Returns (beginInstall (themeWorld themes err) repo owner) (.inr fun _ => 0) := by
  rw [beginInstall, if_neg (not_or.mpr ⟨hrepo, howner⟩)]
  exact .then returns_pathExists (.then returns_clearTarget
    (.then returns_resolveDownload (returns_pure _)))

lemma does_installTheme {repo owner : List Char} (hrepo : repo ≠ []) (howner : owner ≠ [])
    {e : FileEffect}
    (h : Does (finishInstall (themeWorld themes err) repo fun _ => 0) e) :
    Does (installTheme (themeWorld themes err) repo owner) e :=
  .then (.rescue (returns_beginInstall hrepo howner)) (.rescue h)

lemma does_clearTarget {p : LexPath} :
    Does (clearTarget (themeWorld themes err) p) (.deleted p.location) :=
  .then returns_pathExists does_removeDirectory

lemma stays_of_install_confined {repo owner : List Char}
    (h : (ThemeRequest.install repo owner).Confined themes) :
    (ThemeRequest.install repo owner).Stays themes := by
  by_cases hrepo : repo = []
  · exact .inl hrepo
  by_cases howner : owner = []
  · exact .inr (.inl howner)
  refine .inr (.inr ⟨?_, ?_, ?_⟩)
  · have hdeleted : Does (installTheme (themeWorld themes none) repo owner)
        (.deleted (ofText (joinText themes repo)).location) := by
      refine .first (.rescue ?_)
      rw [beginInstall, if_neg (not_or.mpr ⟨hrepo, howner⟩)]
      exact .then returns_pathExists (.first does_clearTarget)
    have hbelow := h _ 0 _ (hdeleted 0)
    rw [ofText_joinText] at hbelow
    exact below_join_iff.mp hbelow
  · -- `rename` fails, and the directories are created for the copy
    refine @dirsStay_of_created _ true (some "") (['u'], []) _ fun e he => ?_
    rw [← ofText_joinText] at he
    have hcopy : Does (moveIntoPlace (themeWorld themes (some ""))
        (ofText (joinText themes repo))) e :=
      .then returns_rename (.first he)
    have hfinish : Does (finishInstall (themeWorld themes (some "")) repo fun _ => 0) e :=
      .then returns_makeDirectories (.then returns_download (.then returns_extractZip
        (.then returns_query (.first hcopy))))
    exact h _ 0 e (does_installTheme hrepo howner hfinish 0)
  · have hfinish : Does (finishInstall (themeWorld themes none) repo fun _ => 0)
        (.wrote ((tempDirectory themes fun _ => 0).join
          (ofText (repo ++ ".zip".toList))).location) :=
      .then returns_makeDirectories (.first does_download)
    exact (archive_below_iff _).mp (h _ 0 _ (does_installTheme hrepo howner hfinish 0))

lemma does_updateTheme {native : List Char} {m : ThemeMetadata} {entries : List Extracted}
    (howner : m.owner ≠ []) (hrepo : m.repo ≠ []) {e : FileEffect}
    (h : Does (finishUpdate (themeWorld themes none) native m.repo (fun _ => 0) entries) e) :
    Does (updateTheme (themeWorld themes none) native (.ok (some m)) entries) e := by
  rw [updateTheme, if_neg (not_or.mpr ⟨howner, hrepo⟩)]
  exact .then (.rescue returns_resolveDownload) (.rescue h)

lemma stays_of_update_confined {native : List Char}
    {metadata : Except String (Option ThemeMetadata)} {entries : List Extracted}
    (h : (ThemeRequest.update native metadata entries).Confined themes) :
    (ThemeRequest.update native metadata entries).Stays themes := by
  rintro m rfl howner hrepo
  have hconf {e : FileEffect}
      (he : Does (finishUpdate (themeWorld themes none) native m.repo (fun _ => 0) entries) e) :
      Within (ofText themes) e := h _ 0 e (does_updateTheme howner hrepo he 0)
  refine ⟨?_, ?_, ?_⟩
  · have hwrite : Does (finishUpdate (themeWorld themes none) native m.repo (fun _ => 0) entries)
        (.wrote ((ofText (joinText themes native)).join
          ⟨false, ["metadata.json".toList]⟩).location) :=
      .then returns_makeDirectories (.then returns_download (.then returns_extractZip
        (.then returns_query (.then returns_copyOver (.first (.first (does_act _)))))))
    have hin := metadata_below_iff.mp (hconf hwrite)
    rw [ofText_joinText] at hin
    exact inside_join_iff.mp hin
  · exact (archive_below_iff _).mp (hconf (.then returns_makeDirectories (.first does_download)))
  · refine @stays_of_copied _ true none (['u'], []) _ _ fun e he => hconf ?_
    rw [← ofText_joinText] at he
    exact .then returns_makeDirectories (.then returns_download (.then returns_extractZip
      (.then returns_query (.first he))))

end

/-- A request is confined to the themes folder exactly when the names it brings stay there. -/
theorem theme_request_confined_iff (themes : List Char) (request : ThemeRequest) :
    request.Confined themes ↔ request.Stays themes := by
  cases request with
  | install => exact ⟨stays_of_install_confined, fun h w => only_installTheme w h⟩
  | update =>
    exact ⟨stays_of_update_confined, fun h w => only_updateTheme w h⟩
  | uninstall installed repo owner =>
    exact ⟨fun _ => trivial, fun _ w => only_uninstallTheme w installed repo owner⟩

/-- Installing a repository `..` deletes the directory that holds the themes folder. -/
theorem parentRepo_not_confined :
    ¬ (ThemeRequest.install "..".toList "o".toList).Confined "/m/themes".toList := by
  intro hconf
  have hdeleted := hconf (themeWorld _ none) 0 (.deleted ⟨true, ["m".toList]⟩) (by decide)
  obtain ⟨-, q, hq, -⟩ := hdeleted
  have hsuffix : ["themes".toList, "m".toList] <:+ ["m".toList] := ⟨q, hq.symm⟩
  exact absurd hsuffix (by decide)

end Millennium.Bindings
