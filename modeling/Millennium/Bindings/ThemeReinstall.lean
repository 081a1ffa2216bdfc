import Millennium.Bindings.FileOps
import Millennium.Lib.StateExcept
import Millennium.Util.Archive

/-!
# Installing over an installed theme

`install_theme` removes the theme of the same name before it asks for the new one. The disk is what
`themes/repo` holds, for a `repo` that names an entry of the themes folder. How each operation ends
is given, with what it may leave there.
-/

namespace Millennium.Bindings

open LexicalPath StateExcept Util EStateM.Result

/-- How `remove_all` of the theme ends: it is gone, or something is left. -/
inductive Removal (C : Type) where
  | done
  | failed (message : String) (left : Option C)
  deriving Repr, DecidableEq

/-- How everything ends that an installation may come to. An error is a text. -/
structure InstallOutcomes (C : Type) where
  parentThere : Except String Bool
  targetProbe : Except String Unit
  removeProbe : Except String Unit
  firstRemoval : Removal C
  makeWritable : Except String Unit
  secondRemoval : Removal C
  response : Except String (List Char × List Char)
  createTemp : Except String Unit
  download : Except String Unit
  extraction : Except String Bool
  extractedFolder : Except String (Option C)
  renamed : Except String Unit
  createTarget : Except String Unit
  emptyDirectory : C
  copied : Except String Unit
  copy : C
  writeMetadata : Except String Bool
  /-- What the theme is with its metadata written, or half written. -/
  withMetadata : C
  removeTemp : Except String Unit
  cleanupProbe : Except String Unit
  cleanupRemoval : Removal C
  /-- Everything behind the metadata: temporary directory, configuration, last message. -/
  finish : Except String Unit
  /-- Looking for the temporary directory in the handler, and removing it. -/
  handler : Except String Unit

/-- A computation on what `themes/repo` holds that may throw; what was done stays done. -/
abbrev OnTheme (C : Type) := EStateM String (Option C)

section
variable {C : Type} (o : InstallOutcomes C)

def themeExists (probe : Except String Unit) : OnTheme C Bool := do
  lift probe
  return (← get).isSome

def removeTheme : Removal C → OnTheme C (Option String)
  | .done => do
      set (none : Option C)
      return none
  | .failed message left => do
      set left
      return some message

def removeThemeDirectory : OnTheme C Bool := do
  if !(← themeExists o.removeProbe) then return true
  if (← removeTheme o.firstRemoval).isNone then return true
  lift o.makeWritable
  return (← removeTheme o.secondRemoval).isNone

/-- Renaming the extracted folder, and copying it where that fails: the error of the copy. -/
def placeTheme (extracted : C) : OnTheme C (Option String) := do
  match o.renamed with
  | .ok _ =>
    set (some extracted)
    return none
  | .error _ =>
    lift o.createTarget
    modify fun theme => some (theme.getD o.emptyDirectory)
    set (some o.copy)
    match o.copied with
    | .ok _ => return none
    | .error ec => return some ec

def abandonTheme (message : String) : OnTheme C Response := do
  lift o.removeTemp
  if ← themeExists o.cleanupProbe then
    match ← removeTheme o.cleanupRemoval with
    | none => pure ()
    | some e => throw e
  return .error message

def settleTheme (extracted : C) : OnTheme C Response := do
  match ← placeTheme o extracted with
  | some ec => abandonTheme o ("Failed to install theme (copy failed): " ++ ec)
  | none =>
    set (some o.withMetadata)
    if !(← lift o.writeMetadata) then
      abandonTheme o "Failed to write metadata after theme install"
    else
      lift o.finish
      return .success

/-- `install_theme` up to the extracted folder: an error response, or the folder. -/
def downloadTheme : Except String (Response ⊕ C) := do
  let (downloadUrl, _) ← o.response
  if downloadUrl = [] then return .inl (.error "Failed to resolve download URL for theme")
  o.createTemp
  o.download
  if !(← o.extraction) then
    o.removeTemp
    return .inl (.error "Failed to extract theme archive")
  match ← o.extractedFolder with
  | none =>
    o.removeTemp
    return .inl (.error "No directory found in extracted theme archive")
  | some extracted => return .inr extracted

def clearTheme (finalPath : List Char) : OnTheme C (Option Response) := do
  if ← themeExists o.targetProbe then
    if !(← removeThemeDirectory o) then
      return some (.error ("Failed to remove existing target path: " ++ String.ofList finalPath))
  return none

def replaceTheme (finalPath : List Char) : OnTheme C Response := do
  match ← clearTheme o finalPath with
  | some response => return response
  | none =>
    match ← lift (downloadTheme o) with
    | .inl response => return response
    | .inr extracted => settleTheme o extracted

def installBody (themes repo owner : List Char) : OnTheme C Response := do
  if repo = [] ∨ owner = [] then return .error "Repository name and owner cannot be empty"
  let finalPath := joinText themes repo
  if !(← lift o.parentThere) then
    return .error ("Themes root directory does not exist: " ++ String.ofList (parentPath finalPath))
  replaceTheme o finalPath

/-- `install_theme`: the response, or an exception out of the handler, and the theme then. -/
def installOverTheme (themes repo owner : List Char) : OnTheme C Response :=
  tryCatch (installBody o themes repo owner) fun e => do
    lift o.handler
    return .error ("Failed to install theme: " ++ e)

end

section
variable {C : Type} (o : InstallOutcomes C)

def FailureKeepsTheme (themes repo owner : List Char) (theme : Option C) : Prop :=
  ∀ message after, installOverTheme o themes repo owner theme = .ok (.error message) after →
    after = theme

def InstallOutcomes.Accepted (repo owner : List Char) : Prop :=
  repo ≠ [] ∧ owner ≠ [] ∧ o.parentThere = .ok true

/-- A part of the `try` block ends in an error response, by itself or by an exception. -/
def InstallOutcomes.Fails {α : Type} (response : α → Option Response)
    (result : EStateM.Result String (Option C) α) (left : Option C) : Prop :=
  (∃ a message, result = .ok a left ∧ response a = some (.error message)) ∨
    ((∃ e, result = .error e left) ∧ o.handler = .ok ())

def InstallOutcomes.DownloadFails : Prop :=
  (∃ message, downloadTheme o = .ok (.inl (.error message))) ∨
    ((∃ e, downloadTheme o = .error e) ∧ o.handler = .ok ())

/-- A failure leaves what was there, which was nothing if it comes before the new theme. -/
structure InstallOutcomes.Keeps (finalPath : List Char) (theme : Option C) : Prop where
  clearing : ∀ left, o.Fails id (clearTheme o finalPath theme) left → left = theme
  downloading : clearTheme o finalPath theme = .ok none none → o.DownloadFails → theme = none
  settling : clearTheme o finalPath theme = .ok none none → ∀ extracted,
    downloadTheme o = .ok (.inr extracted) →
    ∀ left, o.Fails some (settleTheme o extracted none) left → left = theme

end

section
variable {C : Type} {o : InstallOutcomes C} {theme : Option C}

lemma themeExists_eq_ok {probe : Except String Unit} {there : Bool} {s : Option C}
    (h : themeExists probe theme = .ok there s) : s = theme ∧ there = theme.isSome := by
  obtain ⟨⟨⟩, s₁, hprobe, hget⟩ := bind_eq_ok h
  obtain ⟨-, rfl⟩ := lift_eq_ok hprobe
  cases hget
  exact ⟨rfl, rfl⟩

lemma removeTheme_isNone {removal : Removal C} {error : Option String} {s : Option C}
    (h : removeTheme removal theme = .ok error s) (hnone : error.isNone = true) : s = none := by
  cases removal with
  | done =>
    cases h
    rfl
  | failed =>
    cases h
    cases hnone

variable {left : Option C} {themes repo owner : List Char}

lemma removeThemeDirectory_true (h : removeThemeDirectory o theme = .ok true left) :
    left = none := by
  obtain ⟨there, s, hexists, h⟩ := bind_eq_ok h
  obtain ⟨rfl, rfl⟩ := themeExists_eq_ok hexists
  cases s with
  | none =>
    cases h
    rfl
  | some =>
    obtain ⟨error, s₁, hfirst, h⟩ := bind_eq_ok h
    cases error with
    | none =>
      cases h
      exact removeTheme_isNone hfirst rfl
    | some =>
      obtain ⟨⟨⟩, s₂, -, h⟩ := bind_eq_ok h
      obtain ⟨error', s₃, hsecond, h⟩ := bind_eq_ok h
      obtain ⟨hnone, rfl⟩ := ok.inj h
      exact removeTheme_isNone hsecond hnone

lemma clearTheme_none {path : List Char} (h : clearTheme o path theme = .ok none left) :
    left = none := by
  obtain ⟨there, s, hexists, h⟩ := bind_eq_ok h
  obtain ⟨rfl, rfl⟩ := themeExists_eq_ok hexists
  cases s with
  | none =>
    cases h
    rfl
  | some =>
    obtain ⟨removed, s₁, hremove, h⟩ := bind_eq_ok h
    cases removed with
    | false => cases h
    | true =>
      cases h
      exact removeThemeDirectory_true hremove

lemma replaceTheme_run (path : List Char) : replaceTheme o path theme =
      match clearTheme o path theme with
      | .error e left => .error e left
      | .ok (some response) left => .ok response left
      | .ok none left =>
        match downloadTheme o with
        | .error e => .error e left
        | .ok (.inl response) => .ok response left
        | .ok (.inr extracted) => settleTheme o extracted left := by
  unfold replaceTheme
  rw [bind_run]
  cases clearTheme o path theme with
  | error => rfl
  | ok response =>
    cases response with
    | some => rfl
    | none =>
      dsimp only
      cases downloadTheme o with
      | error => rfl
      | ok found => cases found <;> rfl

lemma installBody_accepted (h : o.Accepted repo owner) :
    installBody o themes repo owner theme = replaceTheme o (joinText themes repo) theme := by
  obtain ⟨hrepo, howner, hpar⟩ := h
  unfold installBody
  rw [if_neg (by rintro (h | h); exacts [hrepo h, howner h]), hpar]
  rfl

lemma installBody_refused (h : ¬ o.Accepted repo owner) :
    (∃ response, installBody o themes repo owner theme = .ok response theme) ∨
    ∃ e, installBody o themes repo owner theme = .error e theme := by
  unfold installBody
  by_cases hnames : repo = [] ∨ owner = []
  · rw [if_pos hnames]
    exact .inl ⟨_, rfl⟩
  · rw [if_neg hnames]
    cases hpar : o.parentThere with
    | error e => exact .inr ⟨e, rfl⟩
    | ok there =>
      cases there with
      | false => exact .inl ⟨_, rfl⟩
      | true => exact absurd ⟨fun h => hnames (.inl h), fun h => hnames (.inr h), hpar⟩ h

lemma installOverTheme_run (themes repo owner : List Char) :
    installOverTheme o themes repo owner theme =
      match installBody o themes repo owner theme with
      | .ok response s => .ok response s
      | .error e s =>
        match o.handler with
        | .ok _ => .ok (.error ("Failed to install theme: " ++ e)) s
        | .error e' => .error e' s := by
  unfold installOverTheme
  rw [tryCatch_run]
  cases installBody o themes repo owner theme with
  | ok => rfl
  | error => cases o.handler <;> rfl

lemma installOverTheme_error_iff {after : Option C} :
    (∃ message, installOverTheme o themes repo owner theme = .ok (.error message) after) ↔
    o.Fails some (installBody o themes repo owner theme) after := by
  rw [installOverTheme_run]
  unfold InstallOutcomes.Fails
  cases installBody o themes repo owner theme with
  | ok => simp [and_comm]
  | error =>
    cases o.handler with
    | ok => simp
    | error => simp

lemma replaceTheme_fails_iff {path : List Char} :
    o.Fails some (replaceTheme o path theme) left ↔
    o.Fails id (clearTheme o path theme) left ∨
    (clearTheme o path theme = .ok none none ∧ (o.DownloadFails ∧ left = none ∨
    ∃ extracted, downloadTheme o = .ok (.inr extracted) ∧
    o.Fails some (settleTheme o extracted none) left)) := by
  rw [replaceTheme_run]
  cases hclear : clearTheme o path theme with
  | error => simp [InstallOutcomes.Fails]
  | ok response =>
    cases response with
    | some => simp [InstallOutcomes.Fails]
    | none =>
      obtain rfl := clearTheme_none hclear
      cases hdownload : downloadTheme o with
      | error => simp [InstallOutcomes.Fails, InstallOutcomes.DownloadFails, hdownload, and_comm, eq_comm]
      | ok found =>
        cases found with
        | inl => simp [InstallOutcomes.Fails, InstallOutcomes.DownloadFails, hdownload, and_comm, eq_comm]
        | inr => simp [InstallOutcomes.Fails, InstallOutcomes.DownloadFails, hdownload]

end

def unreachableServer : InstallOutcomes Nat where
  parentThere := .ok true
  targetProbe := .ok ()
  removeProbe := .ok ()
  firstRemoval := .done
  makeWritable := .ok ()
  secondRemoval := .done
  response := .error "Couldn't connect to server"
  createTemp := .ok ()
  download := .ok ()
  extraction := .ok true
  extractedFolder := .ok (some 2)
  renamed := .ok ()
  createTarget := .ok ()
  emptyDirectory := 0
  copied := .ok ()
  copy := 2
  writeMetadata := .ok true
  withMetadata := 3
  removeTemp := .ok ()
  cleanupProbe := .ok ()
  cleanupRemoval := .done
  finish := .ok ()
  handler := .ok ()

end Millennium.Bindings
