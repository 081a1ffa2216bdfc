import Millennium.Engine.ThemeUrl

/-!
# Files behind loopback URLs

The path of `https://steamloopback.host/…` is taken apart as `Path::components` of Rust does it, and
put together below `steamui` from its normal components only; any other component makes the URL one
without a file.
-/

namespace Millennium.Loopback

open LexicalPath List Option
open Engine (splitFirst cutQuery)

/-- `std::path::Component`, without the prefixes that only Windows has. -/
inductive Component where
  | rootDir
  | curDir
  | parentDir
  | normal (part : Name)
  deriving Repr, DecidableEq

def parseComponent (piece : Name) : Option Component :=
  if piece = dot then none
  else if piece = dotdot then some .parentDir
  else some (.normal piece)

def startComponent (path : List Char) : List Component :=
  if path.head? = some '/' then [.rootDir]
  else if path.takeWhile (· ≠ '/') = dot then [.curDir]
  else []

def components (path : List Char) : List Component :=
  startComponent path ++ (splitSlash path []).filterMap parseComponent

def pushNormal (sanitized : List Char) : Component → Option (List Char)
  | .normal part => some (joinText sanitized part)
  | _ => none

def fromSlash (text : List Char) : Option (List Char) :=
  match text.dropWhile (· ≠ '/') with
  | [] => none
  | c :: path => some (c :: path)

def loopbackHost : List Char := "steamloopback.host".toList

def steamInstallPath (home : Option (List Char)) : List Char :=
  joinText (home.getD "/home".toList) ".steam/steam".toList

def steamuiFolder (installPath : List Char) : List Char := joinText installPath "steamui".toList

def localPathFromLbUrl (installPath url : List Char) : Option (List Char) := do
  let (_, afterHost) ← splitFirst loopbackHost url
  let path ← fromSlash (loopbackHost ++ afterHost)
  let rel := (cutQuery path).dropWhile (· = '/')
  if rel = [] then none
  else
    let sanitized ← (components rel).foldlM pushNormal []
    some (joinText (steamuiFolder installPath) sanitized)

def EntryName (c : Name) : Prop := c ≠ [] ∧ Proper c ∧ '/' ∉ c

def below (names : List Name) : List Char := names.flatMap fun c => '/' :: c

/-- The path is the directory followed by at least one name. -/
def Confined (folder path : List Char) : Prop :=
  ∃ names, names ≠ [] ∧ path = folder ++ below names ∧ ∀ c ∈ names, EntryName c

lemma mem_splitSlash {c : Name} {s : List Char} {cur : Name} (hcur : '/' ∉ cur)
    (h : c ∈ splitSlash s cur) : c ≠ [] ∧ '/' ∉ c := by
  have hpiece {cur : Name} (hcur : '/' ∉ cur)
      (h : c ∈ if cur = [] then [] else [cur.reverse]) : c ≠ [] ∧ '/' ∉ c := by
    split_ifs at h with hnil
    · cases h
    · rw [mem_singleton.mp h]
      exact ⟨by simpa using hnil, by simpa using hcur⟩
  induction s generalizing cur with
  | nil => exact hpiece hcur h
  | cons a rest ih =>
    rw [splitSlash] at h
    by_cases ha : a = '/'
    · rw [if_pos ha] at h
      rcases mem_append.mp h with h | h
      · exact hpiece hcur h
      · exact ih not_mem_nil h
    · rw [if_neg ha] at h
      refine ih ?_ h
      rw [mem_cons, not_or]
      exact ⟨Ne.symm ha, hcur⟩

lemma parseComponent_eq_normal {piece part : Name}
    (h : parseComponent piece = some (.normal part)) : part = piece ∧ Proper piece := by
  unfold parseComponent at h
  split_ifs at h with hdot hdotdot
  · cases h
  · rw [some.injEq, Component.normal.injEq] at h
    exact ⟨h.symm, hdot, hdotdot⟩

lemma normal_mem_components {part : Name} {path : List Char}
    (h : .normal part ∈ components path) : EntryName part := by
  rcases mem_append.mp h with h | h
  · unfold startComponent at h
    split_ifs at h
    all_goals simp at h
  · obtain ⟨piece, hpiece, heq⟩ := mem_filterMap.mp h
    obtain ⟨rfl, hproper⟩ := parseComponent_eq_normal heq
    obtain ⟨hne, hslash⟩ := mem_splitSlash not_mem_nil hpiece
    exact ⟨hne, hproper, hslash⟩

lemma components_ne_nil {path : List Char} (hne : path ≠ []) (hhead : path.head? ≠ some '/') :
    components path ≠ [] := by
  intro hnil
  obtain ⟨hstart, hrest⟩ := append_eq_nil_iff.mp hnil
  -- the first piece of the path
  have hpath := takeWhile_append_dropWhile (p := fun c => decide (c ≠ '/')) (l := path)
  set first := path.takeWhile (· ≠ '/') with hfirst
  have hslash : '/' ∉ first := by
    intro hmem
    have hne := all_takeWhile (p := fun c => decide (c ≠ '/')) (l := path)
    simpa using all_eq_true.mp hne _ hmem
  have hfirst_ne : first ≠ [] := by
    intro h
    cases path with
    | nil => exact hne rfl
    | cons c rest =>
      have hc : c ≠ '/' := fun hc => hhead (by rw [hc]; rfl)
      rw [hfirst, takeWhile_cons_of_pos (by simpa using hc)] at h
      cases h
  have hdot : first ≠ dot := by
    intro hdot
    rw [startComponent, if_neg hhead, if_pos hdot] at hstart
    cases hstart
  have hmem : first ∈ splitSlash path [] := by
    rw [← hpath]
    cases hdrop : path.dropWhile (fun c => decide (c ≠ '/')) with
    | nil =>
      rw [append_nil, splitSlash_of_not_mem hslash hfirst_ne]
      exact mem_singleton.mpr rfl
    | cons c rest =>
      have hc : c = '/' := by
        have hfalse := head?_dropWhile_not (fun c => decide (c ≠ '/')) path
        rw [hdrop] at hfalse
        simpa using hfalse
      rw [hc, splitSlash_append, splitSlash_of_not_mem hslash hfirst_ne]
      exact mem_append_left _ (mem_singleton.mpr rfl)
  have hnone := filterMap_eq_nil_iff.mp hrest first hmem
  unfold parseComponent at hnone
  rw [if_neg hdot] at hnone
  split_ifs at hnone

lemma joinText_name {c : Name} (hc : EntryName c) {a : List Char} (ha : a.getLast? ≠ some '/') :
    joinText a c = if a = [] then c else a ++ '/' :: c := by
  have hrel : c.head? ≠ some '/' := fun h => hc.2.2 (mem_of_mem_head? h)
  unfold joinText
  rw [if_neg hrel]
  by_cases hnil : a = []
  · rw [if_pos (.inl hnil), if_pos hnil, hnil, nil_append]
  · rw [if_neg (by rintro (h | h); exacts [hnil h, ha h]), if_neg hnil]

lemma getLast?_append_name {c : Name} (hc : EntryName c) (a : List Char) :
    (a ++ c).getLast? ≠ some '/' := by
  rw [getLast?_append_of_ne_nil _ hc.1]
  exact fun h => hc.2.2 (mem_of_getLast? h)

lemma foldlM_pushNormal {cs : List Component} {acc out : List Char}
    (hcs : ∀ part, .normal part ∈ cs → EntryName part) (hacc : acc ≠ [])
    (hlast : acc.getLast? ≠ some '/') (h : cs.foldlM pushNormal acc = some out) :
    ∃ names, out = acc ++ below names ∧ ∀ c ∈ names, EntryName c := by
  induction cs generalizing acc with
  | nil =>
    cases h
    exact ⟨[], by simp [below], by simp⟩
  | cons component rest ih =>
    obtain ⟨next, hnext, h⟩ := bind_eq_some_iff.mp h
    cases component with
    | rootDir | curDir | parentDir => cases hnext
    | normal part =>
      have hpart := hcs part mem_cons_self
      have hjoin : next = acc ++ '/' :: part := by
        rw [← some.inj hnext, joinText_name hpart hlast, if_neg hacc]
      subst hjoin
      have hend := getLast?_append_name hpart (acc ++ ['/'])
      rw [append_assoc] at hend
      obtain ⟨names, rfl, hnames⟩ := ih (fun part' hmem => hcs part' (mem_cons_of_mem _ hmem))
        (by simp) hend h
      refine ⟨part :: names, by simp [below], ?_⟩
      rw [forall_mem_cons]
      exact ⟨hpart, hnames⟩

lemma sanitized_eq {rel out : List Char} (hne : rel ≠ []) (hhead : rel.head? ≠ some '/')
    (h : (components rel).foldlM pushNormal [] = some out) :
    ∃ first names, out = first ++ below names ∧ EntryName first ∧ ∀ c ∈ names, EntryName c := by
  have hcs : ∀ part, .normal part ∈ components rel → EntryName part :=
    fun part => normal_mem_components
  obtain ⟨component, rest, hcons⟩ := exists_cons_of_ne_nil (components_ne_nil hne hhead)
  rw [hcons] at hcs h
  obtain ⟨next, hnext, hrest⟩ := bind_eq_some_iff.mp h
  cases component with
  | rootDir | curDir | parentDir => cases hnext
  | normal part =>
    have hpart := hcs part mem_cons_self
    have hjoin : next = part := by
      rw [← some.inj hnext, joinText_name hpart (by simp), if_pos rfl]
    subst hjoin
    obtain ⟨names, rfl, hnames⟩ := foldlM_pushNormal
      (fun part' hmem => hcs part' (mem_cons_of_mem _ hmem)) hpart.1
      (getLast?_append_name hpart []) hrest
    exact ⟨next, names, rfl, hpart, hnames⟩

lemma steamuiFolder_end (path : List Char) :
    steamuiFolder path ≠ [] ∧ (steamuiFolder path).getLast? ≠ some '/' := by
  unfold steamuiFolder joinText
  split_ifs
  all_goals simp

lemma joinText_steamui {first : Name} (hfirst : EntryName first) (path : List Char)
    (names : List Name) :
    joinText (steamuiFolder path) (first ++ below names) =
    steamuiFolder path ++ below (first :: names) := by
  obtain ⟨hne, hlast⟩ := steamuiFolder_end path
  have hrel : (first ++ below names).head? ≠ some '/' := by
    rw [head?_append_of_ne_nil _ hfirst.1]
    exact fun h => hfirst.2.2 (mem_of_mem_head? h)
  unfold joinText
  rw [if_neg hrel, if_neg (by rintro (h | h); exacts [hne h, hlast h])]
  simp [below]

/-- The path of every loopback URL that has one is `steamui` followed by the names of
entries, so that no URL leads out of the folder. -/
theorem localPathFromLbUrl_confined (installPath url path : List Char)
    (h : localPathFromLbUrl installPath url = some path) :
    Confined (steamuiFolder installPath) path := by
  obtain ⟨found, -, h⟩ := bind_eq_some_iff.mp h
  obtain ⟨slashed, -, h⟩ := bind_eq_some_iff.mp h
  dsimp only at h
  split_ifs at h with hne
  obtain ⟨sanitized, hfold, h⟩ := bind_eq_some_iff.mp h
  have hhead : ((cutQuery slashed).dropWhile (· = '/')).head? ≠ some '/' := by
    intro hslash
    have hnot := head?_dropWhile_not (fun c => decide (c = '/')) (cutQuery slashed)
    rw [hslash] at hnot
    simp at hnot
  obtain ⟨first, names, rfl, hfirst, hnames⟩ := sanitized_eq hne hhead hfold
  refine ⟨first :: names, cons_ne_nil _ _, ?_, forall_mem_cons.mpr ⟨hfirst, hnames⟩⟩
  rw [← some.inj h, joinText_steamui hfirst]

/-- Empty pieces, a dot between slashes and a query are dropped on the way. -/
theorem skinCss_confined : Confined (steamuiFolder (steamInstallPath (some "/h".toList)))
      "/h/.steam/steam/steamui/css/skin.css".toList :=
  localPathFromLbUrl_confined _ "https://steamloopback.host//css/.//skin.css?v=1".toList _
    (by decide)

end Millennium.Loopback
