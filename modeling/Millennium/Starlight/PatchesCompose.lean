import Millennium.Lib.Edits
import Millennium.Starlight.InjectsEverywhere

/-!
# Patches of one walk

Where the nodes are in the source as a parser leaves them, the patches of a walk have no octet in
common, and applying them from the end of the source on is the same as applying all at once.
-/

namespace Millennium.Starlight.Js

open Bytes TreeWalk Edits List Patch Bool

structure Place where
  slot : Slot
  shape : Shape
  span : Span

namespace Place

def Inside (span : Span) (place : Place) : Prop :=
  span.start ≤ place.span.start ∧ place.span.stop ≤ span.stop

/-- Two children share no octet, unless one is a name, which may stand for its value. -/
def Apart (a b : Place) : Prop :=
  a.shape = .name ∨ b.shape = .name ∨ a.span.stop ≤ b.span.start ∨ b.span.stop ≤ a.span.start

/-- What the shape of a node says of its span and of the places of its children. -/
def Fits (shape : Shape) (span : Span) (places : List Place) : Prop :=
  match shape with
  | .call callee paren =>
    -- the arguments are between the two parentheses
    span.start ≤ callee.start ∧ callee.start ≤ callee.stop ∧ paren + 1 < span.stop ∧
      (∀ place ∈ places, place.slot = .callee → place.span = callee) ∧
      ∀ place ∈ places, place.slot = .argument → paren + 1 ≤ place.span.start
  | .staticMember member _ => span = member ∧ member.start < member.stop ∧ places.length = 1
  | _ => True

end Place

mutual
inductive Placed (source : Octets) : Node → Span → Prop
  | node {shape : Shape} {children : Nodes} {span : Span} {places : List Place}
      (hlaid : laid source (.node shape children) = true) (hfits : Place.Fits shape span places)
      (hinside : ∀ place ∈ places, place.Inside span) (hapart : places.Pairwise Place.Apart)
      (hplaces : PlacedIn source children places) : Placed source (.node shape children) span

inductive PlacedIn (source : Octets) : Nodes → List Place → Prop
  | nil : PlacedIn source .nil []
  | cons {slot : Slot} {child : Node} {rest : Nodes} {span : Span} {places : List Place}
      (hchild : Placed source child span) (hrest : PlacedIn source rest places) :
      PlacedIn source (.cons slot child rest) (⟨slot, child.shape, span⟩ :: places)
end

structure PlacedProgram extends Program where
  placed : Placed source (root body) ⟨0, source.length⟩

example : Placed (Utf8.encode "millennium.ffi(millennium.pluginSelf)".toList)
    (.node (.call ⟨0, 14⟩ 14) (.cons .callee (.node (.staticMember ⟨0, 14⟩ "ffi".toList)
        (.cons .object (.node (.identifier "millennium".toList) .nil) .nil))
      (.cons .argument (.node (.staticMember ⟨15, 36⟩ "pluginSelf".toList)
        (.cons .object (.node (.identifier "millennium".toList) .nil) .nil)) .nil))) ⟨0, 37⟩ := by
  have hmember : ∀ object member property name source, member.start < member.stop →
      (⟨.object, .identifier name, object⟩ : Place).Inside member →
        Placed source (.node (.staticMember member property)
          (.cons .object (.node (.identifier name) .nil) .nil)) member :=
    fun _ _ _ _ _ hlt hinside => .node rfl ⟨rfl, hlt, rfl⟩
      (forall_mem_singleton.mpr hinside) (pairwise_singleton _ _)
      (.cons (.node rfl trivial (by simp) .nil .nil) .nil)
  have hcallee := (hmember ⟨0, 10⟩ ⟨0, 14⟩ "ffi".toList "millennium".toList · (by decide)
    ⟨by decide, by decide⟩)
  have hargument := (hmember ⟨15, 25⟩ ⟨15, 36⟩ "pluginSelf".toList "millennium".toList ·
    (by decide) ⟨by decide, by decide⟩)
  exact .node (by decide) (by simp [Place.Fits]) (by simp [Place.Inside]) (by simp [Place.Apart])
    (.cons (hcallee _) (.cons (hargument _) .nil))

def Patch.edit (patch : Patch) : Edit UInt8 := ⟨patch.start, patch.stop, patch.text⟩

/-- A patch in a span. An insertion is not at an end of it. -/
def Patch.Inside (span : Span) (patch : Patch) : Prop :=
  span.start ≤ patch.start ∧ patch.stop ≤ span.stop ∧
    (patch.start < patch.stop ∨
      patch.start = patch.stop ∧ span.start < patch.start ∧ patch.stop < span.stop)

/-- The patches share no octet and insert nothing twice at a place, and applying them makes them all
at once. -/
structure Compose (source : Octets) (patches : List Patch) : Prop where
  inRange : ∀ patch ∈ patches, InRange source patch.edit
  apart : (patches.map edit).Pairwise Edits.Apart
  applied : applyPatchesInner source patches = substitute (patches.map edit) source
  kept : (Edits.kept (patches.map edit) source).Sublist (applyPatchesInner source patches)

/-- No two arguments are for one function, and what is renamed is no member of the console. -/
structure Ctx.Regular (ctx : Ctx) : Prop where
  paths : (ctx.injectArgs.map InjectArg.path).Nodup
  renames : ∀ spec ∈ ctx.renames, ∃ ns name, spec.path = [ns, name] ∧ ns ≠ "console".toList

lemma regular_ctx (target : BundleTarget) (source : Octets)
    (sourceMap : Option (Nat → Nat → Option MapToken)) :
    (target.ctx source sourceMap).Regular := by
  have hpaths : ((injectArgsForNs "millennium".toList).map InjectArg.path).Nodup := by decide
  have hself : ∀ spec, spec = pluginSelf → ∃ ns name, spec.path = [ns, name] ∧
      ns ≠ "console".toList := by
    rintro spec rfl
    exact ⟨_, _, rfl, by decide⟩
  cases target with
  | frontend =>
    refine ⟨hpaths, fun spec hspec => hself spec ?_⟩
    simpa [BundleTarget.ctx, frontendRenames] using hspec
  | webkit =>
    refine ⟨hpaths, fun spec hspec => hself spec ?_⟩
    simpa [BundleTarget.ctx, webkitRenames] using hspec

section
variable {ctx : Ctx} {source : Octets}

variable {w : Walker} {shape : Shape}

lemma walkIn_of_enter_none (h : ∀ slot, w.enter shape slot = none) (f : Nodes) :
    walkIn ctx.walkers w shape f = [] := by
  match f with
  | .nil => rw [walkIn]
  | .cons slot child rest =>
    have hslot : ctx.walkers.enter w shape slot = none := h slot
    rw [walkIn, hslot, walkIn_of_enter_none h rest]
    rfl

lemma enter_identifier (w : Walker) (name : Name) (slot : Slot) :
    w.enter (.identifier name) slot = none := by
  cases w <;> rfl

lemma enter_name (w : Walker) (slot : Slot) : w.enter .name slot = none := by
  cases w <;> rfl

lemma enter_call {fn : Span} {paren : Nat} {slot : Slot}
    (h : (w.enter (.call fn paren) slot).isSome = true) :
    slot = .callee ∨ slot = .argument := by
  cases w <;> cases slot <;> simp_all [Walker.enter, walkProgram, walkStmt, walkExpr, walkCallee,
    walkArg, walkChainElem, walkPropertyKey, walkArrayElem, walkProperty, walkClassElement,
    walkForInit]

lemma walk_identifier {name : Name} {t : Node} (h : isIdentifier name t = true) (w : Walker) :
    walk ctx.walkers w t = [] := by
  match t with
  | .node shape kids =>
    obtain rfl : shape = .identifier name := by simpa [isIdentifier, Tree.shape] using h
    rw [walk, walkIn_of_enter_none (enter_identifier w name)]
    simp [Ctx.walkers, Ctx.handle]

lemma walk_name {t : Node} (h : t.shape = .name) (w : Walker) : walk ctx.walkers w t = [] := by
  match t with
  | .node shape kids =>
    obtain rfl : shape = .name := h
    rw [walk, walkIn_of_enter_none (enter_name w)]
    simp [Ctx.walkers, Ctx.handle]

lemma mem_walkIn_cons {slot : Slot} {inner : Node} {rest : Nodes} {patch : Patch} :
    patch ∈ walkIn ctx.walkers w shape (.cons slot inner rest) ↔
    (∃ w', w.enter shape slot = some w' ∧ patch ∈ walk ctx.walkers w' inner) ∨
    patch ∈ walkIn ctx.walkers w shape rest := by
  have henter : ctx.walkers.enter w shape slot = w.enter shape slot := rfl
  rw [walkIn, henter]
  cases w.enter shape slot with
  | none => simp
  | some => simp

lemma walkIn_object {kids : Nodes} {places : List Place} {name : Name}
    (hplaces : PlacedIn source kids places) (hone : places.length = 1)
    (h : isIdentifier name (child .object kids) = true) :
    walkIn ctx.walkers w shape kids = [] := by
  cases hplaces with
  | nil => simp at hone
  | @cons slot inner rest span places hchild hrest =>
    cases hrest with
    | cons => simp at hone
    | nil =>
      by_cases hslot : slot = .object
      · have hinner : isIdentifier name inner = true := by
          simpa [child, Forest.at?, hslot] using h
        rw [walkIn, walkIn]
        cases ctx.walkers.enter w shape slot with
        | none => rfl
        | some => simp [walk_identifier hinner]
      · simp [child, Forest.at?, hslot, isIdentifier, Tree.shape] at h

end

lemma Patch.Inside.mono {inner outer : Span} {patch : Patch} (h : patch.Inside inner)
    (hstart : outer.start ≤ inner.start) (hstop : inner.stop ≤ outer.stop) :
    patch.Inside outer := by
  unfold Patch.Inside at *
  omega

section
variable {ctx : Ctx} {source : Octets}

variable {slot : Slot} {t : Node} {kids : Nodes} {methods : List Name} {level : Name}
  {member span : Span}

lemma PlacedIn.at? {f : Nodes} {places : List Place} (hplaces : PlacedIn source f places)
    (h : f.at? slot = some t) :
    ∃ place ∈ places, place.slot = slot ∧ place.shape = t.shape ∧
    Placed source t place.span := by
  cases hplaces with
  | nil => simp [Forest.at?] at h
  | cons hchild hrest =>
    rw [Forest.at?] at h
    split_ifs at h with hslot
    · cases h
      exact ⟨_, mem_cons_self, hslot, rfl, hchild⟩
    · obtain ⟨place, hmem, hplace⟩ := hrest.at? h
      exact ⟨place, mem_cons_of_mem _ hmem, hplace⟩

def Span.Within (inner outer : Span) : Prop :=
  outer.start ≤ inner.start ∧ inner.start < inner.stop ∧ inner.stop ≤ outer.stop

lemma at?_of_child {found : Name × Span}
    (h : consoleMember methods (child slot kids) = some found) :
    kids.at? slot = some (child slot kids) := by
  rw [child] at h ⊢
  cases hat : kids.at? slot with
  | none => simp [hat, consoleMember] at h
  | some => rfl

lemma consoleMember_within (hplaced : Placed source t span)
    (h : consoleMember methods t = some (level, member)) :
    member.Within span := by
  obtain ⟨-, kids, rfl⟩ := consoleMember_eq_some h
  cases hplaced with
  | node hlaid hfits =>
    obtain ⟨rfl, hlt, -⟩ := hfits
    exact ⟨Nat.le_refl _, hlt, Nat.le_refl _⟩

lemma child_within {shape : Shape} (hplaced : Placed source (.node shape kids) span)
    (h : consoleMember methods (child slot kids) = some (level, member)) :
    member.Within span := by
  cases hplaced with
  | node hlaid hfits hinside hapart hplaces =>
    obtain ⟨place, hmem, -, -, hchild⟩ := hplaces.at? (at?_of_child h)
    obtain ⟨hstart, hlt, hstop⟩ := consoleMember_within hchild h
    obtain ⟨hin, hin'⟩ := hinside place hmem
    exact ⟨hin.trans hstart, hlt, hstop.trans hin'⟩

lemma detectConsoleCall_within {fn : Node} (hplaced : Placed source fn span)
    (h : detectConsoleCall fn methods = some (level, member)) : member.Within span := by
  rw [detectConsoleCall, openOnce.eq_def] at h
  split at h
  · exact child_within hplaced h
  · exact child_within hplaced h
  · exact consoleMember_within hplaced h

def insertedAt (i : Nat) (text : Octets) : Patch := ⟨i, i, text⟩

lemma filter_injectArgs_length (hreg : ctx.Regular) {path : InjectArg → Bool}
    {target : Option (List Name)} (h : ∀ spec, path spec = true → target = some spec.path) :
    (ctx.injectArgs.filter path).length ≤ 1 := by
  have hnodup : ((ctx.injectArgs.filter path).map InjectArg.path).Nodup :=
    hreg.paths.sublist (filter_sublist.map _)
  match hspecs : ctx.injectArgs.filter path with
  | [] | [_] => simp
  | a :: b :: rest =>
    have ha : target = some a.path := h a (mem_filter.mp (hspecs ▸ mem_cons_self)).2
    have hb : target = some b.path :=
      h b (mem_filter.mp (hspecs ▸ mem_cons_of_mem _ mem_cons_self)).2
    rw [hspecs, map_cons, nodup_cons] at hnodup
    have heq : a.path = b.path := Option.some.inj (ha.symm.trans hb)
    exact absurd (heq ▸ mem_cons_self) hnodup.1

lemma handleCall_cases (hreg : ctx.Regular) (fn : Span) (kids : Nodes) :
    ctx.handleCall fn kids = [] ∨
    (∃ text, ctx.handleCall fn kids = [insertedAt (ctx.insertAt fn.stop) text]) ∨
    ∃ methods level member text text',
    detectConsoleCall (child .callee kids) methods = some (level, member) ∧
    ctx.handleCall fn kids = [⟨member.start, member.stop, text⟩,
    insertedAt (ctx.insertAt fn.stop) text'] := by
  rw [Ctx.handleCall]
  split
  next hook level member hcall =>
    obtain ⟨hook', -, hfound⟩ := Option.bind_eq_some_iff.mp hcall
    obtain ⟨found, hdetect, hpair⟩ := Option.map_eq_some_iff.mp hfound
    obtain ⟨-, rfl⟩ := Prod.mk.inj hpair
    exact Or.inr (Or.inr ⟨_, level, member, _, _, hdetect, rfl⟩)
  next =>
    have hlen : (ctx.injectArgs.filter fun spec =>
        calleeMatchesPath (child .callee kids) spec.path &&
          !firstArgIs spec.arg (kids.allAt .argument)).length ≤ 1 :=
      filter_injectArgs_length hreg fun spec hspec =>
        calleeMatchesPath_iff.mp (and_eq_true _ _ ▸ hspec).1
    revert hlen
    generalize ctx.injectArgs.filter _ = specs
    intro hlen
    cases specs with
    | nil => exact Or.inl rfl
    | cons =>
      obtain rfl := length_eq_zero_iff.mp (Nat.le_zero.mp (Nat.le_of_succ_le_succ hlen))
      exact Or.inr (Or.inl ⟨_, rfl⟩)

lemma insertAt_spec (hsrc : ctx.source = source) {fn : Span} {paren : Nat}
    (h : laid source (.node (.call fn paren) kids) = true) :
    fn.stop < ctx.insertAt fn.stop ∧ ctx.insertAt fn.stop ≤ paren + 1 := by
  rw [← hsrc] at h
  have hparen := (Ctx.firstParen_spec h).1
  rw [Ctx.firstParen] at hparen
  rw [Ctx.insertAt]
  omega

lemma handleStaticMember_cases (hreg : ctx.Regular) (span : Span) (property : Name)
    (kids : Nodes) :
    ctx.handleStaticMember span property kids = [] ∨
    ∃ ns text, ns ≠ "console".toList ∧ isIdentifier ns (child .object kids) = true ∧
    ctx.handleStaticMember span property kids = [⟨span.start, span.stop, text⟩] := by
  rw [Ctx.handleStaticMember]
  split
  next spec hfind =>
    obtain ⟨ns, name, hpath, hns⟩ := hreg.renames spec (mem_of_find?_eq_some hfind)
    have hmatches := find?_some hfind
    rw [hpath] at hmatches
    refine Or.inr ⟨ns, _, hns, ?_, rfl⟩
    simpa [memberMatches] using (and_eq_true _ _ ▸ hmatches).2
  next => exact Or.inl rfl

lemma push_eq (ctx : Ctx) (w : Walker) (t : Node) :
    ctx.walkers.push w t = [] ∨ ctx.walkers.push w t = ctx.handle t := by
  rw [Ctx.walkers]
  dsimp only
  split
  · exact Or.inr rfl
  · exact Or.inl rfl

lemma mem_handle_of_push {w : Walker} {patch : Patch} (h : patch ∈ ctx.walkers.push w t) :
    patch ∈ ctx.handle t := by
  rcases push_eq ctx w t with hnil | hown
  · simp [hnil] at h
  · rwa [hown] at h

lemma PlacedIn.callee {places : List Place} {found : Name × Span}
    (hplaces : PlacedIn source kids places)
    (h : detectConsoleCall (child .callee kids) methods = some found) :
    kids.at? .callee = some (child .callee kids) ∧
    ∃ place ∈ places, place.slot = .callee ∧
    Placed source (child .callee kids) place.span := by
  have hat : kids.at? .callee = some (child .callee kids) := by
    rw [child] at h ⊢
    cases hat : kids.at? .callee with
    | none => simp [hat, detectConsoleCall, openOnce, consoleMember] at h
    | some => rfl
  obtain ⟨place, hmem, hslot, -, hplaced⟩ := hplaces.at? hat
  exact ⟨hat, place, hmem, hslot, hplaced⟩

lemma handle_inside (hreg : ctx.Regular) (hsrc : ctx.source = source)
    (hplaced : Placed source t span) : ∀ patch ∈ ctx.handle t, patch.Inside span := by
  match t, hplaced with
  | .node shape kids, .node hlaid hfits hinside hapart hplaces =>
    intro patch hpatch
    rw [Ctx.handle.eq_def] at hpatch
    split at hpatch
    next fn paren children' heq =>
      cases heq
      obtain ⟨hstart, hle, hparen, hcallee, -⟩ := hfits
      obtain ⟨hlt, hinsert⟩ := insertAt_spec hsrc hlaid
      have hinserted : ∀ text, (insertedAt (ctx.insertAt fn.stop) text).Inside span := by
        unfold Patch.Inside insertedAt
        dsimp only
        omega
      obtain hnil | ⟨text, hone⟩ | ⟨methods, level, member, text, text', hdetect, htwo⟩ :=
        handleCall_cases hreg fn kids
      · simp [hnil] at hpatch
      · rw [hone, mem_singleton] at hpatch
        exact hpatch ▸ hinserted text
      · rw [htwo, mem_cons, mem_singleton] at hpatch
        rcases hpatch with rfl | rfl
        · obtain ⟨-, place, hmem, hslot, hchild⟩ := hplaces.callee hdetect
          obtain ⟨hfrom, hne, hto⟩ := detectConsoleCall_within hchild hdetect
          obtain ⟨hin, hin'⟩ := hinside place hmem
          exact ⟨hin.trans hfrom, hto.trans hin', Or.inl hne⟩
        · exact hinserted text'
    next member property children' heq =>
      cases heq
      obtain ⟨rfl, hlt, -⟩ := hfits
      obtain hnil | ⟨ns, text, -, -, hone⟩ :=
        handleStaticMember_cases hreg span property kids
      · simp [hnil] at hpatch
      · rw [hone, mem_singleton] at hpatch
        rw [hpatch]
        exact ⟨Nat.le_refl _, Nat.le_refl _, Or.inl hlt⟩
    next => simp at hpatch

mutual
theorem walk_inside (hreg : ctx.Regular) (hsrc : ctx.source = source) :
    ∀ (t : Node) (w : Walker) {span : Span}, Placed source t span →
      ∀ patch ∈ walk ctx.walkers w t, patch.Inside span
  | .node shape kids, w, span, .node hlaid hfits hinside hapart hplaces, patch, hpatch => by
    rw [walk, mem_append] at hpatch
    rcases hpatch with hown | hbelow
    · exact handle_inside hreg hsrc (.node hlaid hfits hinside hapart hplaces) patch
        (mem_handle_of_push hown)
    · obtain ⟨place, hmem, -, -, hpatch⟩ :=
        walkIn_inside hreg hsrc kids w shape hplaces patch hbelow
      exact hpatch.mono (hinside place hmem).1 (hinside place hmem).2

theorem walkIn_inside (hreg : ctx.Regular) (hsrc : ctx.source = source) :
    ∀ (f : Nodes) (w : Walker) (shape : Shape) {places : List Place},
      PlacedIn source f places → ∀ patch ∈ walkIn ctx.walkers w shape f,
        ∃ place ∈ places, place.shape ≠ .name ∧ (w.enter shape place.slot).isSome = true ∧
          patch.Inside place.span
  | .nil, w, shape, _, _, patch, hpatch => by simp [walkIn] at hpatch
  | .cons slot inner rest, w, shape, _, .cons hchild hrest, patch, hpatch => by
    rcases mem_walkIn_cons.mp hpatch with ⟨w', henter, hpatch⟩ | hpatch
    · refine ⟨_, mem_cons_self, fun hname => ?_, by rw [henter]; rfl,
        walk_inside hreg hsrc inner w' hchild patch hpatch⟩
      simp [walk_name hname] at hpatch
    · obtain ⟨place, hmem, hplace⟩ :=
        walkIn_inside hreg hsrc rest w shape hrest patch hpatch
      exact ⟨place, mem_cons_of_mem _ hmem, hplace⟩
end

end

lemma Patch.Inside.apart {a b : Patch} {s t : Span} (ha : a.Inside s) (hb : b.Inside t)
    (h : s.stop ≤ t.start ∨ t.stop ≤ s.start) : Edits.Apart a.edit b.edit := by
  unfold Patch.Inside at ha hb
  constructor
  · dsimp only [edit]
    omega
  · dsimp only [edit]
    omega

section
variable {ctx : Ctx} {source : Octets}

def Patch.Avoids (span : Span) (patch : Patch) : Prop :=
  patch.stop ≤ span.start ∨ span.stop ≤ patch.start

lemma Patch.Inside.avoids {patch : Patch} {inner : Span} {a b : Place} (h : patch.Inside a.span)
    (hinner : inner.Within b.span) (hapart : Place.Apart a b) (ha : a.shape ≠ .name)
    (hb : b.shape ≠ .name) : patch.Avoids inner := by
  have hspans := (hapart.resolve_left ha).resolve_left hb
  unfold Patch.Inside at h
  unfold Span.Within at hinner
  unfold Patch.Avoids
  omega

lemma Place.Apart.symm {a b : Place} (h : Place.Apart a b) : Place.Apart b a := by
  unfold Place.Apart at *
  tauto

variable {t : Node} {w : Walker} {shape : Shape} {methods : List Name} {level : Name}
  {member span : Span} {kids : Nodes}

lemma walkIn_avoids (hreg : ctx.Regular) (hsrc : ctx.source = source) {inner : Span}
    {slot : Slot} (hname : t.shape ≠ .name)
    (hwithin : ∀ span, Placed source t span → inner.Within span)
    (havoids : ∀ w, ∀ patch ∈ walk ctx.walkers w t, patch.Avoids inner) {f : Nodes}
    {places : List Place} (hplaces : PlacedIn source f places)
    (hapart : places.Pairwise Place.Apart) (hat : f.at? slot = some t) :
    ∀ patch ∈ walkIn ctx.walkers w shape f, patch.Avoids inner := by
  intro patch hpatch
  cases hplaces with
  | nil => simp [Forest.at?] at hat
  | @cons slot' other rest _ _ hchild hrest =>
    rw [pairwise_cons] at hapart
    rw [Forest.at?] at hat
    split_ifs at hat with hslot
    · -- The child is the first one.
      cases hat
      rcases mem_walkIn_cons.mp hpatch with ⟨w', -, hpatch⟩ | hpatch
      · exact havoids w' patch hpatch
      · obtain ⟨place, hmem, hshape, -, hin⟩ :=
          walkIn_inside hreg hsrc rest w shape hrest patch hpatch
        exact hin.avoids (hwithin _ hchild) (hapart.1 place hmem).symm hshape hname
    · -- The child is one of the others.
      rcases mem_walkIn_cons.mp hpatch with ⟨w', -, hpatch⟩ | hpatch
      · obtain ⟨place, hmem, -, hshape, hplaced⟩ := hrest.at? hat
        have hother : other.shape ≠ .name := fun hname => by simp [walk_name hname] at hpatch
        have hin := walk_inside hreg hsrc other w' hchild patch hpatch
        exact hin.avoids (hwithin _ hplaced) (hapart.1 place hmem) hother (hshape ▸ hname)
      · exact walkIn_avoids hreg hsrc hname hwithin havoids hrest hapart.2 hat patch hpatch

lemma walk_consoleMember (hreg : ctx.Regular) (hplaced : Placed source t span)
    (h : consoleMember methods t = some (level, member)) (w : Walker) :
    walk ctx.walkers w t = [] := by
  obtain ⟨hpath, kids, rfl⟩ := consoleMember_eq_some h
  rw [dottedPath_staticMember, Option.map_eq_some_iff] at hpath
  obtain ⟨path, hpath, happend⟩ := hpath
  have hconsole : isIdentifier "console".toList (child .object kids) = true := by
    rw [← dottedPath_singleton_iff, hpath]
    exact congrArg some (append_inj_left' happend rfl)
  have hnone : ctx.handleStaticMember member level kids = [] := by
    obtain hnil | ⟨ns, text, hns, hid, -⟩ :=
      handleStaticMember_cases hreg member level kids
    · exact hnil
    · simp only [isIdentifier, beq_iff_eq] at hid hconsole
      rw [hconsole, Shape.identifier.injEq] at hid
      exact absurd hid.symm hns
  cases hplaced with
  | node hlaid hfits hin hapart hplaces =>
    rw [walk, walkIn_object hplaces hfits.2.2 hconsole]
    simp [Ctx.walkers, Ctx.handle, hnone]

lemma consoleMember_ne_name {found : Name × Span} (h : consoleMember methods t = some found) :
    t.shape ≠ .name := by
  obtain ⟨-, kids, rfl⟩ := consoleMember_eq_some h
  simp [Tree.shape]

lemma callee_ne_name {fn : Node} {found : Name × Span}
    (h : detectConsoleCall fn methods = some found) : fn.shape ≠ .name := by
  match fn with
  | .node shape kids =>
    rintro rfl
    simp [detectConsoleCall, openOnce, consoleMember] at h

lemma Patch.Avoids.apart {patch : Patch} {text : Octets} (h : patch.Avoids span)
    (hne : span.start < span.stop) :
    Edits.Apart (edit ⟨span.start, span.stop, text⟩) patch.edit := by
  unfold Patch.Avoids at h
  constructor <;> dsimp only [edit] <;> omega

section
variable (hreg : ctx.Regular) (hsrc : ctx.source = source)
include hreg hsrc

lemma child_avoids {slot : Slot} {places : List Place} (hplaces : PlacedIn source kids places)
    (hapart : places.Pairwise Place.Apart)
    (h : consoleMember methods (child slot kids) = some (level, member)) (w : Walker) :
    ∀ patch ∈ walkIn ctx.walkers w shape kids, patch.Avoids member := by
  have hat := at?_of_child h
  obtain ⟨place, -, -, -, hplaced⟩ := hplaces.at? hat
  refine walkIn_avoids hreg hsrc (consoleMember_ne_name h)
    (fun span hspan => consoleMember_within hspan h) (fun w patch hpatch => ?_) hplaces hapart hat
  simp [walk_consoleMember hreg hplaced h] at hpatch

lemma callee_avoids {fn : Node} (hplaced : Placed source fn span)
    (h : detectConsoleCall fn methods = some (level, member)) (w : Walker) :
    ∀ patch ∈ walk ctx.walkers w fn, patch.Avoids member := by
  intro patch hpatch
  rw [detectConsoleCall, openOnce.eq_def] at h
  split at h
  case h_1 kids | h_2 kids =>
    cases hplaced with
    | node hlaid hfits hin hapart hplaces =>
      rw [walk, mem_append] at hpatch
      rcases hpatch with hown | hbelow
      · simpa [Ctx.handle] using mem_handle_of_push hown
      · exact child_avoids hreg hsrc hplaces hapart h w patch hbelow
  case h_3 => simp [walk_consoleMember hreg hplaced h] at hpatch

lemma inserted_apart {fn : Span} {paren : Nat} {places : List Place}
    (hlaid : laid source (.node (.call fn paren) kids) = true)
    (hfits : Place.Fits (.call fn paren) span places)
    (hplaces : PlacedIn source kids places) (text : Octets) :
    ∀ patch ∈ walkIn ctx.walkers w (.call fn paren) kids,
    Edits.Apart (insertedAt (ctx.insertAt fn.stop) text).edit patch.edit := by
  intro patch hpatch
  obtain ⟨place, hmem, -, henter, hin⟩ :=
    walkIn_inside hreg hsrc kids w _ hplaces patch hpatch
  obtain ⟨-, -, -, hcallee, hargument⟩ := hfits
  obtain ⟨hlt, hle⟩ := insertAt_spec hsrc hlaid
  unfold Patch.Inside at hin
  rcases enter_call henter with hslot | hslot
  · rw [hcallee place hmem hslot] at hin
    constructor <;> dsimp only [edit, insertedAt] <;> omega
  · have hafter := hargument place hmem hslot
    constructor <;> dsimp only [edit, insertedAt] <;> omega

lemma handleCall_apart {fn : Span} {paren : Nat} {places : List Place}
    (hlaid : laid source (.node (.call fn paren) kids) = true)
    (hfits : Place.Fits (.call fn paren) span places) (hapart : places.Pairwise Place.Apart)
    (hplaces : PlacedIn source kids places) :
    ((ctx.handleCall fn kids).map edit).Pairwise Edits.Apart ∧
    ∀ own ∈ ctx.handleCall fn kids,
    ∀ patch ∈ walkIn ctx.walkers w (.call fn paren) kids,
    Edits.Apart own.edit patch.edit := by
  have hinserted := @inserted_apart _ _ w _ _ hreg hsrc _ _ _ hlaid hfits hplaces
  obtain hnil | ⟨text, hone⟩ | ⟨methods, level, member, text, text', hdetect, htwo⟩ :=
    handleCall_cases hreg fn kids
  · simp [hnil]
  · rw [hone]
    exact ⟨pairwise_singleton _ _, by simpa using hinserted text⟩
  · obtain ⟨hat, place, hmem, hslot, hplaced⟩ := hplaces.callee hdetect
    rw [hfits.2.2.2.1 place hmem hslot] at hplaced
    obtain ⟨-, hne, hstop⟩ := detectConsoleCall_within hplaced hdetect
    have hlt := (insertAt_spec hsrc hlaid).1
    have havoids : ∀ patch ∈ walkIn ctx.walkers w (.call fn paren) kids,
        patch.Avoids member := walkIn_avoids hreg hsrc (callee_ne_name hdetect)
      (fun span hspan => detectConsoleCall_within hspan hdetect)
      (callee_avoids hreg hsrc hplaced hdetect) hplaces hapart hat
    have hpair : Edits.Apart (edit ⟨member.start, member.stop, text⟩)
        (insertedAt (ctx.insertAt fn.stop) text').edit := by
      constructor <;> dsimp only [edit, insertedAt] <;> omega
    rw [htwo]
    refine ⟨by simpa using hpair, ?_⟩
    rw [forall_mem_cons, forall_mem_singleton]
    exact ⟨fun patch hpatch => (havoids patch hpatch).apart hne, hinserted text'⟩

lemma handle_apart (hplaced : Placed source (.node shape kids) span) :
    ((ctx.handle (.node shape kids)).map edit).Pairwise Edits.Apart ∧
    ∀ own ∈ ctx.handle (.node shape kids), ∀ patch ∈ walkIn ctx.walkers w shape kids,
    Edits.Apart own.edit patch.edit := by
  cases hplaced with
  | node hlaid hfits hin hapart hplaces =>
    rw [Ctx.handle.eq_def]
    split
    next fn paren children' heq =>
      cases heq
      exact handleCall_apart hreg hsrc hlaid hfits hapart hplaces
    next member property children' heq =>
      cases heq
      obtain hnil | ⟨ns, text, -, hid, hone⟩ :=
        handleStaticMember_cases hreg member property kids
      · simp [hnil]
      · rw [hone, walkIn_object hplaces hfits.2.2 hid]
        exact ⟨pairwise_singleton _ _, by simp⟩
    next => simp

end

mutual
theorem walk_apart (hreg : ctx.Regular) (hsrc : ctx.source = source) :
    ∀ (t : Node) (w : Walker) {span : Span}, Placed source t span →
      ((walk ctx.walkers w t).map edit).Pairwise Edits.Apart
  | .node shape kids, w, span, hplaced => by
    obtain ⟨hown, hcross⟩ := @handle_apart _ _ w _ _ _ hreg hsrc hplaced
    have hbelow : ((walkIn ctx.walkers w shape kids).map edit).Pairwise Edits.Apart := by
      cases hplaced with
      | node hlaid hfits hin hapart hplaces =>
        exact walkIn_apart hreg hsrc kids w shape hplaces hapart
    rw [walk]
    rcases push_eq ctx w (.node shape kids) with hnil | hhandle
    · rwa [hnil, nil_append]
    · rw [hhandle, map_append, pairwise_append]
      refine ⟨hown, hbelow, ?_⟩
      simpa only [forall_mem_map] using hcross

theorem walkIn_apart (hreg : ctx.Regular) (hsrc : ctx.source = source) :
    ∀ (f : Nodes) (w : Walker) (shape : Shape) {places : List Place}, PlacedIn source f places →
      places.Pairwise Place.Apart →
        ((walkIn ctx.walkers w shape f).map edit).Pairwise Edits.Apart
  | .nil, w, shape, _, _, _ => by
    rw [walkIn]
    exact .nil
  | .cons slot inner rest, w, shape, _, .cons hchild hrest, hapart => by
    rw [pairwise_cons] at hapart
    have hothers := walkIn_apart hreg hsrc rest w shape hrest hapart.2
    rw [walkIn]
    cases ctx.walkers.enter w shape slot with
    | none => exact hothers
    | some w' =>
      rw [map_append, pairwise_append]
      refine ⟨walk_apart hreg hsrc inner w' hchild, hothers, ?_⟩
      simp only [forall_mem_map]
      intro a ha b hb
      have hinner : inner.shape ≠ .name := fun hname => by simp [walk_name hname] at ha
      obtain ⟨place, hmem, hname, -, hin⟩ :=
        walkIn_inside hreg hsrc rest w shape hrest b hb
      exact (walk_inside hreg hsrc inner w' hchild a ha).apart hin
        (((hapart.1 place hmem).resolve_left hinner).resolve_left hname)
end

end

lemma Patch.before_trans (a b c : Patch) (hab : a.before b = true) (hbc : b.before c = true) :
    a.before c = true := by
  simp only [before, or_eq_true, and_eq_true, decide_eq_true_eq, beq_iff_eq] at *
  omega

lemma Patch.before_total (a b : Patch) : (a.before b || b.before a) = true := by
  simp only [before, or_eq_true, and_eq_true, decide_eq_true_eq, beq_iff_eq]
  omega

lemma applyPatchesInner_eq {source : Octets} {patches : List Patch}
    (hrange : ∀ patch ∈ patches, InRange source patch.edit)
    (hapart : (patches.map edit).Pairwise Edits.Apart) :
    applyPatchesInner source patches = substitute (patches.map edit) source := by
  have hfold : applyPatchesInner source patches =
      ((patches.mergeSort before).map edit).foldl replace source := by
    rw [foldl_map]
    rfl
  have hsorted : ((patches.mergeSort before).map edit).Pairwise Descending := by
    rw [pairwise_map]
    refine (pairwise_mergeSort before_trans before_total patches).imp ?_
    simp [before, Descending, edit]
  rw [hfold]
  exact foldl_replace ((mergeSort_perm _ _).map _) hsorted hapart
    (forall_mem_map.mpr hrange)

/-- The patches of one walk compose. -/
theorem patches_compose (target : BundleTarget)
    (sourceMap : Option (Nat → Nat → Option MapToken)) (program : PlacedProgram) :
    Compose program.source
      ((target.ctx program.source sourceMap).patches program.toProgram) := by
  have hregular := regular_ctx target program.source sourceMap
  have hrange : ∀ patch ∈ (target.ctx program.source sourceMap).patches program.toProgram,
      InRange program.source patch.edit := by
    intro patch hpatch
    have hinside :=
      walk_inside hregular rfl (root program.body) .program program.placed patch hpatch
    unfold Patch.Inside at hinside
    dsimp only at hinside
    constructor <;> dsimp only [edit] <;> omega
  have hapart := walk_apart hregular rfl (root program.body) .program program.placed
  have happlied := applyPatchesInner_eq hrange hapart
  exact ⟨hrange, hapart, happlied, happlied ▸ kept_sublist _ _⟩

end Millennium.Starlight.Js
