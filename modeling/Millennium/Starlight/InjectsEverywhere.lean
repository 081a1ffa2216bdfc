import Millennium.Starlight.Transforms

/-!
# Rewriting wherever it is due

The bundler makes the patches that a bundle needs exactly if none is due where no walker comes to,
if the console is not called through more than one pair of parentheses or through a sequence, and if
no other parenthesis stands between a callee and its arguments.
-/

namespace Millennium.Starlight.Js

open Bytes Utf8 TreeWalk List Tree Option Patch

mutual
def dottedPath : Node → Option (List Name)
  | .node (.identifier name) _ => some [name]
  | .node (.staticMember _ property) children => (dottedPathIn children).map (· ++ [property])
  | _ => none

def dottedPathIn : Nodes → Option (List Name)
  | .nil => none
  | .cons slot inner rest => if slot = .object then dottedPath inner else dottedPathIn rest
end

/-- What a callee stands for: without parentheses, the last one of a sequence. -/
def calleeTarget (callee : Node) : Node :=
  match unparen callee with
  | .node .sequence children => child .last children
  | other => other

namespace Ctx
variable (ctx : Ctx)

/-- The patches due for a call, whose arguments begin behind a parenthesis. -/
def dueForCall (callee : Span) (paren : Nat) (children : Nodes) : List Patch :=
  match ctx.consoleCall (consoleMember · (calleeTarget (child .callee children))) with
  | some (hook, level, member) =>
    ctx.consolePatches (paren + 1) hook level member callee (children.allAt .argument)
  | none =>
    (ctx.injectArgs.filter fun spec =>
      dottedPath (calleeTarget (child .callee children)) = some spec.path ∧
        firstArgIs spec.arg (children.allAt .argument) = false).map fun spec =>
          insertion (paren + 1) (children.allAt .argument) spec.arg

def dueForMember (span : Span) (t : Node) : List Patch :=
  match ctx.renames.find? fun spec => dottedPath t = some spec.path with
  | some spec => [⟨span.start, span.stop, encode spec.replacement⟩]
  | none => []

def due : Node → List Patch
  | .node (.call callee paren) children => ctx.dueForCall callee paren children
  | .node (.staticMember span property) children =>
    ctx.dueForMember span (.node (.staticMember span property) children)
  | _ => []

end Ctx

/-- Exactly the patches that are due anywhere in a bundle are made. -/
def InjectsEverywhere (target : BundleTarget)
    (sourceMap : Option (Nat → Nat → Option MapToken)) (program : Program) : Prop :=
  ((target.ctx program.source sourceMap).patches program).Perm
    ((nodes (root program.body)).flatMap (target.ctx program.source sourceMap).due)

lemma dottedPathIn_eq (kids : Nodes) :
    dottedPathIn kids = (kids.at? .object).bind dottedPath := by
  match kids with
  | .nil => rfl
  | .cons slot inner rest =>
    rw [dottedPathIn, Forest.at?]
    split_ifs
    · rfl
    · exact dottedPathIn_eq rest

lemma dottedPath_child_object (kids : Nodes) :
    dottedPath (child .object kids) = dottedPathIn kids := by
  rw [dottedPathIn_eq, child]
  cases kids.at? .object with
  | none => simp [dottedPath]
  | some => rfl

lemma dottedPath_staticMember (span : Span) (prop : Name) (kids : Nodes) :
    dottedPath (.node (.staticMember span prop) kids) =
    (dottedPath (child .object kids)).map (· ++ [prop]) := by
  rw [dottedPath, dottedPath_child_object]

lemma dottedPath_ne_nil (t : Node) : dottedPath t ≠ some [] := by
  match t with
  | .node shape kids =>
    intro h
    cases shape <;> simp [dottedPath] at h

variable {t : Node} {path : List Name}

lemma dottedPath_singleton_iff {name : Name} :
    dottedPath t = some [name] ↔ isIdentifier name t = true := by
  match t with
  | .node shape kids =>
    cases shape with
    | identifier => simp [dottedPath, isIdentifier, shape]
    | staticMember =>
      rw [dottedPath_staticMember]
      constructor
      · intro h
        obtain ⟨path, hpath, happend⟩ := map_eq_some_iff.mp h
        have hnil : path = [] := by simpa using congrArg List.length happend
        exact absurd (hnil ▸ hpath) (dottedPath_ne_nil _)
      · simp [isIdentifier, shape]
    | _ => simp [dottedPath, isIdentifier, shape]

lemma memberMatches_iff (path : List Name) (t : Node) :
    memberMatches path t = true ↔ dottedPath t = some path.reverse := by
  induction path generalizing t with
  | nil => simpa [memberMatches] using dottedPath_ne_nil t
  | cons last rest ih =>
    match rest, t with
    | [], t => exact dottedPath_singleton_iff.symm
    | name :: rest, .node shape kids =>
      have hreverse : (last :: name :: rest).reverse = (name :: rest).reverse ++ [last] :=
        reverse_cons
      rw [memberMatches.eq_def, hreverse]
      cases shape with
      | staticMember =>
        rw [Bool.and_eq_true, beq_iff_eq, ih, dottedPath_staticMember, map_eq_some_iff]
        constructor
        · rintro ⟨rfl, h⟩
          exact ⟨_, h, rfl⟩
        · rintro ⟨path, h, happend⟩
          obtain ⟨rfl, hlast⟩ := append_inj' happend rfl
          exact ⟨singleton_inj.mp hlast, h⟩
      | identifier =>
        refine iff_of_false (by simp) fun h => ?_
        simpa using congrArg List.length (some.inj h)
      | _ => simp [dottedPath]

lemma memberMatchesPath_iff : memberMatchesPath t path = true ↔ dottedPath t = some path := by
  rw [memberMatchesPath, memberMatches_iff, reverse_reverse]

lemma calleeMatchesPath_iff {callee : Node} :
    calleeMatchesPath callee path = true ↔ dottedPath (calleeTarget callee) = some path := by
  rw [← memberMatchesPath_iff, calleeMatchesPath, calleeTarget]
  match unparen callee with
  | .node shape kids => cases shape <;> exact Iff.rfl

lemma staticMemberMatchesPath_iff {span : Span} {prop : Name} {kids : Nodes} :
    staticMemberMatchesPath prop kids path = true ↔
    dottedPath (.node (.staticMember span prop) kids) = some path := by
  rw [← memberMatchesPath_iff, staticMemberMatchesPath, memberMatchesPath]
  match path.reverse with
  | [] => simp [memberMatches]
  | [_] => simp [memberMatches, isIdentifier, shape]
  | _ :: _ :: _ => rfl

lemma consoleMember_eq_some {methods : List Name} {level : Name} {span : Span}
    (h : consoleMember methods t = some (level, span)) :
    dottedPath t = some ["console".toList, level] ∧ ∃ kids,
    t = .node (.staticMember span level) kids := by
  match t with
  | .node shape kids =>
    cases shape with
    | staticMember =>
      rw [consoleMember] at h
      split_ifs at h with hconsole
      obtain ⟨rfl, rfl⟩ := Prod.mk.inj (some.inj h)
      rw [Bool.and_eq_true, ← dottedPath_singleton_iff] at hconsole
      rw [dottedPath_staticMember, hconsole.1]
      exact ⟨rfl, kids, rfl⟩
    | _ => simp [consoleMember] at h

lemma unparenIn_eq (kids : Nodes) :
    unparenIn kids = unparen (child .expression kids) := by
  match kids with
  | .nil => simp [unparenIn, child, Forest.at?, unparen]
  | .cons slot inner rest =>
    rw [unparenIn, child, Forest.at?]
    split_ifs
    · rfl
    · exact unparenIn_eq rest

lemma calleeTarget_of_detect {methods : List Name} {callee : Node} {found : Name × Span}
    (h : detectConsoleCall callee methods = some found) :
    calleeTarget callee = openOnce callee := by
  obtain ⟨-, inner, hmember⟩ := consoleMember_eq_some h
  match callee with
  | .node shape kids =>
    cases shape with
    | parenthesized =>
      rw [openOnce] at hmember ⊢
      rw [calleeTarget, unparen, unparenIn_eq, hmember]
      simp [unparen]
    | sequence => simp [calleeTarget, unparen, openOnce]
    | _ => simp [calleeTarget, unparen, openOnce]

lemma idxOf_spec {a : UInt8} (l : Octets) (n : Nat) (h : l[n]? = some a) :
    l.idxOf a ≤ n ∧ (l.idxOf a = n ↔ a ∉ l.take n) := by
  induction l generalizing n with
  | nil => simp at h
  | cons b rest ih =>
    cases n with
    | zero =>
      have hb : b = a := by simpa using h
      simp [hb]
    | succ n =>
      obtain ⟨hle, hiff⟩ := ih n (by simpa using h)
      by_cases hb : b = a
      · simp [hb]
      · rw [idxOf_cons_ne _ hb, take_succ_cons]
        refine ⟨Nat.succ_le_succ hle, ?_⟩
        rw [Nat.succ_inj, hiff]
        simp [Ne.symm hb]

namespace Ctx
variable (ctx : Ctx)

def firstParen (callee : Span) : Nat := callee.stop + (ctx.source.drop callee.stop).idxOf 40

def gap (callee : Span) (paren : Nat) : Octets :=
  slice ctx.source callee.stop (paren - callee.stop)

/-- The bundler makes what is due: the console is called by its name, in at most one pair of
parentheses, and the arguments begin at the first parenthesis. -/
def Plain : Node → Prop
  | .node (.call callee paren) children =>
    (ctx.consoleCall (consoleMember · (calleeTarget (child .callee children))) ≠ none →
      openOnce (child .callee children) = calleeTarget (child .callee children)) ∧
    40 ∉ ctx.gap callee paren
  | _ => True

variable {ctx}

variable {callee : Span} {kids : Nodes}

lemma firstParen_spec {paren : Nat}
    (h : laid ctx.source (.node (.call callee paren) kids) = true) :
    ctx.firstParen callee ≤ paren ∧ (ctx.firstParen callee = paren ↔ 40 ∉ ctx.gap callee paren) := by
  simp only [laid, shape, Bool.and_eq_true, decide_eq_true_eq, beq_iff_eq] at h
  obtain ⟨hle, hparen⟩ := h
  have hdrop : (ctx.source.drop callee.stop)[paren - callee.stop]? = some 40 := by
    rw [getElem?_drop, Nat.add_sub_cancel' hle, hparen]
  obtain ⟨hidx, hiff⟩ := idxOf_spec _ _ hdrop
  rw [firstParen, gap, slice, ← hiff]
  omega

lemma dueForCall_lags (callee : Span) (kids : Nodes) {p q : Nat} (h : p ≤ q) :
    List.Forall₂ (Lags start) (ctx.dueForCall callee p kids)
      (ctx.dueForCall callee q kids) := by
  have hinsert : ∀ args text, Lags start (insertion (p + 1) args text)
      (insertion (q + 1) args text) := by
    intro args text
    rcases Nat.eq_or_lt_of_le h with rfl | hlt
    · exact .inl rfl
    · exact .inr (Nat.succ_lt_succ hlt)
  rw [dueForCall, dueForCall]
  split
  · exact .cons (.inl rfl) (.cons (hinsert _ _) .nil)
  · rw [forall₂_map_left_iff, forall₂_map_right_iff, forall₂_same]
    exact fun spec _ => hinsert _ _

lemma dueForCall_eq_iff (callee : Span) (kids : Nodes) {p q : Nat} :
    ctx.dueForCall callee p kids = ctx.dueForCall callee q kids ↔
    (ctx.dueForCall callee q kids ≠ [] → p = q) := by
  have hlen : (ctx.dueForCall callee p kids).length =
      (ctx.dueForCall callee q kids).length := by
    rcases Nat.le_total p q with h | h
    · exact (dueForCall_lags callee kids h).length_eq
    · exact (dueForCall_lags callee kids h).length_eq.symm
  constructor
  · intro h hne
    rw [dueForCall, dueForCall] at h
    rw [dueForCall] at hne
    split at h
    · have hpatch := (List.cons.inj (List.cons.inj h).2).1
      exact Nat.succ_inj.mp (congrArg start hpatch)
    · rename_i hconsole
      rw [hconsole] at hne
      obtain ⟨spec, rest, hspecs⟩ := exists_cons_of_ne_nil (mt map_eq_nil_iff.mpr hne)
      rw [hspecs] at h
      exact Nat.succ_inj.mp (congrArg start (List.cons.inj h).1)
  · intro h
    by_cases hnil : ctx.dueForCall callee q kids = []
    · rw [hnil] at hlen ⊢
      exact eq_nil_of_length_eq_zero hlen
    · rw [h hnil]

/-- No argument is to be put into calls of the console. -/
def SparesConsole (ctx : Ctx) : Prop :=
  ∀ spec ∈ ctx.injectArgs, spec.path.head? ≠ some "console".toList

lemma consoleCall_ne_none_iff {find : List Name → Option (Name × Span)} :
    ctx.consoleCall find ≠ none ↔
    ∃ hook found, ctx.consoleHook = some hook ∧ find hook.methods = some found := by
  rw [consoleCall]
  cases ctx.consoleHook with
  | none => simp
  | some => simp [ne_none_iff_exists']

lemma handleCall_of_direct
    (h : ctx.consoleCall (consoleMember · (calleeTarget (child .callee kids))) ≠ none →
    openOnce (child .callee kids) = calleeTarget (child .callee kids)) :
    ctx.handleCall callee kids = ctx.dueForCall callee (ctx.firstParen callee) kids := by
  have hconsole : ctx.consoleCall (detectConsoleCall (child .callee kids)) =
      ctx.consoleCall (consoleMember · (calleeTarget (child .callee kids))) := by
    by_cases hcall : ctx.consoleCall (detectConsoleCall (child .callee kids)) = none
    · by_contra hne
      rw [hcall] at hne
      have hopen := h (Ne.symm hne)
      exact hne (hcall.symm.trans (by rw [← hopen]; rfl))
    · obtain ⟨hook, found, -, hfound⟩ := consoleCall_ne_none_iff.mp hcall
      rw [calleeTarget_of_detect hfound]
      rfl
  have hmatches : (fun spec : InjectArg => calleeMatchesPath (child .callee kids) spec.path &&
      !firstArgIs spec.arg (kids.allAt .argument)) = fun spec : InjectArg =>
        decide (dottedPath (calleeTarget (child .callee kids)) = some spec.path ∧
          firstArgIs spec.arg (kids.allAt .argument) = false) := by
    funext spec
    rw [Bool.eq_iff_iff, Bool.and_eq_true, calleeMatchesPath_iff, Bool.not_eq_true',
      decide_eq_true_eq]
  rw [handleCall, hconsole, hmatches]
  rfl

lemma handleCall_of_indirect (hspares : ctx.SparesConsole)
    (hcall : ctx.consoleCall (consoleMember · (calleeTarget (child .callee kids))) ≠ none)
    (h : openOnce (child .callee kids) ≠ calleeTarget (child .callee kids)) :
    ctx.handleCall callee kids = [] := by
  have hnone : ctx.consoleCall (detectConsoleCall (child .callee kids)) = none := by
    by_contra hne
    obtain ⟨hook, found, -, hfound⟩ := consoleCall_ne_none_iff.mp hne
    exact h (calleeTarget_of_detect hfound).symm
  obtain ⟨hook, ⟨level, span⟩, -, hmember⟩ := consoleCall_ne_none_iff.mp hcall
  obtain ⟨hpath, -⟩ := consoleMember_eq_some hmember
  rw [handleCall, hnone]
  rw [map_eq_nil_iff, filter_eq_nil_iff]
  intro spec hspec hmatches
  rw [Bool.and_eq_true, calleeMatchesPath_iff, hpath] at hmatches
  refine hspares spec hspec ?_
  rw [← some.inj hmatches.1]
  rfl

lemma handleStaticMember_eq (span : Span) (prop : Name) (kids : Nodes) :
    ctx.handleStaticMember span prop kids =
    ctx.dueForMember span (.node (.staticMember span prop) kids) := by
  have hmatches : (fun spec : Rename => staticMemberMatchesPath prop kids spec.path) =
      fun spec : Rename => decide
        (dottedPath (.node (.staticMember span prop) kids) = some spec.path) := by
    funext spec
    rw [Bool.eq_iff_iff, @staticMemberMatchesPath_iff _ span, decide_eq_true_eq]
  rw [handleStaticMember, hmatches]
  rfl

lemma handle_spec (hspares : ctx.SparesConsole) {t : Node} (ht : laid ctx.source t = true) :
    (ctx.handle t = [] ∨ List.Forall₂ (Lags start) (ctx.handle t) (ctx.due t)) ∧
    (ctx.handle t = ctx.due t ↔ (ctx.due t ≠ [] → ctx.Plain t)) := by
  match t with
  | .node shape kids =>
    cases shape with
    | call callee paren =>
      obtain ⟨hle, hiff⟩ := firstParen_spec ht
      rw [handle, due]
      by_cases hdirect : ctx.consoleCall (consoleMember · (calleeTarget (child .callee kids))) ≠
          none → openOnce (child .callee kids) = calleeTarget (child .callee kids)
      · rw [handleCall_of_direct hdirect, dueForCall_eq_iff, hiff]
        exact ⟨.inr (dueForCall_lags callee kids hle),
          imp_congr_right fun _ => (and_iff_right hdirect).symm⟩
      · obtain ⟨hcall, hindirect⟩ := Classical.not_imp.mp hdirect
        rw [handleCall_of_indirect hspares hcall hindirect]
        have hdue : ctx.dueForCall callee paren kids ≠ [] := by
          rw [dueForCall]
          split
          · simp [consolePatches]
          · contradiction
        exact ⟨.inl rfl, iff_of_false hdue.symm fun h => hdirect (h hdue).1⟩
    | staticMember span =>
      rw [handle, handleStaticMember_eq span]
      refine ⟨.inr ?_, iff_of_true rfl fun _ => trivial⟩
      exact forall₂_same.mpr fun _ _ => .inl rfl
    | _ => exact ⟨.inl rfl, iff_of_true rfl fun _ => trivial⟩

end Ctx

namespace Walker

def category : Walker → Option Category
  | program => none
  | stmt => some .statement
  | expr | callee => some .expression
  | arg => some .argument
  | chainElem => some .chainElement
  | propertyKey => some .key
  | arrayElem => some .arrayElement
  | property => some .property
  | classElement => some .classElement
  | forInit => some .variableDeclaration

variable {shape : Shape} {slot : Slot} {w : Walker}

lemma walkClass_takes (hshape : shape = .classDeclaration ∨ shape = .classExpression)
    (h : walkClass slot = some w) : shape.takes slot = w.category := by
  unfold walkClass at h
  split at h
  · cases h
    rcases hshape with rfl | rfl <;> rfl
  · cases h
    rcases hshape with rfl | rfl <;> rfl
  · cases h

lemma walkExpr_takes (h : walkExpr shape slot = some w) : shape.takes slot = w.category := by
  unfold walkExpr at h
  split at h
  case h_28 => exact walkClass_takes (.inr rfl) h
  all_goals cases h <;> rfl

lemma walkStmt_takes (h : walkStmt shape slot = some w) : shape.takes slot = w.category := by
  unfold walkStmt at h
  split at h
  case h_26 => exact walkClass_takes (.inl rfl) h
  all_goals cases h <;> rfl

lemma enter_takes {w' : Walker} (h : w.enter shape slot = some w') :
    shape.takes slot = w'.category := by
  cases w with
  | stmt => exact walkStmt_takes h
  | expr => exact walkExpr_takes h
  | callee =>
    rw [enter] at h
    unfold walkCallee at h
    split at h
    · cases h
      rfl
    · cases h
      rfl
    · exact walkExpr_takes h
  | arg =>
    rw [enter] at h
    unfold walkArg at h
    split at h
    · cases h
      rfl
    · split_ifs at h
      exact walkExpr_takes h
  | _ =>
    simp only [enter, walkProgram, walkChainElem, walkPropertyKey, walkArrayElem, walkProperty,
      walkClassElement, walkForInit] at h
    split at h
    all_goals cases h <;> rfl

lemma handles_of_fits (hfits : w.category.any shape.fits = true)
    (h : (∃ callee paren, shape = .call callee paren) ∨
    ∃ span prop, shape = .staticMember span prop) : w.handles = true := by
  rcases h with ⟨callee, paren, rfl⟩ | ⟨span, prop, rfl⟩
  · cases w <;> first | rfl | cases hfits
  · cases w <;> first | rfl | cases hfits

end Walker

/-- A walker stands at a node of the kind that it is for. -/
def AtHome (w : Walker) (t : Node) : Prop :=
  (t.shape = .program ∨ w.category.any t.shape.fits = true) ∧ ∀ t' ∈ nodes t, grammatical t' = true

lemma AtHome.enter {w w' : Walker} {shape : Shape} {kids : Nodes} {slot : Slot}
    {inner : Node} (h : AtHome w (.node shape kids)) (hchild : (slot, inner) ∈ kids.toList)
    (henter : w.enter shape slot = some w') : AtHome w' inner := by
  obtain ⟨-, hgrammar⟩ := h
  obtain ⟨hnode, hbelow⟩ := forall_mem_cons.mp hgrammar
  have hfits := all_eq_true.mp hnode (slot, inner) hchild
  dsimp only [Tree.shape] at hfits
  rw [Walker.enter_takes henter] at hfits
  exact ⟨.inr hfits, fun t ht => hbelow t (mem_nodesIn hchild ht)⟩

lemma Program.atHome (program : Program) : AtHome .program (root program.body) :=
  ⟨.inl rfl, program.grammatical_nodes⟩

lemma AtHome.push_eq {w : Walker} (h : AtHome w t) (ctx : Ctx) :
    ctx.walkers.push w t = ctx.handle t := by
  match t with
  | .node shape kids =>
    cases shape with
    | call callee paren =>
      have hfits : w.category.any (Shape.call callee paren).fits = true := by
        simpa [shape] using h.1
      exact if_pos (Walker.handles_of_fits hfits (.inl ⟨_, _, rfl⟩))
    | staticMember span prop =>
      have hfits : w.category.any (Shape.staticMember span prop).fits = true := by
        simpa [shape] using h.1
      exact if_pos (Walker.handles_of_fits hfits (.inr ⟨_, _, rfl⟩))
    | _ => exact ite_self _

/-- The nodes of a bundle that no walker comes to. -/
def Ctx.skipped (ctx : Ctx) (program : Program) : List Node :=
  unvisited ctx.walkers .program (root program.body)

section
variable {ctx : Ctx} {program : Program}

lemma push_spec (hspares : ctx.SparesConsole) (hsrc : ctx.source = program.source)
    {p : Walker × Node} (hp : p ∈ visited ctx.walkers .program (root program.body)) :
    (ctx.walkers.push p.1 p.2 = [] ∨
    List.Forall₂ (Lags start) (ctx.walkers.push p.1 p.2) (ctx.due p.2)) ∧
    (ctx.walkers.push p.1 p.2 = ctx.due p.2 ↔ (ctx.due p.2 ≠ [] → ctx.Plain p.2)) := by
  have hhome : AtHome p.1 p.2 :=
    visited_invariant AtHome.enter .program (root program.body) program.atHome p hp
  have hnode : p.2 ∈ nodes (root program.body) :=
    (mem_nodes_iff .program (root program.body)).mpr (.inl ⟨p.1, hp⟩)
  have hlaid : laid ctx.source p.2 = true := hsrc ▸ program.laid_nodes p.2 hnode
  rw [hhome.push_eq]
  exact Ctx.handle_spec hspares hlaid

lemma served_iff (hspares : ctx.SparesConsole) (hsrc : ctx.source = program.source) :
    Served ctx.walkers ctx.due (visited ctx.walkers .program (root program.body))
        (ctx.skipped program) ↔
    (∀ t ∈ ctx.skipped program, ctx.due t = []) ∧
    ∀ t ∈ nodes (root program.body), ctx.due t ≠ [] → ctx.Plain t := by
  have hmem : ∀ {t}, t ∈ nodes (root program.body) ↔
      (∃ w, (w, t) ∈ visited ctx.walkers .program (root program.body)) ∨
        t ∈ ctx.skipped program := mem_nodes_iff Walker.program (root program.body)
  constructor
  · rintro ⟨hvisited, hskipped⟩
    refine ⟨hskipped, fun t ht => ?_⟩
    rcases hmem.mp ht with ⟨w, hw⟩ | ht
    · exact (push_spec hspares hsrc hw).2.mp (hvisited (w, t) hw)
    · exact fun hne => absurd (hskipped t ht) hne
  · rintro ⟨hskipped, hplain⟩
    refine ⟨fun p hp => ?_, hskipped⟩
    exact (push_spec hspares hsrc hp).2.mpr (hplain p.2 (hmem.mpr (.inl ⟨p.1, hp⟩)))

end

lemma BundleTarget.sparesConsole (target : BundleTarget) (source : Octets)
    (sourceMap : Option (Nat → Nat → Option MapToken)) :
    (target.ctx source sourceMap).SparesConsole := by
  have hall : ∀ spec ∈ injectArgsForNs "millennium".toList,
      spec.path.head? ≠ some "console".toList := by decide
  cases target
  · exact hall
  · exact hall

/-- A bundle is rewritten wherever it is due exactly if nothing is due in a node that no
walker comes to, and the calls for which something is due are plain ones. -/
theorem injectsEverywhere_iff (target : BundleTarget)
    (sourceMap : Option (Nat → Nat → Option MapToken)) (program : Program) :
    InjectsEverywhere target sourceMap program ↔
      (∀ t ∈ (target.ctx program.source sourceMap).skipped program,
        (target.ctx program.source sourceMap).due t = []) ∧
      ∀ t ∈ nodes (root program.body), (target.ctx program.source sourceMap).due t ≠ [] →
        (target.ctx program.source sourceMap).Plain t := by
  have hspares := target.sparesConsole program.source sourceMap
  have hpushes : PushesFor (target.ctx program.source sourceMap).walkers
      (target.ctx program.source sourceMap).due start
      (visited (target.ctx program.source sourceMap).walkers .program (root program.body)) :=
    fun p hp => (push_spec hspares rfl hp).1
  exact (walk_perm_iff _ _ hpushes).trans (served_iff hspares rfl)

def conditionalElement : Program where
  source := encode "[c ? millennium.ffi(\"x\") : 0];".toList
  body :=
    [.node .expressionStatement (.ofList [(.expression, .node .array (.ofList [(.element,
      .node .conditional (.ofList [(.test, .node (.identifier "c".toList) .nil),
        (.consequent, .node (.call ⟨5, 19⟩ 19) (.ofList [
          (.callee, .node (.staticMember ⟨5, 19⟩ "ffi".toList) (.ofList [
            (.object, .node (.identifier "millennium".toList) .nil)])),
          (.argument, .node .leaf .nil)])),
        (.alternate, .node .leaf .nil)]))]))])]
  grammatical_nodes := by decide +kernel
  laid_nodes := by decide +kernel

/-- The call in a conditional that is an element of an array stays as it is. -/
theorem conditionalElement_not_rewritten : ¬ InjectsEverywhere .frontend none conditionalElement ∧
      applyTransforms .frontend none conditionalElement = conditionalElement.source := by
  have hpatches : (BundleTarget.frontend.ctx conditionalElement.source none).patches
      conditionalElement = [] := by decide +kernel
  constructor
  · intro h
    have hlength := h.length_eq
    revert hlength
    decide +kernel
  · rw [applyTransforms, hpatches, applyPatchesInner, mergeSort_nil, foldl_nil]

end Millennium.Starlight.Js
