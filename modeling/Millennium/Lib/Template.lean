import Millennium.Lib.TextReplace

/-!
# Templates that are filled by replacing text

One marker after the other is replaced in the whole text, also where it stands in a value put in
earlier. Characters are marked with the hole whose value they belong to.
-/

namespace Millennium.Template

open TextReplace List Prod

/-- A stretch of a template: its own text, a hole with its marker, or a hole with a value. -/
inductive Piece (κ : Type*) where
  | own (s : List Char)
  | hole (k : κ)
  | filled (k : κ) (v : List Char)
  deriving Repr, DecidableEq

/-- A character, with the hole whose value it belongs to. -/
abbrev Marked (κ : Type*) := Char × Option κ

def put {κ : Type*} (k : κ) (v : List Char) : List (Marked κ) := v.map (·, some k)

def plain {κ : Type*} (s : List Char) : List (Marked κ) := s.map (·, none)

section
variable {κ : Type*} (marker : κ → List Char)

def Piece.chars : Piece κ → List (Marked κ)
  | .own s => plain s
  | .hole k => plain (marker k)
  | .filled k v => put k v

def flat (pieces : List (Piece κ)) : List (Marked κ) := pieces.flatMap (Piece.chars marker)

/-- What the program does instead: replace the markers in the text. -/
def runPasses (passes : List (κ × List Char)) (s : List (Marked κ)) : List (Marked κ) :=
  passes.foldl (fun s pass => replace fst (marker pass.1) (put pass.1 pass.2) s) s

/-- The text is empty, or its last character is in no marker. -/
def Ended (s : List Char) : Prop := ∀ k, ∀ c ∈ s.getLast?, c ∉ marker k

/-- No marker that begins in the marker of `k` goes on with this text. -/
def Follows (k : κ) : List (Piece κ) → Prop
  | [] => True
  | .own (c :: _) :: _ =>
    ∀ k', ∀ i < (marker k').length, 0 < i → (marker k').take i <:+ marker k →
      (marker k')[i]? ≠ some c
  | _ :: _ => False

/-- No marker goes across the end of a piece, and none stands in the template's own text. -/
def Laid : List (Piece κ) → Prop
  | [] => True
  | .own s :: rest => Ended marker s ∧ (∀ k, ¬ marker k <:+: s) ∧ Laid rest
  | .hole k :: rest => Follows marker k rest ∧ Laid rest
  | .filled _ v :: rest => Ended marker v ∧ Laid rest

structure Markers : Prop where
  nonempty : ∀ k, marker k ≠ []
  distinct : ∀ k k', k ≠ k' → ¬ marker k <:+: marker k'

def Lacks (pieces : List (Piece κ)) (k : κ) : Prop :=
  ∀ k' v, Piece.filled k' v ∈ pieces → ¬ marker k <:+: v

open Piece

variable {marker}

@[simp] lemma map_fst_put (k : κ) (v : List Char) : (put k v).map fst = v := by
  simp [put, Function.comp_def]

@[simp] lemma map_fst_plain (s : List Char) :
    (plain s : List (Marked κ)).map fst = s := by
  simp [plain, Function.comp_def]

lemma map_fst_runPasses (passes : List (κ × List Char)) (s : List (Marked κ)) :
    (runPasses marker passes s).map fst =
    passes.foldl (fun s pass => replace id (marker pass.1) pass.2 s) (s.map fst) := by
  induction passes generalizing s with
  | nil => rfl
  | cons pass rest ih =>
    rw [runPasses, foldl_cons, ← runPasses, ih, foldl_cons]
    congr 1
    have h := map_replace (marker pass.1) (put pass.1 pass.2) id fst s
    rwa [map_fst_put] at h

lemma map_fst_splitFirst_runPasses (pat : List Char) (passes : List (κ × List Char))
    (s : List (Marked κ)) :
    (splitFirst fst pat (runPasses marker passes s)).map
        (fun halves => (halves.1.map fst, halves.2.map fst)) =
    splitFirst id pat
        (passes.foldl (fun s pass => replace id (marker pass.1) pass.2 s) (s.map fst)) := by
  rw [← map_fst_runPasses, ← map_splitFirst, Function.id_comp]

@[simp] lemma flat_nil : flat marker ([] : List (Piece κ)) = [] := rfl

@[simp] lemma flat_cons (piece : Piece κ) (rest : List (Piece κ)) :
    flat marker (piece :: rest) = piece.chars marker ++ flat marker rest := rfl

@[simp] lemma flat_append (front back : List (Piece κ)) :
    flat marker (front ++ back) = flat marker front ++ flat marker back := by
  simp [flat]

variable {rest pieces : List (Piece κ)} {k k' : κ} {passes : List (κ × List Char)} {v : List Char}

lemma Laid.apart {piece : Piece κ} (h : Laid marker (piece :: rest)) (k : κ) :
    Apart (marker k) ((piece.chars marker).map fst) ((flat marker rest).map fst) := by
  cases piece with
  | own | filled => exact apart_of_last (by simpa [Piece.chars] using h.1 k)
  | hole =>
    match rest, h.1 with
    | [], _ =>
      intro i _ hlt _ hdrop
      simp only [flat_nil, map_nil, prefix_nil, drop_eq_nil_iff] at hdrop
      omega
    | .own (c :: s) :: rest, hfollows =>
      simp only [Piece.chars, map_fst_plain]
      exact apart_of_next (hfollows k)

lemma Laid.tail {piece : Piece κ} (h : Laid marker (piece :: rest)) :
    Laid marker rest := by
  cases piece with
  | own => exact h.2.2
  | hole => exact h.2
  | filled => exact h.2

lemma Laid.own {s : List Char} (h : Laid marker pieces) (hs : Piece.own s ∈ pieces) (k : κ) :
    ¬ marker k <:+: s := by
  induction pieces with
  | nil => simp at hs
  | cons piece rest ih =>
    rcases mem_cons.mp hs with rfl | hmem
    · exact h.2.1 k
    · exact ih h.tail hmem

lemma replace_flat (k : κ) (val : List (Marked κ))
    (h : Laid marker pieces) :
    replace fst (marker k) val (flat marker pieces) =
    pieces.flatMap fun piece => replace fst (marker k) val (piece.chars marker) := by
  induction pieces with
  | nil => simp
  | cons piece rest ih =>
    rw [flat_cons, replace_append _ _ (h.apart k), ih h.tail, flatMap_cons]

lemma splitFirst_flat {front back : List (Piece κ)} (hmarkers : Markers marker)
    (hlaid : Laid marker (front ++ hole k :: back)) (hopen : hole k ∉ front)
    (hlacks : Lacks marker front k) :
    splitFirst fst (marker k) (flat marker (front ++ hole k :: back)) =
    some (flat marker front, flat marker back) := by
  induction front with
  | nil =>
    rw [nil_append] at hlaid ⊢
    rw [flat_cons, splitFirst_append _ (hlaid.apart k),
      splitFirst_self _ (by simp [Piece.chars]) (hmarkers.nonempty k)]
    rfl
  | cons piece front ih =>
    have hnone : splitFirst fst (marker k) (piece.chars marker) = none := by
      refine splitFirst_of_not_mem _ ?_
      cases piece with
      | own => simpa [Piece.chars] using hlaid.own (by simp) k
      | filled k' v => simpa [Piece.chars] using hlacks k' v (by simp)
      | hole k' =>
        have hne : k ≠ k' := fun heq => hopen (by simp [heq])
        simpa [Piece.chars] using hmarkers.distinct k k' hne
    have hrest := ih hlaid.tail (fun hmem => hopen (mem_cons_of_mem _ hmem))
      fun k' v hmem => hlacks k' v (mem_cons_of_mem _ hmem)
    rw [cons_append] at hlaid ⊢
    rw [flat_cons, splitFirst_append _ (hlaid.apart k), hnone, hrest]
    rfl

variable [DecidableEq κ]

def Piece.fill (k : κ) (v : List Char) : Piece κ → Piece κ
  | .hole k' => if k' = k then .filled k v else .hole k'
  | piece => piece

def fillAll (passes : List (κ × List Char)) (pieces : List (Piece κ)) : List (Piece κ) :=
  passes.foldl (fun pieces pass => pieces.map (Piece.fill pass.1 pass.2)) pieces

@[simp] lemma fillAll_append (passes : List (κ × List Char)) (front back : List (Piece κ)) :
    fillAll passes (front ++ back) = fillAll passes front ++ fillAll passes back := by
  induction passes generalizing front back with
  | nil => rfl
  | cons pass rest ih => simpa [fillAll] using ih _ _

lemma fillAll_cons_hole (h : ∀ pass ∈ passes, pass.1 ≠ k) (rest : List (Piece κ)) :
    fillAll passes (hole k :: rest) = hole k :: fillAll passes rest := by
  induction passes generalizing rest with
  | nil => rfl
  | cons pass passes ih =>
    have hne : k ≠ pass.1 := (h pass (by simp)).symm
    simp only [fillAll, foldl_cons, map_cons, Piece.fill, if_neg hne]
    exact ih (fun p hp => h p (mem_cons_of_mem _ hp)) _

lemma fillAll_own (passes : List (κ × List Char)) (s : List Char) :
    fillAll passes [Piece.own s] = [Piece.own s] := by
  induction passes with
  | nil => rfl
  | cons pass rest ih =>
    exact ih

lemma Follows.fill (h : Follows marker k' rest) :
    Follows marker k' (rest.map (Piece.fill k v)) := by
  match rest, h with
  | [], _ => trivial
  | .own (_ :: _) :: _, h => exact h

lemma Laid.fill (hv : Ended marker v) (h : Laid marker pieces) :
    Laid marker (pieces.map (Piece.fill k v)) := by
  induction pieces with
  | nil => trivial
  | cons piece rest ih =>
    cases piece with
    | own => exact ⟨h.1, h.2.1, ih h.2.2⟩
    | filled => exact ⟨h.1, ih h.2⟩
    | hole =>
      rw [map_cons, Piece.fill]
      split_ifs
      · exact ⟨hv, ih h.2⟩
      · exact ⟨h.1.fill, ih h.2⟩

lemma Piece.filled_mem_fill {v' : List Char} : filled k' v' ∈ pieces.map (Piece.fill k v) ↔
    filled k' v' ∈ pieces ∨ (k' = k ∧ v' = v ∧ hole k ∈ pieces) := by
  rw [mem_map]
  constructor
  · rintro ⟨piece, hmem, heq⟩
    cases piece with
    | own => simp [Piece.fill] at heq
    | filled => exact .inl (heq ▸ hmem)
    | hole =>
      rw [Piece.fill] at heq
      split_ifs at heq with hk
      obtain ⟨rfl, rfl⟩ := filled.inj heq
      exact .inr ⟨rfl, rfl, hk ▸ hmem⟩
  · rintro (hmem | ⟨rfl, rfl, hmem⟩)
    · exact ⟨_, hmem, rfl⟩
    · exact ⟨_, hmem, by simp [Piece.fill]⟩

lemma Piece.hole_mem_fill : hole k' ∈ pieces.map (Piece.fill k v) ↔ hole k' ∈ pieces ∧ k' ≠ k := by
  rw [mem_map]
  constructor
  · rintro ⟨piece, hmem, heq⟩
    cases piece with
    | own | filled => simp [Piece.fill] at heq
    | hole =>
      rw [Piece.fill] at heq
      split_ifs at heq with hk
      obtain rfl := hole.inj heq
      exact ⟨hmem, hk⟩
  · rintro ⟨hmem, hne⟩
    exact ⟨_, hmem, by simp [Piece.fill, hne]⟩

lemma filled_mem_fillAll (hnodup : (passes.map fst).Nodup) : filled k v ∈ fillAll passes pieces ↔
    filled k v ∈ pieces ∨ ((k, v) ∈ passes ∧ hole k ∈ pieces) := by
  induction passes generalizing pieces with
  | nil => simp [fillAll]
  | cons pass rest ih =>
    obtain ⟨hfirst, hrest⟩ := nodup_cons.mp hnodup
    have hne : (k, v) ∈ rest → k ≠ pass.1 := fun hmem heq =>
      hfirst (heq ▸ mem_map_of_mem (f := fst) hmem)
    rw [fillAll, foldl_cons, ← fillAll, ih hrest, Piece.filled_mem_fill,
      Piece.hole_mem_fill, mem_cons]
    constructor
    · rintro ((hold | ⟨rfl, rfl, hmem⟩) | ⟨hpass, hmem, -⟩)
      · exact .inl hold
      · exact .inr ⟨.inl rfl, hmem⟩
      · exact .inr ⟨.inr hpass, hmem⟩
    · rintro (hold | ⟨rfl | hpass, hmem⟩)
      · exact .inl (.inl hold)
      · exact .inl (.inr ⟨rfl, rfl, hmem⟩)
      · exact .inr ⟨hpass, hmem, hne hpass⟩

lemma replace_chars (hmarkers : Markers marker) (k : κ) (v : List Char) (piece : Piece κ)
    (hown : ∀ s, piece = .own s → ¬ marker k <:+: s)
    (hfilled : ∀ k' v', piece = .filled k' v' → ¬ marker k <:+: v') :
    replace fst (marker k) (put k v) (piece.chars marker) =
    (piece.fill k v).chars marker := by
  cases piece with
  | own s => exact replace_of_not_mem _ _ (by simpa [Piece.chars] using hown s rfl)
  | filled k' v' => exact replace_of_not_mem _ _ (by simpa [Piece.chars] using hfilled k' v' rfl)
  | hole k' =>
    by_cases hk : k' = k
    · subst hk
      rw [Piece.fill, if_pos rfl]
      exact replace_self _ _ (by simp [Piece.chars]) (hmarkers.nonempty k')
    · rw [Piece.fill, if_neg hk]
      refine replace_of_not_mem _ _ ?_
      simpa [Piece.chars] using hmarkers.distinct k k' (Ne.symm hk)

lemma replace_flat_of_lacks (hmarkers : Markers marker) (h : Laid marker pieces)
    (hlacks : Lacks marker pieces k) :
    replace fst (marker k) (put k v) (flat marker pieces) =
    flat marker (pieces.map (Piece.fill k v)) := by
  rw [replace_flat k _ h, flat, flatMap_map]
  refine flatMap_congr fun piece hpiece => ?_
  refine replace_chars hmarkers k v piece ?_ ?_
  · rintro s rfl
    exact h.own hpiece k
  · rintro k' v' rfl
    exact hlacks k' v' hpiece

def amount (k : κ) (s : List (Marked κ)) : Nat := s.countP fun c => c.2 = some k

@[simp] lemma amount_append (k : κ) (s s' : List (Marked κ)) :
    amount k (s ++ s') = amount k s + amount k s' := by
  simp [amount]

lemma amount_put_ne (h : k' ≠ k) (v : List Char) : amount k (put k' v) = 0 := by
  simp [amount, put, h]

lemma amount_plain (k : κ) (s : List Char) : amount k (plain s) = 0 := by
  simp [amount, plain]

lemma amount_replace_le (h : k' ≠ k) (pat v : List Char) (s : List (Marked κ)) :
    amount k (replace fst pat (put k' v) s) ≤ amount k s :=
  countP_replace_le _ (amount_put_ne h v) s

lemma amount_replace_flat_lt (hmarkers : Markers marker) {v' : List Char} (h : Laid marker pieces)
    (hmem : filled k' v' ∈ pieces) (hin : marker k <:+: v') (hk : k ≠ k') :
    amount k' (replace fst (marker k) (put k v) (flat marker pieces)) <
    amount k' (flat marker pieces) := by
  induction pieces with
  | nil => simp at hmem
  | cons piece rest ih =>
    rw [flat_cons, replace_append _ _ (h.apart k), amount_append, amount_append]
    rcases mem_cons.mp hmem with rfl | hrest
    · refine Nat.add_lt_add_of_lt_of_le ?_ (amount_replace_le hk _ _ _)
      refine countP_replace_lt _ (amount_put_ne hk v) ?_ (by simpa [Piece.chars] using hin)
        (hmarkers.nonempty k)
      simp [Piece.chars, put]
    · exact Nat.add_lt_add_of_le_of_lt (amount_replace_le hk _ _ _) (ih h.tail hrest)

lemma amount_chars_fill (h : k ≠ k') (v : List Char) (piece : Piece κ) :
    amount k' ((piece.fill k v).chars marker) = amount k' (piece.chars marker) := by
  cases piece with
  | own => rfl
  | filled => rfl
  | hole =>
    rw [Piece.fill]
    split_ifs
    · exact (amount_put_ne h v).trans (amount_plain k' _).symm
    · rfl

lemma amount_fill (h : k ≠ k') (v : List Char) (pieces : List (Piece κ)) :
    amount k' (flat marker (pieces.map (Piece.fill k v))) = amount k' (flat marker pieces) := by
  induction pieces with
  | nil => rfl
  | cons piece rest ih =>
    rw [map_cons, flat_cons, flat_cons, amount_append, amount_append, ih, amount_chars_fill h]

lemma amount_fillAll (h : ∀ pass ∈ passes, pass.1 ≠ k) (pieces : List (Piece κ)) :
    amount k (flat marker (fillAll passes pieces)) = amount k (flat marker pieces) := by
  induction passes generalizing pieces with
  | nil => rfl
  | cons pass rest ih =>
    rw [fillAll, foldl_cons, ← fillAll, ih (fun p hp => h p (mem_cons_of_mem _ hp)),
      amount_fill (h pass (by simp))]

lemma amount_runPasses_le (h : ∀ pass ∈ passes, pass.1 ≠ k) (s : List (Marked κ)) :
    amount k (runPasses marker passes s) ≤ amount k s := by
  induction passes generalizing s with
  | nil => exact Nat.le_refl _
  | cons pass rest ih =>
    exact (ih (fun p hp => h p (mem_cons_of_mem _ hp)) _).trans
      (amount_replace_le (h pass (by simp)) _ _ _)

/-- What the passes need: each has open holes of its own, and its value keeps the pieces apart. -/
structure Ready (marker : κ → List Char) (passes : List (κ × List Char))
    (pieces : List (Piece κ)) : Prop where
  laid : Laid marker pieces
  nodup : (passes.map fst).Nodup
  open_ : ∀ pass ∈ passes, hole pass.1 ∈ pieces
  ended : ∀ pass ∈ passes, Ended marker pass.2
  fresh : ∀ k v, filled k v ∈ pieces → ∀ pass ∈ passes, pass.1 ≠ k

lemma Ready.next {pass : κ × List Char} {rest : List (κ × List Char)}
    (h : Ready marker (pass :: rest) pieces) :
    Ready marker rest (pieces.map (Piece.fill pass.1 pass.2)) := by
  have hnodup := nodup_cons.mp h.nodup
  have hne : ∀ p ∈ rest, p.1 ≠ pass.1 := fun p hp heq =>
    hnodup.1 (heq ▸ mem_map_of_mem hp)
  refine ⟨h.laid.fill (h.ended pass (by simp)), hnodup.2, ?_, ?_, ?_⟩
  · exact fun p hp =>
      Piece.hole_mem_fill.mpr ⟨h.open_ p (mem_cons_of_mem _ hp), hne p hp⟩
  · exact fun p hp => h.ended p (mem_cons_of_mem _ hp)
  · intro k v hmem p hp
    rcases Piece.filled_mem_fill.mp hmem with hold | ⟨rfl, -, -⟩
    · exact h.fresh k v hold p (mem_cons_of_mem _ hp)
    · exact hne p hp

/-- No value contains a marker that is looked for after the value was put in. -/
def Clean (marker : κ → List Char) (passes : List (κ × List Char)) (pieces : List (Piece κ)) :
    Prop :=
  (∀ pass ∈ passes, Lacks marker pieces pass.1) ∧
    passes.Pairwise fun earlier later => ¬ marker later.1 <:+: earlier.2

lemma clean_cons_iff {pass : κ × List Char} {rest : List (κ × List Char)}
    (hopen : hole pass.1 ∈ pieces) :
    Clean marker (pass :: rest) pieces ↔
    Lacks marker pieces pass.1 ∧
    Clean marker rest (pieces.map (Piece.fill pass.1 pass.2)) := by
  have hfill : ∀ k, Lacks marker (pieces.map (Piece.fill pass.1 pass.2)) k ↔
      Lacks marker pieces k ∧ ¬ marker k <:+: pass.2 := by
    intro k
    constructor
    · intro h
      exact ⟨fun k' v hmem => h k' v (Piece.filled_mem_fill.mpr (.inl hmem)),
        h pass.1 pass.2 (Piece.filled_mem_fill.mpr (.inr ⟨rfl, rfl, hopen⟩))⟩
    · rintro ⟨hold, hnew⟩ k' v hmem
      rcases Piece.filled_mem_fill.mp hmem with hmem | ⟨rfl, rfl, -⟩
      · exact hold k' v hmem
      · exact hnew
  simp only [Clean, forall_mem_cons, pairwise_cons, hfill]
  constructor
  · rintro ⟨⟨hpass, hrest⟩, hlater, hpairs⟩
    exact ⟨hpass, fun p hp => ⟨hrest p hp, hlater p hp⟩, hpairs⟩
  · rintro ⟨hpass, hrest, hpairs⟩
    exact ⟨⟨hpass, fun p hp => (hrest p hp).1⟩, fun p hp => (hrest p hp).2, hpairs⟩

lemma runPasses_of_clean (hmarkers : Markers marker) (hready : Ready marker passes pieces)
    (hclean : Clean marker passes pieces) :
    runPasses marker passes (flat marker pieces) = flat marker (fillAll passes pieces) := by
  induction passes generalizing pieces with
  | nil => rfl
  | cons pass rest ih =>
    obtain ⟨hlacks, hrest⟩ := (clean_cons_iff (hready.open_ pass (by simp))).mp hclean
    rw [runPasses, foldl_cons, replace_flat_of_lacks hmarkers hready.laid hlacks]
    exact ih hready.next hrest

/-- Passes that are not clean take characters away from a value that was put in. -/
lemma amount_runPasses_lt (hmarkers : Markers marker) (hready : Ready marker passes pieces)
    (hdirty : ¬ Clean marker passes pieces) :
    ∃ k, ((∃ v, filled k v ∈ pieces) ∨ k ∈ passes.map fst) ∧
    amount k (runPasses marker passes (flat marker pieces)) <
    amount k (flat marker (fillAll passes pieces)) := by
  induction passes generalizing pieces with
  | nil => exact (hdirty ⟨by simp, List.Pairwise.nil⟩).elim
  | cons pass rest ih =>
    have hopen := hready.open_ pass (by simp)
    rw [clean_cons_iff hopen, not_and_or] at hdirty
    simp only [runPasses, foldl_cons]
    by_cases hlacks : Lacks marker pieces pass.1
    · rw [replace_flat_of_lacks hmarkers hready.laid hlacks]
      obtain ⟨k, hk, hlt⟩ := ih hready.next (hdirty.resolve_left (not_not_intro hlacks))
      refine ⟨k, ?_, hlt⟩
      rcases hk with ⟨v, hmem⟩ | hmem
      · rcases Piece.filled_mem_fill.mp hmem with hold | ⟨rfl, -, -⟩
        · exact .inl ⟨v, hold⟩
        · exact .inr (by simp)
      · exact .inr (mem_cons_of_mem _ hmem)
    · -- this pass hits a value, and the later ones do not give its characters back
      simp only [Lacks, not_forall, not_not] at hlacks
      obtain ⟨k, v, hmem, hin⟩ := hlacks
      have hne := hready.fresh k v hmem
      have hrest : ∀ p ∈ rest, p.1 ≠ k := fun p hp => hne p (mem_cons_of_mem _ hp)
      refine ⟨k, .inl ⟨v, hmem⟩, ?_⟩
      calc amount k (runPasses marker rest _)
          ≤ amount k (replace fst (marker pass.1) (put pass.1 pass.2) (flat marker pieces)) :=
            amount_runPasses_le hrest _
        _ < amount k (flat marker pieces) :=
            amount_replace_flat_lt hmarkers hready.laid hmem hin (hne pass (by simp))
        _ = amount k (flat marker (pieces.map (Piece.fill pass.1 pass.2))) :=
            (amount_fill (hne pass (by simp)) _ _).symm
        _ = amount k (flat marker (fillAll rest _)) := (amount_fillAll hrest _).symm

lemma amount_splitFirst_lt {front back : List (Piece κ)} (hmarkers : Markers marker)
    (hlaid : Laid marker (front ++ hole k :: back)) (hopen : hole k ∉ front)
    (hdirty : ¬ Lacks marker front k) :
    ∃ before after k', splitFirst fst (marker k)
        (flat marker (front ++ hole k :: back)) = some (before, after) ∧
    (∃ v, filled k' v ∈ front) ∧
    amount k' before + amount k' after <
    amount k' (flat marker (front ++ hole k :: back)) := by
  induction front with
  | nil => exact (hdirty fun k' v hmem => by simp at hmem).elim
  | cons piece front ih =>
    rw [cons_append] at hlaid ⊢
    rw [flat_cons, splitFirst_append _ (hlaid.apart k)]
    by_cases hin : marker k <:+: (piece.chars marker).map fst
    · obtain ⟨before, after, hsplit⟩ := exists_splitFirst _ hin (hmarkers.nonempty k)
      obtain ⟨found, hfound, hchars⟩ := splitFirst_spec _ hsplit
      cases piece with
      | own => exact (hlaid.2.1 k (by simpa [Piece.chars] using hin)).elim
      | hole k' =>
        have hne : k ≠ k' := fun heq => hopen (by simp [heq])
        exact (hmarkers.distinct k k' hne (by simpa [Piece.chars] using hin)).elim
      | filled k' v =>
        refine ⟨before, after ++ flat marker (front ++ hole k :: back), k', ?_, ⟨v, by simp⟩, ?_⟩
        · rw [hsplit]
        · have hpos : 0 < amount k' found := by
            have hall : ∀ x ∈ found, decide (x.2 = some k') = true := by
              intro x hx
              have hmem : x ∈ (filled k' v).chars marker := by rw [hchars]; simp [hx]
              obtain ⟨c, -, rfl⟩ := mem_map.mp hmem
              simp
            rw [amount, countP_eq_length.mpr hall]
            have hlen := congrArg List.length hfound
            have hne := length_pos_iff.mpr (hmarkers.nonempty k)
            rw [length_map] at hlen
            omega
          rw [hchars]
          simp only [amount_append]
          omega
    · have hrest : ¬ Lacks marker front k := by
        intro hlacks
        refine hdirty fun k' v hmem => ?_
        rcases mem_cons.mp hmem with rfl | hmem
        · simpa [Piece.chars] using hin
        · exact hlacks k' v hmem
      obtain ⟨before, after, k', hsplit, ⟨v, hmem⟩, hlt⟩ :=
        ih hlaid.tail (fun hmem => hopen (mem_cons_of_mem _ hmem)) hrest
      refine ⟨piece.chars marker ++ before, after, k', ?_, ⟨v, mem_cons_of_mem _ hmem⟩, ?_⟩
      · rw [splitFirst_of_not_mem _ hin, hsplit]
        rfl
      · rw [amount_append, amount_append]
        omega

section
variable {passes : List (κ × List Char)} {k : κ} {front back : List (Piece κ)}

variable {pieces : List (Piece κ)}

lemma Ready.laid_fillAll (h : Ready marker passes pieces) :
    Laid marker (fillAll passes pieces) := by
  induction passes generalizing pieces with
  | nil => exact h.laid
  | cons pass rest ih => exact ih h.next

lemma fillAll_hole (hpass : ∀ pass ∈ passes, pass.1 ≠ k) (front back : List (Piece κ)) :
    fillAll passes (front ++ hole k :: back) =
    fillAll passes front ++ hole k :: fillAll passes back := by
  rw [fillAll_append, fillAll_cons_hole hpass]

lemma hole_mem_fillAll (h : hole k ∈ fillAll passes pieces) : hole k ∈ pieces := by
  induction passes generalizing pieces with
  | nil => exact h
  | cons pass rest ih => exact (Piece.hole_mem_fill.mp (ih h)).1

lemma lacks_fillAll_iff (hnodup : (passes.map fst).Nodup)
    (hnone : ∀ k v, filled k v ∉ pieces) (k : κ) :
    Lacks marker (fillAll passes pieces) k ↔
    ∀ pass ∈ passes, hole pass.1 ∈ pieces → ¬ marker k <:+: pass.2 := by
  simp only [Lacks, filled_mem_fillAll hnodup, hnone, false_or]
  exact ⟨fun h pass hmem hhole => h pass.1 pass.2 ⟨hmem, hhole⟩,
    fun h k' v hmem => h (k', v) hmem.1 hmem.2⟩

lemma amount_filled {k' : κ} (hk : k' ≠ k) (v : List Char) :
    amount k' (flat marker (front ++ filled k v :: back)) =
    amount k' (flat marker (front ++ hole k :: back)) := by
  simp only [flat_append, flat_cons, amount_append, Piece.chars, amount_put_ne (Ne.symm hk),
    amount_plain]

section
variable (hmarkers : Markers marker) (hready : Ready marker passes (front ++ hole k :: back))
  (hpass : ∀ pass ∈ passes, pass.1 ≠ k) (hopen : hole k ∉ front)
include hmarkers hready hpass hopen

/-- Clean passes leave the marker that is looked for last where it stands in the template. -/
lemma splitFirst_runPasses_of_clean
    (hclean : Clean marker passes (front ++ hole k :: back))
    (hlacks : Lacks marker (fillAll passes front) k) :
    splitFirst fst (marker k)
        (runPasses marker passes (flat marker (front ++ hole k :: back))) =
    some (flat marker (fillAll passes front), flat marker (fillAll passes back)) := by
  have hfill := fillAll_hole hpass front back
  rw [runPasses_of_clean hmarkers hready hclean, hfill]
  exact splitFirst_flat hmarkers (hfill ▸ hready.laid_fillAll) (fun hmem => hopen (hole_mem_fillAll hmem)) hlacks

/-- All passes, and then one value at the first occurrence of its marker: the result is the
template with every value in its own holes if and only if no value contains a marker that is
looked for later. -/
lemma filled_iff
    (hnone : ∀ k' v, filled k' v ∉ front ++ hole k :: back)
    (v w : List Char) (tail : List (Marked κ)) :
    (∃ before after, splitFirst fst (marker k)
        (runPasses marker passes (flat marker (front ++ hole k :: back))) =
    some (before, after) ∧
    before ++ put k v ++ after ++ tail =
    flat marker (fillAll passes front ++ filled k w :: fillAll passes back) ++ tail) ↔
    passes.Pairwise (fun earlier later => ¬ marker later.1 <:+: earlier.2) ∧
    (∀ pass ∈ passes, hole pass.1 ∈ front → ¬ marker k <:+: pass.2) ∧ v = w := by
  have hclean : Clean marker passes (front ++ hole k :: back) ↔
      passes.Pairwise fun earlier later => ¬ marker later.1 <:+: earlier.2 :=
    and_iff_right fun _ _ k' v hmem => (hnone k' v hmem).elim
  have hfront : ∀ k' v, filled k' v ∉ front := fun k' v hmem =>
    hnone k' v (mem_append_left _ hmem)
  have hlacks : Lacks marker (fillAll passes front) k ↔
      ∀ pass ∈ passes, hole pass.1 ∈ front → ¬ marker k <:+: pass.2 :=
    lacks_fillAll_iff hready.nodup hfront k
  have hfill := fillAll_hole hpass front back
  have hlaid : Laid marker (fillAll passes front ++ hole k :: fillAll passes back) :=
    hfill ▸ hready.laid_fillAll
  have hstill : hole k ∉ fillAll passes front := fun hmem => hopen (hole_mem_fillAll hmem)
  rw [← hclean, ← hlacks]
  constructor
  · rintro ⟨before, after, hsplit, heq⟩
    -- a value that lost characters does not get them back
    have hkeep : ∀ k', k' ≠ k → amount k' before + amount k' after =
        amount k' (flat marker (fillAll passes front ++ hole k :: fillAll passes back)) := by
      intro k' hk
      have hsame := congrArg (amount k') heq
      simp only [amount_append, amount_put_ne (Ne.symm hk)] at hsame
      rw [amount_filled hk] at hsame
      omega
    by_cases hc : Clean marker passes (front ++ hole k :: back)
    · by_cases hl : Lacks marker (fillAll passes front) k
      · rw [splitFirst_runPasses_of_clean hmarkers hready hpass hopen hc hl] at hsplit
        obtain ⟨rfl, rfl⟩ := mk.inj (Option.some.inj hsplit)
        have hput : put k v = put k w := by
          simpa [Piece.chars] using heq
        exact ⟨hc, hl, by simpa using congrArg (List.map fst) hput⟩
      · rw [runPasses_of_clean hmarkers hready hc, hfill] at hsplit
        obtain ⟨b, a, k', hsplit', ⟨v', hmem⟩, hlt⟩ :=
          amount_splitFirst_lt hmarkers hlaid hstill hl
        obtain ⟨rfl, rfl⟩ := mk.inj (Option.some.inj (hsplit.symm.trans hsplit'))
        have hmem' := ((filled_mem_fillAll hready.nodup).mp hmem).resolve_left (hfront k' v')
        have := hkeep k' (hpass _ hmem'.1)
        omega
    · obtain ⟨k', hk', hlt⟩ := amount_runPasses_lt hmarkers hready hc
      obtain ⟨pass, hpass', rfl⟩ :=
        mem_map.mp (hk'.resolve_left fun hmem => hnone _ _ hmem.choose_spec)
      obtain ⟨found, -, hrun⟩ := splitFirst_spec _ hsplit
      have hle : amount pass.1 before + amount pass.1 after ≤
          amount pass.1 (runPasses marker passes (flat marker (front ++ hole k :: back))) := by
        rw [hrun]
        simp only [amount_append]
        omega
      have := hkeep pass.1 (hpass pass hpass')
      rw [hfill] at hlt
      omega
  · rintro ⟨hc, hl, rfl⟩
    refine ⟨_, _, splitFirst_runPasses_of_clean hmarkers hready hpass hopen hc hl, ?_⟩
    simp [Piece.chars]

end

end

end

end Millennium.Template
