import Mathlib.Data.List.Infix

/-!
# Paths by their text

A path is a flag for the leading slash and the list of its components. Its location, innermost
component first, drops `.` and lets `..` cancel the component before it. Where a path joined to a
directory ends up depends only on its climb: how often it leaves upwards in the end, and the names
it then goes down.
-/

namespace Millennium.LexicalPath

open List

abbrev Name := List Char

def dot : Name := ['.']

def dotdot : Name := ['.', '.']

/-- A component that is neither `.` nor `..`. -/
def Proper (c : Name) : Prop := c ≠ dot ∧ c ≠ dotdot

instance (c : Name) : Decidable (Proper c) := inferInstanceAs (Decidable (_ ∧ _))

/-- `std::filesystem::path`: the root directory, and the components. -/
structure LexPath where
  absolute : Bool
  comps : List Name
  deriving Repr, DecidableEq

/-- The components of a text, which any number of slashes separates. -/
def splitSlash : List Char → Name → List Name
  | [], cur => if cur = [] then [] else [cur.reverse]
  | c :: rest, cur =>
    if c = '/' then (if cur = [] then [] else [cur.reverse]) ++ splitSlash rest []
    else splitSlash rest (c :: cur)

def LexPath.ofText (s : List Char) : LexPath := ⟨s.head? = some '/', splitSlash s []⟩

/-- `operator/`: an absolute right operand replaces the left one. -/
def LexPath.join (p q : LexPath) : LexPath :=
  if q.absolute then q else ⟨p.absolute, p.comps ++ q.comps⟩

lemma LexPath.join_assoc (p q r : LexPath) : (p.join q).join r = p.join (q.join r) := by
  cases hr : r.absolute with
  | true => simp [join, hr]
  | false =>
    cases hq : q.absolute with
    | true | false => simp [join, hr, hq]

open LexPath

/-- One component further. Above the root is the root, above the working directory its parent. -/
def enter (absolute : Bool) (loc : List Name) (c : Name) : List Name :=
  if c = dot then loc
  else if c = dotdot then
    match loc with
    | [] => if absolute then [] else [dotdot]
    | top :: rest => if top = dotdot then dotdot :: loc else rest
  else c :: loc

def walk (absolute : Bool) (loc : List Name) (comps : List Name) : List Name :=
  comps.foldl (enter absolute) loc

structure Location where
  absolute : Bool
  stack : List Name
  deriving Repr, DecidableEq

def LexPath.location (p : LexPath) : Location := ⟨p.absolute, walk p.absolute [] p.comps⟩

def Location.Inside (base loc : Location) : Prop :=
  loc.absolute = base.absolute ∧ ∃ q, loc.stack = q ++ base.stack ∧ dotdot ∉ q

def Location.Below (base loc : Location) : Prop :=
  loc.absolute = base.absolute ∧ ∃ q, loc.stack = q ++ base.stack ∧ dotdot ∉ q ∧ q ≠ []

/-- The shape of a location: names, and above the working directory only `..`. -/
def Location.Normal (loc : Location) : Prop :=
  ∃ names ups, loc.stack = names ++ List.replicate ups dotdot ∧ (∀ c ∈ names, Proper c) ∧
    (loc.absolute = true → ups = 0)

/-- How often a path leaves upwards, and the names it then goes down. -/
structure Climb where
  ups : Nat
  names : List Name
  deriving Repr, DecidableEq

def Climb.step (m : Climb) (c : Name) : Climb :=
  if c = dot then m
  else if c = dotdot then
    match m.names with
    | [] => ⟨m.ups + 1, []⟩
    | _ :: rest => ⟨m.ups, rest⟩
  else ⟨m.ups, c :: m.names⟩

def climb (comps : List Name) : Climb := comps.foldl Climb.step ⟨0, []⟩

def ascend (absolute : Bool) (loc : List Name) : Nat → List Name
  | 0 => loc
  | k + 1 => enter absolute (ascend absolute loc k) dotdot

def Climb.from (m : Climb) (absolute : Bool) (loc : List Name) : List Name :=
  m.names ++ ascend absolute loc m.ups

section
variable {abs : Bool} {loc : List Name} {c : Name} {m : Climb}

@[simp] lemma enter_dot : enter abs loc dot = loc := by
  simp [enter]

lemma enter_proper (h : Proper c) : enter abs loc c = c :: loc := by
  simp [enter, h.1, h.2]

@[simp] lemma enter_dotdot_nil :
    enter abs [] dotdot = if abs then [] else [dotdot] := by
  simp [enter, dot, dotdot]

lemma enter_dotdot_cons (h : c ≠ dotdot) : enter abs (c :: loc) dotdot = loc := by
  simp [enter, h, show dotdot ≠ dot by decide]

@[simp] lemma Climb.step_dot : m.step dot = m := by
  simp [Climb.step]

lemma Climb.step_proper (h : Proper c) : m.step c = ⟨m.ups, c :: m.names⟩ := by
  simp [Climb.step, h.1, h.2]

lemma Climb.step_dotdot_nil (h : m.names = []) : m.step dotdot = ⟨m.ups + 1, []⟩ := by
  simp [Climb.step, h, show dotdot ≠ dot by decide]

lemma Climb.step_dotdot_cons {rest : List Name} (h : m.names = c :: rest) :
    m.step dotdot = ⟨m.ups, rest⟩ := by
  simp [Climb.step, h, show dotdot ≠ dot by decide]

end

lemma climb_concat (comps : List Name) (c : Name) :
    climb (comps ++ [c]) = (climb comps).step c := by
  simp [climb]

lemma walk_concat (abs : Bool) (loc comps : List Name) (c : Name) :
    walk abs loc (comps ++ [c]) = enter abs (walk abs loc comps) c := by
  simp [walk]

lemma climb_names_proper (comps : List Name) : ∀ c ∈ (climb comps).names, Proper c := by
  induction comps using List.reverseRecOn with
  | nil => simp [climb]
  | append_singleton comps c ih =>
    rw [climb_concat]
    by_cases hdot : c = dot
    · rw [hdot]
      exact ih
    by_cases hdd : c = dotdot
    · cases hn : (climb comps).names with
      | nil =>
        rw [hdd, Climb.step_dotdot_nil hn]
        simp
      | cons =>
        rw [hdd, Climb.step_dotdot_cons hn]
        intro x hx
        exact ih x (by rw [hn]; exact mem_cons_of_mem _ hx)
    · rw [Climb.step_proper ⟨hdot, hdd⟩]
      intro x hx
      rcases mem_cons.mp hx with rfl | hx
      · exact ⟨hdot, hdd⟩
      · exact ih x hx

lemma walk_eq_from (abs : Bool) (loc comps : List Name) :
    walk abs loc comps = (climb comps).from abs loc := by
  induction comps using List.reverseRecOn with
  | nil => rfl
  | append_singleton comps c ih =>
    rw [walk_concat, ih, climb_concat]
    by_cases hdot : c = dot
    · rw [hdot, enter_dot, Climb.step_dot]
    by_cases hdd : c = dotdot
    · cases hn : (climb comps).names with
      | nil =>
        rw [hdd, Climb.step_dotdot_nil hn, Climb.from, hn]
        rfl
      | cons top =>
        have htop : Proper top :=
          climb_names_proper comps top (by rw [hn]; exact mem_cons_self)
        rw [hdd, Climb.step_dotdot_cons hn, Climb.from, Climb.from, hn, cons_append,
          enter_dotdot_cons htop.2]
    · rw [enter_proper ⟨hdot, hdd⟩, Climb.step_proper ⟨hdot, hdd⟩]
      rfl

lemma ascend_of_le {abs : Bool} {names rest : List Name} (hnames : ∀ c ∈ names, Proper c)
    {k : Nat} (hk : k ≤ names.length) :
    ascend abs (names ++ rest) k = (names ++ rest).drop k := by
  induction k with
  | zero => rfl
  | succ k ih =>
    have hlt : k < names.length := hk
    have hdrop : (names ++ rest).drop k = names[k] :: (names ++ rest).drop (k + 1) := by
      rw [drop_eq_getElem_cons (by rw [length_append]; omega),
        getElem_append_left hlt]
    rw [ascend, ih (Nat.le_of_lt hlt), hdrop, enter_dotdot_cons (hnames _ (getElem_mem hlt)).2]

lemma ascend_add (abs : Bool) (loc : List Name) (i j : Nat) :
    ascend abs loc (i + j) = ascend abs (ascend abs loc i) j := by
  induction j with
  | zero => rfl
  | succ j ih => rw [Nat.add_succ, ascend, ih, ascend]

lemma ascend_root (k : Nat) : ascend true [] k = [] := by
  induction k with
  | zero => rfl
  | succ k ih => rw [ascend, ih, enter_dotdot_nil, if_pos rfl]

lemma ascend_ups (m k : Nat) :
    ascend false (List.replicate m dotdot) k = List.replicate (k + m) dotdot := by
  induction k with
  | zero => rw [ascend, Nat.zero_add]
  | succ k ih =>
    rw [ascend, ih, Nat.add_right_comm]
    cases hkm : k + m with
    | zero => rfl
    | succ => rfl

lemma LexPath.location_normal (p : LexPath) : p.location.Normal := by
  have hnames := climb_names_proper p.comps
  have hstack : p.location.stack =
      (climb p.comps).names ++ ascend p.absolute [] (climb p.comps).ups := walk_eq_from _ _ _
  cases habs : p.absolute with
  | true =>
    refine ⟨_, 0, ?_, hnames, fun _ => rfl⟩
    rw [hstack, habs, ascend_root]
    rfl
  | false =>
    refine ⟨_, (climb p.comps).ups, ?_, hnames, fun h => ?_⟩
    · rw [hstack, habs]
      exact congrArg _ (ascend_ups 0 _)
    · have habs' : p.absolute = true := h
      rw [habs] at habs'
      cases habs'

variable {base loc : Location} {p q pre : LexPath} {c : Name}

/-- After a climb within the names of a directory, or from an absolute one, its rest is left;
otherwise only parents of the working directory are. -/
lemma ascend_cases (hnormal : base.Normal) (k : Nat) :
    ((base.absolute = true ∨ k ≤ base.stack.length) ∧
    ascend base.absolute base.stack k = base.stack.drop k ∧
    ∀ c ∈ base.stack.take k, Proper c) ∨
    (base.absolute = false ∧ ∃ names ups j, base.stack = names ++ List.replicate ups dotdot ∧
    (∀ c ∈ names, Proper c) ∧ k = names.length + (j + 1) ∧
    ascend base.absolute base.stack k = List.replicate (j + 1 + ups) dotdot) := by
  obtain ⟨names, ups, hstack, hnames, habs⟩ := hnormal
  rcases Nat.lt_or_ge names.length k with hlt | hle
  · obtain ⟨j, rfl⟩ := Nat.exists_eq_add_of_lt hlt
    have hup : ascend base.absolute base.stack (names.length + (j + 1)) =
        ascend base.absolute (List.replicate ups dotdot) (j + 1) := by
      rw [ascend_add, hstack, ascend_of_le hnames (Nat.le_refl _), drop_left]
    cases hb : base.absolute with
    | true =>
      refine .inl ⟨.inl rfl, ?_, ?_⟩
      · rw [habs hb, replicate_zero, hb, ascend_root] at hup
        rw [habs hb, replicate_zero, append_nil] at hstack
        rw [← hb, Nat.add_assoc, hb, hup, drop_eq_nil_of_le (by rw [hstack]; omega)]
      · rw [habs hb, replicate_zero, append_nil] at hstack
        intro c hc
        exact hnames c (hstack ▸ mem_of_mem_take hc)
    | false =>
      refine .inr ⟨rfl, names, ups, j, hstack, hnames, by omega, ?_⟩
      rw [hb] at hup
      rw [Nat.add_assoc, hup, ascend_ups]
  · refine .inl ⟨.inr ?_, ?_, ?_⟩
    · rw [hstack, length_append]
      omega
    · rw [hstack]
      exact ascend_of_le hnames hle
    · intro c hc
      rw [hstack, take_append_of_le_length hle] at hc
      exact hnames c (mem_of_mem_take hc)

/-- A climb comes back into a directory by the names it went up. -/
def Climb.Returns (m : Climb) (base : Location) : Prop :=
  (base.absolute = true ∨ m.ups ≤ base.stack.length) ∧ base.stack.take m.ups <:+ m.names

instance (m : Climb) (base : Location) : Decidable (m.Returns base) :=
  inferInstanceAs (Decidable (_ ∧ _))

section
variable {m : Climb} {base : Location}

lemma Location.below_iff {loc : Location} :
    base.Below loc ↔ base.Inside loc ∧ loc.stack ≠ base.stack := by
  constructor
  · rintro ⟨habs, q, hq, hdd, hne⟩
    refine ⟨⟨habs, q, hq, hdd⟩, fun heq => hne ?_⟩
    rw [heq] at hq
    simpa using hq
  · rintro ⟨⟨habs, q, hq, hdd⟩, hne⟩
    refine ⟨habs, q, hq, hdd, ?_⟩
    rintro rfl
    exact hne hq

lemma Climb.Returns.ascend_eq (h : m.Returns base) (hproper : ∀ c ∈ m.names, Proper c)
    (hnormal : base.Normal) :
    ascend base.absolute base.stack m.ups = base.stack.drop m.ups := by
  rcases ascend_cases hnormal m.ups with ⟨-, hup, -⟩ | ⟨hrel, names, ups, j, hstack, -, hk, -⟩
  · exact hup
  · -- otherwise a `..` of the directory would be among the names
    obtain ⟨hok, q, hq⟩ := h
    have hle : m.ups ≤ base.stack.length := hok.resolve_left (by rw [hrel]; decide)
    have hmem : dotdot ∈ base.stack.take m.ups := by
      rw [hstack, take_append]
      refine mem_append_right _ ?_
      rw [take_replicate, mem_replicate]
      rw [hstack, length_append, length_replicate] at hle
      exact ⟨by omega, rfl⟩
    exact absurd rfl (hproper dotdot (hq ▸ mem_append_right _ hmem)).2

lemma Climb.inside_iff (hproper : ∀ c ∈ m.names, Proper c) (hnormal : base.Normal) :
    base.Inside ⟨base.absolute, m.from base.absolute base.stack⟩ ↔ m.Returns base := by
  constructor
  · rintro ⟨-, q, hq, hdd⟩
    rcases ascend_cases hnormal m.ups with
      ⟨hok, hup, -⟩ | ⟨hrel, names, ups, j, hstack, hnames, -, hup⟩
    · have hsplit : q ++ base.stack.take m.ups ++ base.stack.drop m.ups =
          m.names ++ base.stack.drop m.ups := by
        rw [append_assoc, take_append_drop, ← hup]
        exact hq.symm
      exact ⟨hok, q, append_cancel_right hsplit⟩
    · -- the climb has left the names of the directory: only `..` is left behind it
      have hsplit : m.names ++ List.replicate (j + 1) dotdot ++ List.replicate ups dotdot =
          q ++ names ++ List.replicate ups dotdot := by
        rw [append_assoc, ← replicate_add, ← hup, append_assoc, ← hstack]
        exact hq
      have hmem : dotdot ∈ q ++ names := by
        rw [← append_cancel_right hsplit]
        simp
      rcases mem_append.mp hmem with hmem | hmem
      · exact absurd hmem hdd
      · exact absurd rfl (hnames dotdot hmem).2
  · intro hreturns
    have hup := hreturns.ascend_eq hproper hnormal
    obtain ⟨-, q, hq⟩ := hreturns
    refine ⟨rfl, q, ?_, fun hdd => ?_⟩
    · calc
        m.names ++ ascend base.absolute base.stack m.ups =
            q ++ base.stack.take m.ups ++ base.stack.drop m.ups := by rw [hup, hq]
        _ = q ++ base.stack := by rw [append_assoc, take_append_drop]
    · exact (hproper dotdot (hq ▸ mem_append_left _ hdd)).2 rfl

lemma Climb.Returns.from_eq_iff (h : m.Returns base) (hproper : ∀ c ∈ m.names, Proper c)
    (hnormal : base.Normal) :
    m.from base.absolute base.stack = base.stack ↔ m.names = base.stack.take m.ups := by
  rw [Climb.from, h.ascend_eq hproper hnormal]
  constructor
  · intro heq
    have hsplit : m.names ++ base.stack.drop m.ups =
        base.stack.take m.ups ++ base.stack.drop m.ups := by
      rw [heq, take_append_drop]
    exact append_cancel_right hsplit
  · intro heq
    rw [heq, take_append_drop]

lemma Climb.below_iff (hproper : ∀ c ∈ m.names, Proper c) (hnormal : base.Normal) :
    base.Below ⟨base.absolute, m.from base.absolute base.stack⟩ ↔
    m.Returns base ∧ m.names ≠ base.stack.take m.ups := by
  rw [Location.below_iff, Climb.inside_iff hproper hnormal]
  exact and_congr_right fun hreturns => not_congr (hreturns.from_eq_iff hproper hnormal)

end

/-- The climb from a directory to a path joined to it. An absolute path starts above everything. -/
def LexPath.climbFrom (q : LexPath) (base : Location) : Climb :=
  if q.absolute then ⟨base.stack.length, (climb q.comps).names⟩ else climb q.comps

def LexPath.Reaches (q : LexPath) (base : Location) : Prop :=
  (q.absolute = true → base.absolute = true) ∧ (q.climbFrom base).Returns base

def LexPath.ReachesBelow (q : LexPath) (base : Location) : Prop :=
  q.Reaches base ∧ (q.climbFrom base).names ≠ base.stack.take (q.climbFrom base).ups

instance (q : LexPath) (base : Location) : Decidable (q.Reaches base) :=
  inferInstanceAs (Decidable (_ ∧ _))

instance (q : LexPath) (base : Location) : Decidable (q.ReachesBelow base) :=
  inferInstanceAs (Decidable (_ ∧ _))

lemma walk_append (abs : Bool) (loc a b : List Name) :
    walk abs loc (a ++ b) = walk abs (walk abs loc a) b := by
  simp [walk]

section
variable {p q : LexPath}

lemma LexPath.climbFrom_proper {base : Location} : ∀ c ∈ (q.climbFrom base).names, Proper c := by
  unfold climbFrom
  split_ifs <;> exact climb_names_proper q.comps

lemma LexPath.join_location_relative (h : q.absolute = false) : (p.join q).location =
    ⟨p.absolute, (climb q.comps).from p.absolute p.location.stack⟩ := by
  rw [join, h, if_neg (by decide), location, walk_append, walk_eq_from _ _ q.comps]
  rfl

lemma LexPath.join_location_absolute (h : q.absolute = true) :
    (p.join q).location = ⟨true, (climb q.comps).names⟩ := by
  rw [join, if_pos h, location, walk_eq_from, Climb.from, h, ascend_root, append_nil]

lemma LexPath.climbFrom_location (h : q.absolute = true → p.absolute = true) : (p.join q).location =
    ⟨p.absolute, (q.climbFrom p.location).from p.absolute p.location.stack⟩ := by
  cases hq : q.absolute with
  | false =>
    rw [join_location_relative hq, climbFrom, hq]
    rfl
  | true =>
    have hp := h hq
    have hup : ascend true p.location.stack p.location.stack.length = [] := by
      obtain ⟨names, ups, hstack, hnames, habs⟩ := p.location_normal
      rw [habs hp, replicate_zero, append_nil] at hstack
      have hall := @ascend_of_le true names [] hnames _ (Nat.le_refl _)
      rw [append_nil, drop_length] at hall
      rw [hstack, hall]
    rw [join_location_absolute hq, climbFrom, if_pos hq, Climb.from, hp, hup, append_nil]

lemma LexPath.inside_join_iff : p.location.Inside (p.join q).location ↔ q.Reaches p.location := by
  by_cases h : q.absolute = true → p.absolute = true
  · rw [climbFrom_location h]
    rw [show p.absolute = p.location.absolute from rfl,
      Climb.inside_iff climbFrom_proper p.location_normal]
    exact ⟨fun hr => ⟨h, hr⟩, fun hr => hr.2⟩
  · constructor
    · rintro ⟨habs, -⟩
      push Not at h
      rw [join_location_absolute h.1] at habs
      exact absurd habs.symm h.2
    · exact fun hr => absurd hr.1 h

lemma LexPath.below_join_iff :
    p.location.Below (p.join q).location ↔ q.ReachesBelow p.location := by
  rw [Location.below_iff, inside_join_iff]
  refine and_congr_right fun hreach => not_congr ?_
  rw [climbFrom_location hreach.1]
  exact hreach.2.from_eq_iff climbFrom_proper p.location_normal

end

lemma splitSlash_append (a b : List Char) (cur : Name) :
    splitSlash (a ++ '/' :: b) cur = splitSlash a cur ++ splitSlash b [] := by
  induction a generalizing cur with
  | nil => simp [splitSlash]
  | cons c rest ih =>
    by_cases hc : c = '/'
    · simp [splitSlash, hc, ih]
    · simp [splitSlash, hc, ih]

lemma LexPath.ofText_append {a : List Char} (ha : a ≠ []) (b : List Char) : ofText (a ++ '/' :: b) =
    (ofText a).join ⟨false, (ofText b).comps⟩ := by
  have hhead : (a ++ '/' :: b).head? = a.head? := by
    cases a with
    | nil => exact absurd rfl ha
    | cons => rfl
  rw [ofText, splitSlash_append, hhead]
  rfl

lemma splitSlash_of_not_mem {b : List Char} (h : '/' ∉ b) (hb : b ≠ []) :
    splitSlash b [] = [b] := by
  have hgen (b : List Char) (h : '/' ∉ b) (cur : Name) (hne : cur.reverse ++ b ≠ []) :
      splitSlash b cur = [cur.reverse ++ b] := by
    induction b generalizing cur with
    | nil =>
      have hcur : cur ≠ [] := by simpa using hne
      simp [splitSlash, hcur]
    | cons c rest ih =>
      rw [mem_cons, not_or] at h
      rw [splitSlash, if_neg (Ne.symm h.1), ih h.2 (c :: cur) (by simp)]
      simp
  exact hgen b h [] hb

lemma LexPath.ofText_name {c : List Char} (h : '/' ∉ c) (hne : c ≠ []) :
    ofText c = ⟨false, [c]⟩ := by
  have hhead : c.head? ≠ some '/' := fun heq => h (mem_of_mem_head? heq)
  rw [ofText, splitSlash_of_not_mem h hne, decide_eq_false hhead]

def joinText (a b : List Char) : List Char :=
  if b.head? = some '/' then b
  else if a = [] ∨ a.getLast? = some '/' then a ++ b
  else a ++ '/' :: b

lemma LexPath.ofText_joinText (a b : List Char) :
    ofText (joinText a b) = (ofText a).join (ofText b) := by
  rw [joinText]
  split_ifs with habs hend
  · exact (if_pos (decide_eq_true habs)).symm
  · have hrel : (ofText b).absolute = false := decide_eq_false habs
    rw [join, hrel]
    rcases hend with rfl | hlast
    · rw [nil_append, ofText, decide_eq_false habs]
      rfl
    · -- the slash at the end of `a` is the separator
      obtain ⟨a', rfl⟩ := getLast?_eq_some_iff.mp hlast
      have hsplit : splitSlash (a' ++ '/' :: b) [] = splitSlash (a' ++ ['/']) [] ++ splitSlash b [] := by
        rw [splitSlash_append, splitSlash_append]
        simp [splitSlash]
      have hhead : (a' ++ '/' :: b).head? = (a' ++ ['/']).head? := by
        cases a' with
        | nil => rfl
        | cons => rfl
      rw [append_assoc, singleton_append, ofText, hsplit, hhead]
      rfl
  · have hrel : (ofText b).absolute = false := decide_eq_false habs
    have hb : mk false (ofText b).comps = ofText b := by
      rw [← hrel]
    rw [ofText_append fun h => hend (.inl h), hb]

def Location.child (base : Location) (c : Name) : Location := ⟨base.absolute, c :: base.stack⟩

lemma LexPath.join_name_location (h : Proper c) :
    (p.join ⟨false, [c]⟩).location = p.location.child c := by
  change Location.mk p.absolute (walk p.absolute [] (p.comps ++ [c])) = _
  rw [walk_concat, enter_proper h]
  rfl

lemma Location.below_child_iff (h : Proper c) : base.Below (loc.child c) ↔ base.Inside loc := by
  constructor
  · rintro ⟨habs, q, hq, hdd, hne⟩
    cases q with
    | nil => exact absurd rfl hne
    | cons top q =>
      rw [child, cons_append, List.cons.injEq] at hq
      exact ⟨habs, q, hq.2, fun hmem => hdd (mem_cons_of_mem _ hmem)⟩
  · rintro ⟨habs, q, hq, hdd⟩
    refine ⟨habs, c :: q, congrArg (c :: ·) hq, fun hmem => ?_, cons_ne_nil _ _⟩
    rcases mem_cons.mp hmem with hc | hmem
    · exact h.2 hc.symm
    · exact hdd hmem

lemma Location.inside_refl (base : Location) : base.Inside base :=
  ⟨rfl, [], rfl, not_mem_nil⟩

lemma Location.Below.inside (h : base.Below loc) : base.Inside loc :=
  (Location.below_iff.mp h).1

structure Descent where
  names : List Name
  proper : ∀ c ∈ names, Proper c
  nonempty : names ≠ []

def Location.descend (base : Location) (d : Descent) : Location :=
  ⟨base.absolute, d.names.reverse ++ base.stack⟩

lemma Location.below_descend (h : base.Inside loc) (d : Descent) : base.Below (loc.descend d) := by
  obtain ⟨habs, q, hq, hdd⟩ := h
  refine ⟨habs, d.names.reverse ++ q, ?_, fun hmem => ?_, ?_⟩
  · rw [descend, hq, append_assoc]
  · rcases mem_append.mp hmem with hmem | hmem
    · exact (d.proper dotdot (mem_reverse.mp hmem)).2 rfl
    · exact hdd hmem
  · intro hnil
    exact d.nonempty (reverse_eq_nil_iff.mp (append_eq_nil_iff.mp hnil).1)

/-- A path joined to a directory in `base` stays there, or returns to below `base`. -/
def LexPath.ReachesBelowFromChild (q : LexPath) (base : Location) : Prop :=
  if q.absolute then q.ReachesBelow base
  else (climb q.comps).ups = 0 ∨
    let m : Climb := ⟨(climb q.comps).ups - 1, (climb q.comps).names⟩
    m.Returns base ∧ m.names ≠ base.stack.take m.ups

instance (q : LexPath) (base : Location) : Decidable (q.ReachesBelowFromChild base) := by
  unfold LexPath.ReachesBelowFromChild
  infer_instance

lemma ascend_child {abs : Bool} {loc : List Name} (h : Proper c) (k : Nat) :
    ascend abs (c :: loc) (k + 1) = ascend abs loc k := by
  rw [Nat.add_comm, ascend_add]
  exact congrArg (ascend abs · k) (enter_dotdot_cons h.2)

lemma LexPath.below_join_child_iff (hc : Proper c) :
    p.location.Below ((p.join ⟨false, [c]⟩).join q).location ↔
    q.ReachesBelowFromChild p.location := by
  unfold ReachesBelowFromChild
  cases hq : q.absolute with
  | true =>
    rw [if_pos rfl, ← below_join_iff, join_location_absolute hq, join_location_absolute hq]
  | false =>
    rw [join_location_relative hq, join_name_location hc]
    cases hups : (climb q.comps).ups with
    | zero =>
      refine iff_of_true ?_ (.inl rfl)
      refine ⟨rfl, (climb q.comps).names ++ [c], ?_, fun hmem => ?_, by simp⟩
      · rw [Climb.from, hups, append_assoc]
        rfl
      · rcases mem_append.mp hmem with hmem | hmem
        · exact (climb_names_proper _ _ hmem).2 rfl
        · exact hc.2 (mem_singleton.mp hmem).symm
    | succ k =>
      have hfrom : (climb q.comps).from p.absolute (p.location.child c).stack =
          (Climb.mk k (climb q.comps).names).from p.absolute p.location.stack := by
        rw [Climb.from, hups]
        exact congrArg _ (ascend_child hc k)
      have hbelow := @Climb.below_iff ⟨k, (climb q.comps).names⟩ p.location
        (climb_names_proper q.comps) p.location_normal
      rw [show (p.join ⟨false, [c]⟩).absolute = p.absolute from rfl, hfrom]
      refine Iff.trans hbelow ?_
      simp

def LexPath.Named (p : LexPath) : Prop := ∃ c ∈ p.comps.getLast?, Proper c

instance (p : LexPath) : Decidable p.Named :=
  match h : p.comps.getLast? with
  | none => isFalse (by rintro ⟨c, hc, -⟩; rw [h] at hc; cases hc)
  | some c =>
    if hc : Proper c then isTrue ⟨c, h, hc⟩
    else isFalse (by rintro ⟨c', hc', hp⟩; rw [h] at hc'; cases hc'; exact hc hp)

def LexPath.prefixes (p : LexPath) : List LexPath := p.comps.inits.map (⟨p.absolute, ·⟩)

def LexPath.way (p : LexPath) : List Location := p.prefixes.map location

/-- What `create_directories` creates: what the path names on its way and is not there. -/
def createDirectories (dirs : List Location) (p : LexPath) : List Location :=
  ((p.prefixes.filter LexPath.Named).map location).filter (· ∉ dirs)

lemma mem_createDirectories {dirs : List Location} : loc ∈ createDirectories dirs p ↔
    loc ∉ dirs ∧ ∃ pre ∈ p.prefixes, pre.Named ∧ loc = pre.location := by
  simp only [createDirectories, mem_filter, mem_map, decide_eq_true_eq]
  constructor
  · rintro ⟨⟨pre, ⟨hpre, hnamed⟩, rfl⟩, hdirs⟩
    exact ⟨hdirs, pre, hpre, hnamed, rfl⟩
  · rintro ⟨hdirs, pre, hpre, hnamed, rfl⟩
    exact ⟨⟨pre, ⟨hpre, hnamed⟩, rfl⟩, hdirs⟩

lemma LexPath.mem_way :
    loc ∈ p.way ↔ ∃ pre, pre <+: p.comps ∧ loc = (mk p.absolute pre).location := by
  simp only [way, prefixes, mem_map, mem_inits]
  constructor
  · rintro ⟨_, ⟨pre, hpre, rfl⟩, rfl⟩
    exact ⟨pre, hpre, rfl⟩
  · rintro ⟨pre, hpre, rfl⟩
    exact ⟨_, ⟨pre, hpre, rfl⟩, rfl⟩

lemma LexPath.location_mem_way (p : LexPath) : p.location ∈ p.way :=
  mem_way.mpr ⟨p.comps, prefix_rfl, rfl⟩

/-- Every directory that a path joined to `p` names is inside `p`, or on the way to `p`. -/
def LexPath.DirsStay (q p : LexPath) : Prop :=
  ∀ pre ∈ q.prefixes, pre.Named → pre.Reaches p.location ∨ (p.join pre).location ∈ p.way

instance (q p : LexPath) : Decidable (q.DirsStay p) :=
  inferInstanceAs (Decidable (∀ pre ∈ _, _))

lemma LexPath.mem_prefixes :
    pre ∈ p.prefixes ↔ pre.absolute = p.absolute ∧ pre.comps <+: p.comps := by
  simp only [prefixes, mem_map, mem_inits]
  constructor
  · rintro ⟨comps, hpre, rfl⟩
    exact ⟨rfl, hpre⟩
  · rintro ⟨habs, hpre⟩
    exact ⟨pre.comps, hpre, by rw [← habs]⟩

lemma LexPath.mem_prefixes_join (hnamed : pre.Named) (h : pre ∈ (p.join q).prefixes) :
    pre.location ∈ p.way ∨ ∃ pre' ∈ q.prefixes, pre'.Named ∧ pre = p.join pre' := by
  rw [mem_prefixes, join] at h
  split_ifs at h with hq
  · refine .inr ⟨pre, mem_prefixes.mpr h, hnamed, ?_⟩
    rw [join, if_pos (h.1.trans hq)]
  · obtain ⟨habs, hpre⟩ := h
    rcases prefix_or_prefix_of_prefix hpre (prefix_append _ _) with hshort | ⟨c, hc⟩
    · exact .inl (mem_way.mpr ⟨pre.comps, hshort, by rw [← show pre.absolute = p.absolute from habs]⟩)
    · cases c with
      | nil =>
        rw [append_nil] at hc
        exact .inl (mem_way.mpr ⟨pre.comps, by rw [hc],
          by rw [← show pre.absolute = p.absolute from habs]⟩)
      | cons n c =>
        have hq' : q.absolute = false := by simpa using hq
        rw [← hc, prefix_append_right_inj] at hpre
        refine .inr ⟨⟨false, n :: c⟩, mem_prefixes.mpr ⟨hq'.symm, hpre⟩, ?_, ?_⟩
        · obtain ⟨last, hlast, hproper⟩ := hnamed
          rw [← hc, getLast?_append_of_ne_nil _ (cons_ne_nil n c)] at hlast
          exact ⟨last, hlast, hproper⟩
        · change pre = ⟨p.absolute, p.comps ++ n :: c⟩
          rw [hc, ← show pre.absolute = p.absolute from habs]

lemma LexPath.join_mem_prefixes (hnamed : pre.Named) (h : pre ∈ q.prefixes) :
    p.join pre ∈ (p.join q).prefixes ∧ (p.join pre).Named := by
  obtain ⟨habs, hpre⟩ := mem_prefixes.mp h
  rw [mem_prefixes, join, join, ← habs]
  split_ifs with hq
  · exact ⟨⟨habs, hpre⟩, hnamed⟩
  · refine ⟨⟨rfl, (prefix_append_right_inj _).mpr hpre⟩, ?_⟩
    obtain ⟨last, hlast, hproper⟩ := hnamed
    refine ⟨last, ?_, hproper⟩
    have hne : pre.comps ≠ [] := by
      intro hnil
      rw [hnil] at hlast
      cases hlast
    rwa [getLast?_append_of_ne_nil _ hne]

lemma createDirectories_of_way {dirs : List Location} (h : p.way ⊆ dirs) :
    createDirectories dirs p = [] := by
  refine eq_nil_iff_forall_not_mem.mpr fun loc hloc => ?_
  obtain ⟨hnew, pre, hpre, -, rfl⟩ := mem_createDirectories.mp hloc
  exact hnew (h (mem_map.mpr ⟨pre, hpre, rfl⟩))

lemma LexPath.dirsStay_name (h : Proper c) (p : LexPath) : (mk false [c]).DirsStay p := by
  intro pre hpre hnamed
  obtain ⟨habs, hpre⟩ := mem_prefixes.mp hpre
  refine .inl (inside_join_iff.mp ?_)
  have hchild : pre = ⟨false, [c]⟩ := by
    rcases prefix_cons_iff.mp hpre with hnil | ⟨rest, hcons, hrest⟩
    · obtain ⟨last, hlast, -⟩ := hnamed
      rw [hnil] at hlast
      cases hlast
    · rw [prefix_nil.mp hrest] at hcons
      rw [mk.injEq]
      exact ⟨habs, hcons⟩
  rw [hchild, join_name_location h]
  exact ((Location.below_child_iff h).mpr p.location.inside_refl).inside

/-- Where `p` and the way to it are there, joining `q` creates directories below `p` only, exactly
when those of `q` stay. -/
lemma createDirectories_join_iff :
    (∀ dirs, p.way ⊆ dirs → ∀ loc ∈ createDirectories dirs (p.join q), p.location.Below loc) ↔
    q.DirsStay p := by
  constructor
  · intro h pre hpre hnamed
    by_cases hway : (p.join pre).location ∈ p.way
    · exact .inr hway
    · obtain ⟨hmem, hnamed'⟩ := join_mem_prefixes hnamed hpre
      have hbelow := h p.way (List.Subset.refl _) _
        (mem_createDirectories.mpr ⟨hway, p.join pre, hmem, hnamed', rfl⟩)
      exact .inl (inside_join_iff.mp (Location.below_iff.mp hbelow).1)
  · intro hstay dirs hdirs loc hloc
    obtain ⟨hnew, pre, hpre, hnamed, rfl⟩ := mem_createDirectories.mp hloc
    rcases mem_prefixes_join hnamed hpre with hway | ⟨pre', hpre', hnamed', rfl⟩
    · exact absurd (hdirs hway) hnew
    · rcases hstay pre' hpre' hnamed' with hreach | hway
      · have hin := inside_join_iff.mpr hreach
        refine Location.below_iff.mpr ⟨hin, fun heq => hnew (hdirs ?_)⟩
        have hloc : (p.join pre').location = p.location := by
          rw [Location.mk.injEq]
          exact ⟨hin.1, heq⟩
        rw [hloc]
        exact p.location_mem_way
      · exact absurd (hdirs hway) hnew

end Millennium.LexicalPath
