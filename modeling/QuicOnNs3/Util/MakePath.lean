import Mathlib.Algebra.Group.Nat.Defs
import QuicOnNs3.Lib.DirectoryTree

/-!
# Making the trace folders

`MakePath` makes a directory and the ancestors that are missing.  It cuts the path at
its last slash, makes what stands before it, and calls `mkdir` again, whose `EEXIST` is
then a failure.  So a path that ends in a slash fails when the ancestors were missing:
the first call for the shorter path has made the directory itself (`makePath_plain`).

`mkdir` and `stat` are those of `DirectoryTree`, on the segments between the slashes.
-/

namespace QuicOnNs3.Util

open QuicOnNs3.DirectoryTree QuicOnNs3.DirectoryTree.Tree

/-! ## Path strings -/

/-- A path as the system calls read it from `c_str()`: nothing after a NUL character is
read, and a string with more characters than an `int` counts exceeds `PATH_MAX`. -/
structure Path where
  chars : List Char
  noNul : '\x00' ∉ chars
  length_lt : chars.length < 2 ^ 31

/-- The names of the files. -/
abbrev Name := List Char

abbrev FileTree := DirectoryTree.Tree Name

/-- `path.substr(0, pos)`. -/
def Path.substr (path : Path) (pos : Nat) : Path where
  chars := path.chars.take pos
  noNul h := path.noNul (List.mem_of_mem_take h)
  length_lt := lt_of_le_of_lt (List.length_take_le' ..) path.length_lt

/-- `find_last_of`, with `none` for `npos`. -/
def findLastOf (c : Char) : List Char → Option Nat
  | [] => none
  | x :: xs =>
    match findLastOf c xs with
    | some pos => some (pos + 1)
    | none => if x = c then some 0 else none

/-- What stands between two slashes. -/
def segment : List Char → Segment Name
  | [] => .empty
  | ['.'] => .dot
  | ['.', '.'] => .dotdot
  | name => .name name

/-- The segments of a path. -/
def Path.segments (path : Path) : List (Segment Name) :=
  (path.chars.splitOn '/').map segment

/-- Where a path starts: at the root after a leading slash, else in the working
directory. -/
def Path.start (t : FileTree) (path : Path) : List Name :=
  if path.chars.head? = some '/' then [] else t.cwd

/-- The location that a path names. -/
def Path.resolve (t : FileTree) (path : Path) : Except Errno (List Name) :=
  if path.chars = [] then .error .noent else t.walk (path.start t) path.segments

/-- A path names a directory. -/
def NamesDirectory (t : FileTree) (path : Path) : Prop :=
  ∃ l, path.resolve t = .ok l ∧ t.typeOf l = some .directory

/-! ## The functions of the source -/

/-- `mkdir`. -/
def mkdir (t : FileTree) (path : Path) : Except Errno FileTree :=
  if path.chars = [] then .error .noent else t.mkdir (path.start t) path.segments

/-- `stat`, of which the type of the file is read. -/
def stat (t : FileTree) (path : Path) : Except Errno (Option FileType) := do
  let l ← path.resolve t
  pure (t.typeOf l)

/-- `S_IFDIR`. -/
def sIfdir : Nat := 0o040000

/-- `IsDirExist`, which tests one bit of the format. -/
def isDirExist (t : FileTree) (path : Path) : Bool :=
  match stat t path with
  | .ok (some type) => type.mode &&& sIfdir != 0
  | _ => false

theorem findLastOf_lt {c : Char} {xs : List Char} {pos : Nat} (h : findLastOf c xs = some pos) :
    pos < xs.length := by
  induction xs generalizing pos with
  | nil => simp [findLastOf] at h
  | cons x xs ih =>
    unfold findLastOf at h
    split at h
    · rename_i pos' hpos
      have := ih hpos
      rw [← Option.some.inj h, List.length_cons]
      omega
    · split at h
      · rw [← Option.some.inj h, List.length_cons]
        omega
      · simp at h

/-- `MakePath`, with the tree it leaves. -/
def makePath (t : FileTree) (path : Path) : Bool × FileTree :=
  match mkdir t path with
  | .ok t' => (true, t')
  | .error .noent =>
    match _ : findLastOf '/' path.chars with
    | none => (false, t)
    | some pos =>
      match makePath t (path.substr pos) with
      | (false, t') => (false, t')
      | (true, t') =>
        match mkdir t' path with
        | .ok t'' => (true, t'')
        | .error _ => (false, t')
  | .error .exist => (isDirExist t path, t)
  | .error .notdir => (false, t)
termination_by path.chars.length
decreasing_by
  have := findLastOf_lt ‹_›
  show (path.chars.take pos).length < _
  rw [List.length_take]
  omega

theorem makePath_made {t t' : FileTree} {path : Path} (h : mkdir t path = .ok t') :
    makePath t path = (true, t') := by
  rw [makePath, h]

theorem makePath_exist {t : FileTree} {path : Path} (h : mkdir t path = .error .exist) :
    makePath t path = (isDirExist t path, t) := by
  rw [makePath, h]

theorem makePath_notdir {t : FileTree} {path : Path} (h : mkdir t path = .error .notdir) :
    makePath t path = (false, t) := by
  rw [makePath, h]

theorem makePath_noent {t : FileTree} {path : Path} {pos : Nat} (h : mkdir t path = .error .noent)
    (hpos : findLastOf '/' path.chars = some pos) :
    makePath t path =
      match makePath t (path.substr pos) with
      | (false, t') => (false, t')
      | (true, t') =>
        match mkdir t' path with
        | .ok t'' => (true, t'')
        | .error _ => (false, t') := by
  rw [makePath]
  simp only [h]
  split
  · rename_i hnone
    rw [hpos] at hnone
    simp at hnone
  · rename_i pos' hpos'
    obtain rfl : pos = pos' := Option.some.inj (hpos ▸ hpos')
    rfl

/-! ## Cutting a path at its last slash -/

theorem findLastOf_none {c : Char} {xs : List Char} (h : findLastOf c xs = none) : c ∉ xs := by
  induction xs with
  | nil => simp
  | cons x xs ih =>
    unfold findLastOf at h
    split at h
    · simp at h
    · rename_i hnone
      split at h
      · simp at h
      · rename_i hx
        simp [ih hnone, Ne.symm hx]

theorem findLastOf_some {c : Char} {xs : List Char} {pos : Nat} (h : findLastOf c xs = some pos) :
    xs = xs.take pos ++ c :: xs.drop (pos + 1) ∧ c ∉ xs.drop (pos + 1) := by
  induction xs generalizing pos with
  | nil => simp [findLastOf] at h
  | cons x xs ih =>
    unfold findLastOf at h
    split at h
    · rename_i pos' hpos
      obtain ⟨hcut, hlast⟩ := ih hpos
      rw [← Option.some.inj h]
      exact ⟨congrArg (List.cons x) hcut, hlast⟩
    · rename_i hnone
      split at h
      · rename_i hx
        rw [← Option.some.inj h, hx]
        exact ⟨rfl, findLastOf_none hnone⟩
      · simp at h

section Cut

variable {t t' : FileTree} {path : Path} {pos : Nat}

theorem segments_substr (h : findLastOf '/' path.chars = some pos) :
    path.segments = (path.substr pos).segments ++ [segment (path.chars.drop (pos + 1))] := by
  have ⟨hcut, hlast⟩ := findLastOf_some h
  unfold Path.segments
  conv_lhs => rw [hcut]
  rw [List.splitOn_append_cons_self, List.splitOn_eq_singleton hlast, List.map_append]
  rfl

theorem segments_noSlash (h : findLastOf '/' path.chars = none) :
    path.segments = [segment path.chars] := by
  unfold Path.segments
  rw [List.splitOn_eq_singleton (findLastOf_none h)]
  rfl

theorem segments_nil (h : path.chars = []) : path.segments = [.empty] := by
  unfold Path.segments
  rw [h]
  rfl

theorem start_substr (hpos : pos ≠ 0) : (path.substr pos).start t = path.start t := by
  have hhead : (path.substr pos).chars.head? = path.chars.head? := by
    rw [Path.substr, List.head?_take, if_neg hpos]
  simp only [Path.start, hhead]

theorem start_extends (h : t.Extends t') : path.start t' = path.start t := by
  unfold Path.start
  rw [h.cwd]

theorem resolve_extends (h : t.Extends t') {l : List Name} (hl : path.resolve t = .ok l) :
    path.resolve t' = .ok l := by
  unfold Path.resolve at hl ⊢
  split at hl
  · simp at hl
  · rename_i hchars
    rw [if_neg hchars, start_extends h]
    exact h.walk hl

end Cut

/-! ## The directories that are made -/

/-- `t'` is `t` with new directories that prefixes of the path name. -/
structure MadeAlong (path : Path) (t t' : FileTree) : Prop where
  keeps : t.Extends t'
  made : ∀ l, t'.typeOf l ≠ t.typeOf l → t'.typeOf l = some .directory ∧
    ∃ p : Path, p.chars <+: path.chars ∧ p.resolve t' = .ok l

section Made

variable {path : Path} {t t' u : FileTree}

theorem MadeAlong.refl (path : Path) (t : FileTree) : MadeAlong path t t :=
  ⟨Extends.refl t, fun _ h => absurd rfl h⟩

theorem MadeAlong.trans (h : MadeAlong path t t') (h' : MadeAlong path t' u) :
    MadeAlong path t u := by
  refine ⟨h.keeps.trans h'.keeps, fun l hl => ?_⟩
  by_cases hnew : u.typeOf l = t'.typeOf l
  · obtain ⟨hdir, p, hp, hresolve⟩ := h.made l (by rwa [← hnew])
    exact ⟨hnew.trans hdir, p, hp, resolve_extends h'.keeps hresolve⟩
  · exact h'.made l hnew

theorem MadeAlong.substr {pos : Nat} (h : MadeAlong (path.substr pos) t t') :
    MadeAlong path t t' := by
  refine ⟨h.keeps, fun l hl => ?_⟩
  have ⟨hdir, p, hp, hresolve⟩ := h.made l hl
  exact ⟨hdir, p, hp.trans (List.take_prefix pos path.chars), hresolve⟩

theorem mkdir_madeAlong (h : mkdir t path = .ok t') : MadeAlong path t t' := by
  unfold mkdir at h
  split at h
  · simp at h
  · rename_i hchars
    obtain ⟨n, m, hm, hn, ht', hwalk⟩ := mkdir_ok h
    have hext : t.Extends t' := by rw [ht']; exact insert_extends hm hn
    refine ⟨hext, fun l hl => ?_⟩
    have hl' : l = n :: m := by
      by_contra hne
      rw [ht'] at hl
      exact hl (if_neg hne)
    rw [hl']
    refine ⟨by rw [ht']; exact insert_self hm, path, List.prefix_refl _, ?_⟩
    rw [Path.resolve, if_neg hchars, start_extends hext]
    exact hwalk

/-- `MakePath` makes nothing but directories that prefixes of its path name. -/
theorem makePath_madeAlong (t : FileTree) (path : Path) :
    MadeAlong path t (makePath t path).2 := by
  fun_induction makePath t path with
  | case1 path t' hmkdir => exact mkdir_madeAlong hmkdir
  | case2 path => exact MadeAlong.refl path t
  | case3 path _ pos _ t' hmake ih => exact (hmake ▸ ih).substr
  | case4 path _ pos _ t' hmake t'' hmkdir ih =>
    exact MadeAlong.trans (hmake ▸ ih).substr (mkdir_madeAlong hmkdir)
  | case5 path _ pos _ t' hmake _ _ ih => exact (hmake ▸ ih).substr
  | case6 path => exact MadeAlong.refl path t
  | case7 path => exact MadeAlong.refl path t

end Made

/-! ## When names are missing -/

/-- The first name that is missing on the way of a path: the segments before it lead to
the directory `parent`, which has no `name`. -/
structure MissingAt (t : FileTree) (path : Path) (before : List (Segment Name)) (name : Name)
    (after : List (Segment Name)) (parent : List Name) : Prop where
  segments : path.segments = before ++ .name name :: after
  walk : t.walk (path.start t) before = .ok parent
  directory : t.typeOf parent = some .directory
  missing : t.typeOf (name :: parent) = none

/-- What follows the missing name, without the slashes after it. -/
def below (after : List (Segment Name)) : List (Segment Name) := after.dropWhile Segment.isEmpty

section Missing

variable {t : FileTree} {path : Path} {before after : List (Segment Name)} {name : Name}
  {parent : List Name}

theorem below_concat {s : Segment Name} (h : ¬ ∀ s' ∈ after ++ [s], Segment.isEmpty s' = true) :
    below (after ++ [s]) = below after ++ [s] := by
  unfold below
  rw [List.dropWhile_append]
  split
  · rename_i hnil
    rw [List.isEmpty_iff] at hnil
    have hs : ¬ s.isEmpty = true := by
      intro hs
      refine h fun s' hs' => ?_
      rcases List.mem_append.1 hs' with hs' | hs'
      · exact List.dropWhile_eq_nil_iff.1 hnil s' hs'
      · rw [List.mem_singleton.1 hs', hs]
    rw [hnil, List.dropWhile_cons_of_neg hs]
    rfl
  · rfl

theorem MissingAt.chars_ne (h : MissingAt t path before name after parent) : path.chars ≠ [] := by
  intro hchars
  have hsegs := h.segments
  rw [segments_nil hchars] at hsegs
  cases before with
  | nil => simp at hsegs
  | cons s before => simp at hsegs

/-- Without its last segment the path misses the same name. -/
theorem MissingAt.substr {s : Segment Name} {pos : Nat}
    (h : MissingAt t path before name (after ++ [s]) parent)
    (hpos : findLastOf '/' path.chars = some pos) :
    MissingAt t (path.substr pos) before name after parent := by
  have hsegs := h.segments
  rw [segments_substr hpos, ← List.cons_append, ← List.append_assoc] at hsegs
  have hcut := List.append_inj_left' hsegs rfl
  have hstart : (path.substr pos).start t = path.start t := by
    refine start_substr fun hzero => ?_
    rw [segments_nil (by rw [hzero]; rfl)] at hcut
    cases before with
    | nil => simp at hcut
    | cons s before => simp at hcut
  exact ⟨hcut, hstart ▸ h.walk, h.directory, h.missing⟩

/-- The second `mkdir`, after the first call made the chain for all segments but the
last one: a name is made, and anything else is there already. -/
theorem mkdir_again {s : Segment Name} (h : MissingAt t path before name (after ++ [s]) parent)
    (hall : ¬ ∀ s' ∈ after ++ [s], Segment.isEmpty s' = true)
    (hnames : ∀ s' ∈ below after, Segment.isName s' = true) :
    mkdir (t.addChain parent (.name name :: below after)) path =
      if s.isName then .ok (t.addChain parent (.name name :: below (after ++ [s])))
      else .error .exist := by
  have ⟨t', m, ht', hext, hwalk, hm, hfresh, hrest⟩ :=
    addChain_missing h.directory h.missing hnames
  have hbefore : t'.walk (path.start t') (before ++ .name name :: after) = .ok m := by
    rw [start_extends hext]
    exact walk_append_ok_iff.2 ⟨parent, hext.walk h.walk, hwalk⟩
  have hsegs : path.segments = before ++ .name name :: after ++ [s] := by
    rw [h.segments, List.append_assoc, List.cons_append]
  rw [below_concat hall]
  unfold below
  rw [ht', hrest, mkdir, if_neg h.chars_ne, hsegs]
  cases hs : s.isName with
  | true =>
    cases s with
    | name n =>
      rw [if_pos rfl, addChain_name hm (hfresh n)]
      exact mkdir_missing hbefore hm (hfresh n) (by simp)
    | _ => exact Bool.noConfusion hs
  | false =>
    obtain ⟨m', hstep⟩ := step_notName hm hs
    rw [if_neg (by simp)]
    exact mkdir_walk_ok (walk_append_ok_iff.2 ⟨m, hbefore, (walk_singleton t' m s).trans hstep⟩)

/-- Only slashes follow the missing name: the first `mkdir` makes it. -/
theorem makePath_missing_last (h : MissingAt t path before name after parent)
    (hall : ∀ s' ∈ after, Segment.isEmpty s' = true) :
    makePath t path =
      ((below after).all Segment.isName, t.addChain parent (.name name :: below after)) := by
  have hbelow : below after = [] := List.dropWhile_eq_nil_iff.2 hall
  have hmkdir : mkdir t path = .ok (t.insert name parent h.directory) := by
    rw [mkdir, if_neg h.chars_ne, h.segments]
    exact mkdir_missing h.walk h.directory h.missing hall
  rw [makePath_made hmkdir, hbelow, addChain_name h.directory h.missing]
  rfl

/-- The chain stops at a segment that is no name. -/
theorem addChain_stop {s : Segment Name} (h : MissingAt t path before name (after ++ [s]) parent)
    (hnames : ∀ s' ∈ below after, Segment.isName s' = true) (hs : s.isName = false) :
    t.addChain parent (.name name :: (below after ++ [s])) =
      t.addChain parent (.name name :: below after) := by
  have ⟨_, _, ht', _, _, _, _, hrest⟩ := addChain_missing h.directory h.missing hnames
  refine (hrest [s]).trans (Eq.trans ?_ ht'.symm)
  cases s with
  | name n => exact Bool.noConfusion hs
  | _ => rfl

/-- `MakePath` on a path with missing names: it makes the chain of directories up to the
first segment that is no name, and it returns true when there is no such segment. -/
theorem makePath_missing (h : MissingAt t path before name after parent) :
    makePath t path =
      ((below after).all Segment.isName, t.addChain parent (.name name :: below after)) := by
  induction after using List.reverseRecOn generalizing path with
  | nil => exact makePath_missing_last h (by simp)
  | append_singleton after s ih =>
    by_cases hall : ∀ s' ∈ after ++ [s], Segment.isEmpty s' = true
    · exact makePath_missing_last h hall
    · have hnoent : mkdir t path = .error .noent := by
        rw [mkdir, if_neg h.chars_ne, h.segments]
        exact mkdir_noent h.walk h.directory h.missing hall
      cases hpos : findLastOf '/' path.chars with
      | none =>
        have hlength := congrArg List.length (h.segments.symm.trans (segments_noSlash hpos))
        simp only [List.length_append, List.length_cons, List.length_nil] at hlength
        omega
      | some pos =>
        rw [makePath_noent hnoent hpos, ih (h.substr hpos)]
        by_cases hnames : ∀ s' ∈ below after, Segment.isName s' = true
        · rw [List.all_eq_true.2 hnames]
          simp only [mkdir_again h hall hnames]
          rw [below_concat hall, List.all_append, List.all_eq_true.2 hnames]
          cases hs : s.isName with
          | true => simp [hs]
          | false =>
            rw [addChain_stop h hnames hs]
            simp [hs]
        · have hfalse : (below after).all Segment.isName = false := by
            rw [← Bool.not_eq_true, List.all_eq_true]
            exact hnames
          rw [below_concat hall, List.all_append, hfalse, ← List.cons_append, addChain_append]
          · rfl
          · exact fun hall' => hnames fun s' hs' => hall' s' (List.mem_cons_of_mem _ hs')

/-- Without `.` and `..` after the missing name, the path leads to the end of the chain
exactly if nothing but slashes comes after the names of the chain. -/
theorem chain_namesDirectory_iff (h : MissingAt t path before name after parent)
    (hplain : ∀ s ∈ after, Segment.isEmpty s = true ∨ Segment.isName s = true) :
    NamesDirectory (t.addChain parent (.name name :: below after)) path ↔
      ∀ s ∈ (below after).dropWhile Segment.isName, Segment.isEmpty s = true := by
  have hnames : ∀ s ∈ (below after).takeWhile Segment.isName, Segment.isName s = true :=
    fun s hs => List.mem_takeWhile_imp hs
  -- The chain is the one of the path without what follows its names.
  generalize hafter₀ :
    after.takeWhile Segment.isEmpty ++ (below after).takeWhile Segment.isName = after₀
  have hbelow₀ : after₀.dropWhile Segment.isEmpty = (below after).takeWhile Segment.isName := by
    rw [← hafter₀, List.dropWhile_append_of_pos fun s hs => List.mem_takeWhile_imp hs,
      dropWhile_isEmpty_names hnames]
  have hafter : after = after₀ ++ (below after).dropWhile Segment.isName := by
    rw [← hafter₀, List.append_assoc, List.takeWhile_append_dropWhile]
    exact List.takeWhile_append_dropWhile.symm
  rw [← hbelow₀] at hnames
  have ⟨t', m, _, hext, hwalk, hm, hfresh, hrest⟩ :=
    addChain_missing h.directory h.missing hnames
  have hchain : t.addChain parent (.name name :: below after) = t' := by
    have hstop := hrest ((below after).dropWhile Segment.isName)
    rwa [hbelow₀, List.takeWhile_append_dropWhile, addChain_dropWhile] at hstop
  have hstart : t'.walk (path.start t') (before ++ .name name :: after₀) = .ok m := by
    rw [start_extends hext]
    exact walk_append_ok_iff.2 ⟨parent, hext.walk h.walk, hwalk⟩
  have hresolve : path.resolve t' = t'.walk m ((below after).dropWhile Segment.isName) := by
    rw [Path.resolve, if_neg h.chars_ne, h.segments]
    conv_lhs => rw [hafter, ← List.cons_append, ← List.append_assoc, walk_append, hstart]
    rfl
  rw [hchain, NamesDirectory, hresolve]
  have hiff := walk_fresh_iff hm hfresh fun s hs => hplain s (hafter ▸ List.mem_append_right _ hs)
  refine ⟨fun ⟨l, hl, _⟩ => hiff.1 ⟨l, hl⟩, fun hempties => ?_⟩
  exact ⟨m, walk_empties hm hempties, hm⟩

/-- When only names follow the missing one, the path leads to the end of the chain. -/
theorem chain_namesDirectory (h : MissingAt t path before name after parent)
    (hnames : ∀ s ∈ below after, Segment.isName s = true) :
    NamesDirectory (t.addChain parent (.name name :: below after)) path := by
  refine (chain_namesDirectory_iff h fun s hs => ?_).2 ?_
  · rw [← List.takeWhile_append_dropWhile (p := Segment.isEmpty) (l := after)] at hs
    exact (List.mem_append.1 hs).imp (fun hs => List.mem_takeWhile_imp hs) (hnames s)
  · rw [List.dropWhile_eq_nil_iff.2 hnames]
    simp

/-- After the missing name and its slashes come names, with one slash between two of them,
and then slashes at the end of the path. -/
def SlashesAtEnd (after : List (Segment Name)) : Prop :=
  ∃ names slashes, below after = names ++ slashes ∧ names ≠ [] ∧ slashes ≠ [] ∧
    (∀ s ∈ names, Segment.isName s = true) ∧ ∀ s ∈ slashes, Segment.isEmpty s = true

theorem slashesAtEnd_iff : SlashesAtEnd after ↔
    (below after).dropWhile Segment.isName ≠ [] ∧
      ∀ s ∈ (below after).dropWhile Segment.isName, Segment.isEmpty s = true := by
  constructor
  · intro ⟨names, slashes, hbelow, _, hslashes, hnames, hempties⟩
    rw [hbelow, List.dropWhile_append_of_pos hnames, dropWhile_isName_empties hempties]
    exact ⟨hslashes, hempties⟩
  · intro ⟨hne, hempties⟩
    refine ⟨(below after).takeWhile Segment.isName, _,
      List.takeWhile_append_dropWhile.symm, ?_, hne, fun s hs => List.mem_takeWhile_imp hs,
      hempties⟩
    -- The first segment of `below after` is not empty.
    intro hnil
    have hall : below after = (below after).dropWhile Segment.isName := by
      conv_lhs => rw [← List.takeWhile_append_dropWhile (p := Segment.isName) (l := below after),
        hnil, List.nil_append]
    rw [← hall] at hne hempties
    have hhead : ((below after).head hne).isEmpty = false := List.head_dropWhile_not _ hne
    rw [hempties _ (List.head_mem hne)] at hhead
    exact Bool.noConfusion hhead

/-- Without `.` and `..` after the missing name, the value of `MakePath` is wrong exactly for
two or more missing names and slashes at the end of the path: the directories are made, the
second `mkdir` finds the last one there, and `MakePath` returns false. -/
theorem makePath_plain (h : MissingAt t path before name after parent)
    (hplain : ∀ s ∈ after, Segment.isEmpty s = true ∨ Segment.isName s = true) :
    (SlashesAtEnd after →
        (makePath t path).1 = false ∧ NamesDirectory (makePath t path).2 path) ∧
      (¬ SlashesAtEnd after →
        ((makePath t path).1 = true ↔ NamesDirectory (makePath t path).2 path)) := by
  rw [makePath_missing h, chain_namesDirectory_iff h hplain, slashesAtEnd_iff]
  constructor
  · intro ⟨hne, hempties⟩
    refine ⟨?_, hempties⟩
    rw [← Bool.not_eq_true, List.all_eq_true]
    exact fun hnames => hne (List.dropWhile_eq_nil_iff.2 hnames)
  · intro hnot
    rw [List.all_eq_true, ← List.dropWhile_eq_nil_iff]
    refine ⟨fun hnil => by rw [hnil]; simp, fun hempties => ?_⟩
    by_contra hne
    exact hnot ⟨hne, hempties⟩

theorem MissingAt.resolve_error (h : MissingAt t path before name after parent) :
    path.resolve t = .error .noent := by
  rw [Path.resolve, if_neg h.chars_ne, h.segments, walk_append, h.walk]
  show t.step parent (.name name) >>= _ = _
  rw [step_name_missing h.directory h.missing]
  rfl

end Missing

/-! ## The value of `MakePath` -/

section Value

variable {t : FileTree} {path : Path}

/-- The two types of file, apart from the directories, whose format has the bit `S_IFDIR`. -/
def SharesIfdir (type : FileType) : Prop := type = .blockDevice ∨ type = .socket

theorem isDirExist_iff : isDirExist t path = true ↔
    ∃ l, path.resolve t = .ok l ∧
      ∃ type, t.typeOf l = some type ∧ (type = .directory ∨ SharesIfdir type) := by
  unfold isDirExist stat
  cases path.resolve t with
  | error e => simp [bind, Except.bind]
  | ok l =>
    simp only [bind, Except.bind, pure, Except.pure]
    cases htype : t.typeOf l with
    | none => simp [htype]
    | some type => cases type <;> simp [htype, FileType.mode, sIfdir, SharesIfdir]

/-- The calls of `MakePath` that return true for the directories only. -/
structure ReturnsDirectory (t : FileTree) (path : Path) : Prop where
  /-- What the path names has the bit `S_IFDIR` only if it is a directory. -/
  notShared : ∀ l type, path.resolve t = .ok l → t.typeOf l = some type → ¬ SharesIfdir type
  /-- Only names, slashes between them apart, follow a missing name, or the path leads to no
  directory even with the chain of directories up to the first segment that is no name. -/
  chain : ∀ before name after parent, MissingAt t path before name after parent →
    (∀ s ∈ below after, Segment.isName s = true) ∨
      ¬ NamesDirectory (t.addChain parent (.name name :: below after)) path

/-- What `MakePath` does with a path on which no name is missing. -/
theorem makePath_present
    (h : ∀ before name after parent, ¬ MissingAt t path before name after parent) :
    makePath t path = (isDirExist t path, t) := by
  by_cases hchars : path.chars = []
  · have hmkdir : mkdir t path = .error .noent := if_pos hchars
    have hstat : isDirExist t path = false := by
      unfold isDirExist stat Path.resolve
      rw [if_pos hchars]
      rfl
    rw [makePath, hstat]
    simp only [hmkdir]
    split
    · rfl
    · rename_i pos hpos
      rw [hchars] at hpos
      simp [findLastOf] at hpos
  · have hmkdir : mkdir t path = t.mkdir (path.start t) path.segments := if_neg hchars
    rcases walk_cases t (path.start t) path.segments with ⟨m, hwalk⟩ |
      ⟨before, name, after, parent, hsegs, hwalk, hdir, hnone⟩ |
      ⟨before, s, after, m, hsegs, hwalk, hfile⟩
    · exact makePath_exist (hmkdir.trans (mkdir_walk_ok hwalk))
    · exact absurd ⟨hsegs, hwalk, hdir, hnone⟩ (h before name after parent)
    · have hstat : isDirExist t path = false := by
        unfold isDirExist stat Path.resolve
        rw [if_neg hchars, hsegs, walk_file hwalk hfile]
        rfl
      rcases mkdir_file hwalk hfile with hexist | hnotdir
      · exact makePath_exist (hmkdir.trans (hsegs ▸ hexist))
      · rw [makePath_notdir (hmkdir.trans (hsegs ▸ hnotdir)), hstat]

/-- `MakePath` makes only directories that prefixes of its path name, and its value says
whether the path names a directory exactly under the condition `ReturnsDirectory`. -/
theorem makePath_returns_iff (t : FileTree) (path : Path) :
    MadeAlong path t (makePath t path).2 ∧
      (((makePath t path).1 = true ↔ NamesDirectory (makePath t path).2 path) ↔
        ReturnsDirectory t path) := by
  refine ⟨makePath_madeAlong t path, ?_⟩
  by_cases hmissing : ∃ before name after parent, MissingAt t path before name after parent
  · have ⟨before, name, after, parent, h⟩ := hmissing
    constructor
    · intro hreturns
      refine ⟨fun l type hl => ?_, fun before name after parent h => ?_⟩
      · rw [h.resolve_error] at hl
        simp at hl
      · rw [makePath_missing h, List.all_eq_true] at hreturns
        by_cases hnames : ∀ s ∈ below after, Segment.isName s = true
        · exact Or.inl hnames
        · exact Or.inr fun hdir => hnames (hreturns.2 hdir)
    · intro hcond
      rw [makePath_missing h, List.all_eq_true]
      constructor
      · exact chain_namesDirectory h
      · intro hdir
        rcases hcond.chain _ _ _ _ h with hnames | hno
        · exact hnames
        · exact absurd hdir hno
  · have hpresent : ∀ before name after parent, ¬ MissingAt t path before name after parent :=
      fun before name after parent h => hmissing ⟨before, name, after, parent, h⟩
    rw [makePath_present hpresent, isDirExist_iff]
    constructor
    · intro hreturns
      refine ⟨fun l type hl htype hshared => ?_, fun _ _ _ _ h => absurd h (hpresent _ _ _ _)⟩
      obtain ⟨l', hl', hdir⟩ := hreturns.1 ⟨l, hl, type, htype, Or.inr hshared⟩
      rw [hl] at hl'
      rw [← Except.ok.inj hl', htype] at hdir
      obtain rfl := Option.some.inj hdir
      rcases hshared with hshared | hshared <;> simp at hshared
    · intro hcond
      constructor
      · intro ⟨l, hl, type, htype, hdir⟩
        rcases hdir with rfl | hshared
        · exact ⟨l, hl, htype⟩
        · exact absurd hshared (hcond.notShared l type hl htype)
      · intro ⟨l, hl, hdir⟩
        exact ⟨l, hl, .directory, hdir, Or.inl rfl⟩

end Value

/-- A tree with nothing in its root. -/
def emptyRoot : FileTree where
  cwd := []
  typeOf l := if l = [] then some .directory else none
  root_directory := rfl
  cwd_directory := rfl
  parent_directory n l h := absurd (if_neg (List.cons_ne_nil n l)) h

/-- The folder of a run below a folder that is not there, written as `main` does. -/
def runFolder : Path := ⟨"traces/run/".toList, by decide, by decide⟩

/-- Both directories are made, and `MakePath` returns false. -/
theorem runFolder_made_not_returned :
    (makePath emptyRoot runFolder).1 = false ∧
      NamesDirectory (makePath emptyRoot runFolder).2 runFolder :=
  ⟨by decide +kernel, ["run".toList, "traces".toList], by decide +kernel, by decide +kernel⟩

end QuicOnNs3.Util
