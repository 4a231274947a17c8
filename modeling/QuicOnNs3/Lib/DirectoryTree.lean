import Mathlib.Data.List.Induction
import Mathlib.Data.List.TakeWhile
import QuicOnNs3.Lib.Execution

/-!
# Directory trees

A tree of files as a process sees it.  A location is the list of the names that lead
to it, the last one first, and the root is `[]`.  The fields of a `Tree` say that
every location stands in a directory, so no other tree can be built.

`walk` resolves the segments of a path one by one, and `mkdir` makes a directory at
the end of a path, with the error codes of POSIX: a name that is there, a name that is
missing on the way, a file on the way that is no directory.  `addChain` makes a chain
of directories below a location.
-/

namespace QuicOnNs3.DirectoryTree

open QuicOnNs3.Execution

/-! ## Trees -/

/-- The type of a file. -/
inductive FileType where
  | fifo
  | characterDevice
  | directory
  | blockDevice
  | regular
  | socket
  deriving DecidableEq, Repr

/-- The type as the format bits of `st_mode`. -/
def FileType.mode : FileType → Nat
  | .fifo => 0o010000
  | .characterDevice => 0o020000
  | .directory => 0o040000
  | .blockDevice => 0o060000
  | .regular => 0o100000
  | .socket => 0o140000

/-- `EEXIST`, `ENOENT` and `ENOTDIR`. -/
inductive Errno where
  | exist
  | noent
  | notdir
  deriving DecidableEq, Repr

/-- A tree with the working directory of the process. -/
structure Tree (ν : Type*) where
  cwd : List ν
  typeOf : List ν → Option FileType
  root_directory : typeOf [] = some .directory
  cwd_directory : typeOf cwd = some .directory
  parent_directory : ∀ n l, typeOf (n :: l) ≠ none → typeOf l = some .directory

/-- What stands between two slashes of a path. -/
inductive Segment (ν : Type*) where
  | empty
  | dot
  | dotdot
  | name (n : ν)
  deriving DecidableEq, Repr

/-- Nothing stands between the slashes. -/
def Segment.isEmpty {ν : Type*} : Segment ν → Bool
  | .empty => true
  | _ => false

/-- The segment is the name of a file. -/
def Segment.isName {ν : Type*} : Segment ν → Bool
  | .name _ => true
  | _ => false

namespace Tree

variable {ν : Type*} {t t' : Tree ν} {l m : List ν} {n : ν} {segs : List (Segment ν)}

/-! ## Paths -/

/-- One segment of a path, from the location `l`. -/
def step (t : Tree ν) (l : List ν) (segment : Segment ν) : Except Errno (List ν) :=
  if t.typeOf l = some .directory then
    match segment with
    | .empty => .ok l
    | .dot => .ok l
    | .dotdot => .ok l.tail
    | .name n => if (t.typeOf (n :: l)).isSome then .ok (n :: l) else .error .noent
  else .error .notdir

/-- The location that a path leads to. -/
def walk (t : Tree ν) (l : List ν) (segs : List (Segment ν)) : Except Errno (List ν) :=
  segs.foldlM t.step l

theorem walk_append (t : Tree ν) (l : List ν) (xs ys : List (Segment ν)) :
    t.walk l (xs ++ ys) = t.walk l xs >>= fun m => t.walk m ys :=
  List.foldlM_append

theorem walk_append_ok_iff {xs ys : List (Segment ν)} :
    t.walk l (xs ++ ys) = .ok m ↔ ∃ k, t.walk l xs = .ok k ∧ t.walk k ys = .ok m := by
  rw [walk_append, bind_ok_iff]

theorem walk_append_error {xs ys : List (Segment ν)} {e : Errno} (h : t.walk l xs = .error e) :
    t.walk l (xs ++ ys) = .error e := by
  rw [walk_append, h]
  rfl

theorem walk_singleton (t : Tree ν) (l : List ν) (s : Segment ν) : t.walk l [s] = t.step l s := by
  unfold walk
  rw [List.foldlM_cons]
  cases t.step l s <;> rfl

theorem step_directory {s : Segment ν} (h : t.step l s = .ok m) :
    t.typeOf l = some .directory := by
  unfold step at h
  split at h
  · rename_i hdir
    exact hdir
  · simp at h

theorem step_error {s : Segment ν} {e : Errno} (h : t.step l s = .error e) :
    t.typeOf l ≠ some .directory ∧ e = .notdir ∨
      t.typeOf l = some .directory ∧ e = .noent ∧ ∃ n, s = .name n ∧ t.typeOf (n :: l) = none := by
  unfold step at h
  split at h
  · rename_i hdir
    cases s with
    | name n =>
      simp only at h
      split at h
      · simp at h
      · rename_i hnone
        exact Or.inr ⟨hdir, (Except.error.inj h).symm, n, rfl,
          Option.not_isSome_iff_eq_none.1 hnone⟩
    | _ => simp at h
  · rename_i hdir
    exact Or.inl ⟨hdir, (Except.error.inj h).symm⟩

theorem step_name_missing (hdir : t.typeOf l = some .directory) (hn : t.typeOf (n :: l) = none) :
    t.step l (.name n) = .error .noent := by
  unfold step
  rw [if_pos hdir]
  simp [hn]

theorem step_file {s : Segment ν} (hfile : t.typeOf l ≠ some .directory) :
    t.step l s = .error .notdir :=
  if_neg hfile

/-- From a directory only a name can lead nowhere. -/
theorem step_notName {s : Segment ν} (hdir : t.typeOf l = some .directory)
    (hs : s.isName = false) : ∃ m, t.step l s = .ok m := by
  unfold step
  rw [if_pos hdir]
  cases s with
  | empty => exact ⟨l, rfl⟩
  | dot => exact ⟨l, rfl⟩
  | dotdot => exact ⟨l.tail, rfl⟩
  | name n => exact Bool.noConfusion hs

/-- A file on the way that is no directory stops the walk. -/
theorem walk_file {before after : List (Segment ν)} {s : Segment ν}
    (hwalk : t.walk l before = .ok m) (hfile : t.typeOf m ≠ some .directory) :
    t.walk l (before ++ s :: after) = .error .notdir := by
  rw [walk_append, hwalk]
  show t.step m s >>= _ = _
  rw [step_file hfile]
  rfl

/-- A location that a directory leads to is there. -/
theorem step_isSome {s : Segment ν} (h : t.step l s = .ok m) : (t.typeOf m).isSome := by
  have hdir := step_directory h
  unfold step at h
  rw [if_pos hdir] at h
  cases s with
  | empty => rw [← Except.ok.inj h, hdir]; rfl
  | dot => rw [← Except.ok.inj h, hdir]; rfl
  | dotdot =>
    rw [← Except.ok.inj h]
    cases l with
    | nil => rw [List.tail_nil, hdir]; rfl
    | cons n l =>
      rw [List.tail_cons, t.parent_directory n l (by rw [hdir]; simp)]
      rfl
  | name n =>
    simp only at h
    split at h
    · rename_i hsome
      rw [← Except.ok.inj h]
      exact hsome
    · simp at h

/-- Where a walk stops: at its end, at a name that is missing, or at a file that is no
directory. -/
theorem walk_cases (t : Tree ν) (l : List ν) (segs : List (Segment ν)) :
    (∃ m, t.walk l segs = .ok m) ∨
      (∃ before n after m, segs = before ++ .name n :: after ∧ t.walk l before = .ok m ∧
        t.typeOf m = some .directory ∧ t.typeOf (n :: m) = none) ∨
      ∃ before s after m, segs = before ++ s :: after ∧ t.walk l before = .ok m ∧
        t.typeOf m ≠ some .directory := by
  induction segs generalizing l with
  | nil => exact Or.inl ⟨l, rfl⟩
  | cons s segs ih =>
    cases hstep : t.step l s with
    | error e =>
      rcases step_error hstep with ⟨hfile, _⟩ | ⟨hdir, _, n, hs, hnone⟩
      · exact Or.inr (Or.inr ⟨[], s, segs, l, rfl, rfl, hfile⟩)
      · exact Or.inr (Or.inl ⟨[], n, segs, l, by rw [hs]; rfl, rfl, hdir, hnone⟩)
    | ok k =>
      have hcons : ∀ segs, t.walk l (s :: segs) = t.walk k segs := by
        intro segs
        show t.step l s >>= _ = _
        rw [hstep]
        rfl
      rcases ih k with ⟨m, hm⟩ | ⟨before, n, after, m, hsegs, hwalk, hrest⟩ |
        ⟨before, s', after, m, hsegs, hwalk, hrest⟩
      · exact Or.inl ⟨m, (hcons segs).trans hm⟩
      · exact Or.inr (Or.inl ⟨s :: before, n, after, m, by rw [hsegs]; rfl,
          (hcons before).trans hwalk, hrest⟩)
      · exact Or.inr (Or.inr ⟨s :: before, s', after, m, by rw [hsegs]; rfl,
          (hcons before).trans hwalk, hrest⟩)

/-- Segments with nothing in them lead nowhere. -/
theorem walk_empties (hdir : t.typeOf l = some .directory)
    (h : ∀ s ∈ segs, Segment.isEmpty s = true) : t.walk l segs = .ok l := by
  induction segs with
  | nil => rfl
  | cons s segs ih =>
    have hs : s = .empty := by
      have hempty := h s (List.mem_cons_self ..)
      cases s with
      | empty => rfl
      | _ => exact Bool.noConfusion hempty
    rw [hs]
    show t.step l .empty >>= _ = _
    rw [step, if_pos hdir]
    exact ih fun s hs => h s (List.mem_cons_of_mem _ hs)

/-- From a directory with nothing in it a path of names and slashes leads somewhere only
without a name. -/
theorem walk_fresh_iff (hdir : t.typeOf l = some .directory)
    (hfresh : ∀ n, t.typeOf (n :: l) = none)
    (hplain : ∀ s ∈ segs, Segment.isEmpty s = true ∨ Segment.isName s = true) :
    (∃ m, t.walk l segs = .ok m) ↔ ∀ s ∈ segs, Segment.isEmpty s = true := by
  refine ⟨fun h => ?_, fun h => ⟨l, walk_empties hdir h⟩⟩
  obtain ⟨m, hwalk⟩ := h
  induction segs with
  | nil => simp
  | cons s segs ih =>
    obtain ⟨k, hstep, hrest⟩ := run_cons_ok_iff.1 hwalk
    obtain ⟨hs, hsegs⟩ := List.forall_mem_cons.1 hplain
    cases s with
    | empty =>
      rw [step, if_pos hdir] at hstep
      rw [← Except.ok.inj hstep] at hrest
      exact List.forall_mem_cons.2 ⟨rfl, ih hsegs hrest⟩
    | name n =>
      rw [step_name_missing hdir (hfresh n)] at hstep
      simp at hstep
    | dot => simp [Segment.isEmpty, Segment.isName] at hs
    | dotdot => simp [Segment.isEmpty, Segment.isName] at hs

/-- A path is slashes only, or it has a last segment before the slashes at its end. -/
theorem segments_cases (segs : List (Segment ν)) :
    (∀ s ∈ segs, Segment.isEmpty s = true) ∨
      ∃ init last empties, segs = init ++ [last] ++ empties ∧ Segment.isEmpty last = false ∧
        ∀ s ∈ empties, Segment.isEmpty s = true := by
  induction segs using List.reverseRecOn with
  | nil => exact Or.inl (by simp)
  | append_singleton segs s ih =>
    cases hs : s.isEmpty with
    | false => exact Or.inr ⟨segs, s, [], by simp, hs, by simp⟩
    | true =>
      rcases ih with hall | ⟨init, last, empties, hsegs, hlast, hempties⟩
      · refine Or.inl fun a ha => ?_
        rcases List.mem_append.1 ha with ha | ha
        · exact hall a ha
        · rw [List.mem_singleton.1 ha, hs]
      · refine Or.inr ⟨init, last, empties ++ [s], by rw [hsegs, List.append_assoc _ _ [s]],
          hlast, fun a ha => ?_⟩
        rcases List.mem_append.1 ha with ha | ha
        · exact hempties a ha
        · rw [List.mem_singleton.1 ha, hs]

/-- No name is empty. -/
theorem dropWhile_isEmpty_names (h : ∀ s ∈ segs, Segment.isName s = true) :
    segs.dropWhile Segment.isEmpty = segs := by
  cases segs with
  | nil => rfl
  | cons s segs =>
    have hs := h s (List.mem_cons_self ..)
    cases s with
    | name n => rfl
    | _ => exact Bool.noConfusion hs

/-- No empty segment is a name. -/
theorem dropWhile_isName_empties (h : ∀ s ∈ segs, Segment.isEmpty s = true) :
    segs.dropWhile Segment.isName = segs := by
  cases segs with
  | nil => rfl
  | cons s segs =>
    have hs := h s (List.mem_cons_self ..)
    cases s with
    | empty => rfl
    | _ => exact Bool.noConfusion hs

theorem walk_dropWhile (hdir : t.typeOf l = some .directory) (segs : List (Segment ν)) :
    t.walk l segs = t.walk l (segs.dropWhile Segment.isEmpty) := by
  have hempties : t.walk l (segs.takeWhile Segment.isEmpty) = .ok l :=
    walk_empties hdir fun s hs => List.mem_takeWhile_imp hs
  conv_lhs => rw [← List.takeWhile_append_dropWhile (p := Segment.isEmpty) (l := segs)]
  rw [walk_append, hempties]
  rfl

/-! ## Making directories -/

section Making

variable [DecidableEq ν]

/-- A new directory in a directory. -/
def insert (t : Tree ν) (n : ν) (l : List ν) (hl : t.typeOf l = some .directory) : Tree ν where
  cwd := t.cwd
  typeOf m := if m = n :: l then some .directory else t.typeOf m
  root_directory := by
    rw [if_neg (List.cons_ne_nil n l).symm]
    exact t.root_directory
  cwd_directory := by
    split
    · rfl
    · exact t.cwd_directory
  parent_directory := by
    intro k m hm
    split
    · rfl
    · split at hm
      · rename_i heq
        rw [(List.cons.inj heq).2]
        exact hl
      · exact t.parent_directory k m hm

/-- The directory `n` is made in `l`. -/
def create (t : Tree ν) (l : List ν) (n : ν) : Except Errno (Tree ν) :=
  if hl : t.typeOf l = some .directory then
    if (t.typeOf (n :: l)).isSome then .error .exist else .ok (t.insert n l hl)
  else .error .notdir

/-- A directory is made where a path leads to, slashes at its end apart. -/
def mkdir (t : Tree ν) (l : List ν) (segs : List (Segment ν)) : Except Errno (Tree ν) :=
  match segs.reverse.dropWhile Segment.isEmpty with
  | [] => .error .exist
  | last :: init => do
    let parent ← t.walk l init.reverse
    match last with
    | .name n => t.create parent n
    | _ => if t.typeOf parent = some .directory then .error .exist else .error .notdir

/-- A chain of directories below `l`, up to the first segment that is no name. -/
def addChain (t : Tree ν) (l : List ν) : List (Segment ν) → Tree ν
  | .name n :: segs =>
    match t.create l n with
    | .ok t' => t'.addChain (n :: l) segs
    | .error _ => t
  | _ => t

/-- `t'` has the files of `t`. -/
structure Extends (t t' : Tree ν) : Prop where
  cwd : t'.cwd = t.cwd
  typeOf : ∀ l τ, t.typeOf l = some τ → t'.typeOf l = some τ

omit [DecidableEq ν] in
theorem Extends.refl (t : Tree ν) : t.Extends t := ⟨rfl, fun _ _ => id⟩

omit [DecidableEq ν] in
theorem Extends.trans {u : Tree ν} (h : t.Extends t') (h' : t'.Extends u) : t.Extends u :=
  ⟨h'.cwd.trans h.cwd, fun l τ hl => h'.typeOf l τ (h.typeOf l τ hl)⟩

omit [DecidableEq ν] in
theorem Extends.step (h : t.Extends t') {s : Segment ν} (hstep : t.step l s = .ok m) :
    t'.step l s = .ok m := by
  have hdir := step_directory hstep
  have hm := step_isSome hstep
  unfold Tree.step at hstep ⊢
  rw [if_pos hdir] at hstep
  rw [if_pos (h.typeOf l _ hdir)]
  cases s with
  | name n =>
    simp only at hstep ⊢
    split at hstep
    · obtain ⟨τ, hτ⟩ := Option.isSome_iff_exists.1 hm
      rw [← Except.ok.inj hstep] at hτ ⊢
      rw [if_pos (by rw [h.typeOf _ τ hτ]; rfl)]
    · simp at hstep
  | _ => exact hstep

omit [DecidableEq ν] in
/-- A path leads in a larger tree to where it led. -/
theorem Extends.walk (h : t.Extends t') (hwalk : t.walk l segs = .ok m) :
    t'.walk l segs = .ok m := by
  induction segs generalizing l with
  | nil => exact hwalk
  | cons s segs ih =>
    obtain ⟨k, hstep, hrest⟩ := run_cons_ok_iff.1 hwalk
    exact run_cons_ok_iff.2 ⟨k, h.step hstep, ih hrest⟩

theorem insert_extends (hl : t.typeOf l = some .directory) (hn : t.typeOf (n :: l) = none) :
    t.Extends (t.insert n l hl) where
  cwd := rfl
  typeOf m τ hm := by
    show (if m = n :: l then _ else _) = _
    rw [if_neg (fun h => by rw [h, hn] at hm; simp at hm)]
    exact hm

theorem insert_self (hl : t.typeOf l = some .directory) :
    (t.insert n l hl).typeOf (n :: l) = some .directory :=
  if_pos rfl

/-- A new directory has nothing in it. -/
theorem insert_fresh (hl : t.typeOf l = some .directory) (hn : t.typeOf (n :: l) = none) (k : ν) :
    (t.insert n l hl).typeOf (k :: n :: l) = none := by
  show (if k :: n :: l = n :: l then _ else _) = _
  rw [if_neg (fun h => by simpa using congrArg List.length h)]
  cases hk : t.typeOf (k :: n :: l) with
  | none => rfl
  | some τ =>
    have hdir := t.parent_directory k (n :: l) (by rw [hk]; simp)
    rw [hn] at hdir
    simp at hdir

theorem create_ok_iff {u : Tree ν} : t.create l n = .ok u ↔
    ∃ hl : t.typeOf l = some .directory, t.typeOf (n :: l) = none ∧ u = t.insert n l hl := by
  unfold create
  constructor
  · intro h
    split at h
    · rename_i hl
      split at h
      · simp at h
      · rename_i hnone
        exact ⟨hl, Option.not_isSome_iff_eq_none.1 hnone, (Except.ok.inj h).symm⟩
    · simp at h
  · intro ⟨hl, hn, hu⟩
    rw [dif_pos hl, hn, hu]
    rfl

theorem create_exist (hn : (t.typeOf (n :: l)).isSome) : t.create l n = .error .exist := by
  have hl := t.parent_directory n l (Option.isSome_iff_ne_none.1 hn)
  rw [create, dif_pos hl, if_pos hn]

/-! ## `mkdir` and the walk -/

section Mkdir

variable {init : List (Segment ν)} {last : Segment ν}

theorem mkdir_concat (t : Tree ν) (l : List ν) (init : List (Segment ν))
    (h : last.isEmpty = false) :
    t.mkdir l (init ++ [last]) = t.walk l init >>= fun parent =>
      match last with
      | .name n => t.create parent n
      | _ => if t.typeOf parent = some .directory then .error .exist else .error .notdir := by
  unfold mkdir
  rw [List.reverse_append, List.reverse_singleton, List.singleton_append,
    List.dropWhile_cons_of_neg (by rw [h]; simp)]
  simp only [List.reverse_reverse]

/-- `mkdir` does not see the slashes at the end. -/
theorem mkdir_append_empties {empties : List (Segment ν)}
    (h : ∀ s ∈ empties, Segment.isEmpty s = true) :
    t.mkdir l (segs ++ empties) = t.mkdir l segs := by
  unfold mkdir
  rw [List.reverse_append, List.dropWhile_append_of_pos]
  intro s hs
  exact h s (List.mem_reverse.1 hs)

theorem mkdir_empties (h : ∀ s ∈ segs, Segment.isEmpty s = true) :
    t.mkdir l segs = .error .exist := by
  unfold mkdir
  rw [List.dropWhile_eq_nil_iff.2 fun s hs => h s (List.mem_reverse.1 hs)]

/-- What a path leads to is there. -/
theorem mkdir_walk_ok (hwalk : t.walk l segs = .ok m) : t.mkdir l segs = .error .exist := by
  rcases segments_cases segs with hall | ⟨init, last, empties, hsegs, hlast, hempties⟩
  · exact mkdir_empties hall
  · rw [hsegs] at hwalk ⊢
    obtain ⟨k', hk', _⟩ := walk_append_ok_iff.1 hwalk
    obtain ⟨k, hk, hstep⟩ := walk_append_ok_iff.1 hk'
    rw [walk_singleton] at hstep
    have hdir := step_directory hstep
    rw [mkdir_append_empties hempties, mkdir_concat t l init hlast, hk]
    cases last with
    | name n =>
      refine create_exist (Option.isSome_iff_ne_none.2 fun hnone => ?_)
      rw [step_name_missing hdir hnone] at hstep
      simp at hstep
    | _ => exact if_pos hdir

/-- A directory is made when only its name is missing. -/
theorem mkdir_missing {before empties : List (Segment ν)} (hwalk : t.walk l before = .ok m)
    (hm : t.typeOf m = some .directory) (hn : t.typeOf (n :: m) = none)
    (hempties : ∀ s ∈ empties, Segment.isEmpty s = true) :
    t.mkdir l (before ++ .name n :: empties) = .ok (t.insert n m hm) := by
  have hsegs : before ++ .name n :: empties = before ++ [.name n] ++ empties := by simp
  rw [hsegs, mkdir_append_empties hempties, mkdir_concat t l before rfl, hwalk]
  exact create_ok_iff.2 ⟨hm, hn, rfl⟩

/-- A name is missing before the last one. -/
theorem mkdir_noent {before after : List (Segment ν)} (hwalk : t.walk l before = .ok m)
    (hm : t.typeOf m = some .directory) (hn : t.typeOf (n :: m) = none)
    (hafter : ¬ ∀ s ∈ after, Segment.isEmpty s = true) :
    t.mkdir l (before ++ .name n :: after) = .error .noent := by
  rcases segments_cases after with hall | ⟨init, last, empties, hsegs, hlast, hempties⟩
  · exact absurd hall hafter
  · have hsplit : before ++ .name n :: after =
        before ++ [.name n] ++ init ++ [last] ++ empties := by rw [hsegs]; simp
    have hstop : t.walk l (before ++ [.name n]) = .error .noent := by
      rw [walk_append, hwalk]
      exact (walk_singleton t m _).trans (step_name_missing hm hn)
    rw [hsplit, mkdir_append_empties hempties, mkdir_concat t l _ hlast,
      walk_append_error hstop]
    rfl

/-- A file on the way is no directory, or it is the last one. -/
theorem mkdir_file {before after : List (Segment ν)} {s : Segment ν}
    (hwalk : t.walk l before = .ok m) (hm : t.typeOf m ≠ some .directory) :
    t.mkdir l (before ++ s :: after) = .error .exist ∨
      t.mkdir l (before ++ s :: after) = .error .notdir := by
  rcases segments_cases (s :: after) with hall | ⟨init, last, empties, hsegs, hlast, hempties⟩
  · rw [mkdir_append_empties hall]
    exact Or.inl (mkdir_walk_ok hwalk)
  · refine Or.inr ?_
    rw [hsegs, ← List.append_assoc, ← List.append_assoc, mkdir_append_empties hempties,
      mkdir_concat t l _ hlast, walk_append, hwalk]
    cases init with
    | nil =>
      cases last with
      | name n => exact dif_neg hm
      | _ => exact if_neg hm
    | cons s' init =>
      show (t.step m s' >>= _) >>= _ = _
      rw [step_file hm]
      rfl

/-- What `mkdir` makes is a new directory where the path leads to. -/
theorem mkdir_ok {u : Tree ν} (h : t.mkdir l segs = .ok u) :
    ∃ n m, ∃ hm : t.typeOf m = some .directory, t.typeOf (n :: m) = none ∧
      u = t.insert n m hm ∧ u.walk l segs = .ok (n :: m) := by
  rcases segments_cases segs with hall | ⟨init, last, empties, hsegs, hlast, hempties⟩
  · rw [mkdir_empties hall] at h
    simp at h
  · rw [hsegs, mkdir_append_empties hempties, mkdir_concat t l init hlast] at h
    obtain ⟨m, hwalk, hlast⟩ := bind_ok_iff.1 h
    cases last with
    | name n =>
      obtain ⟨hm, hn, hu⟩ := create_ok_iff.1 hlast
      refine ⟨n, m, hm, hn, hu, ?_⟩
      have hself : u.typeOf (n :: m) = some .directory := by rw [hu]; exact insert_self hm
      have hext : t.Extends u := by rw [hu]; exact insert_extends hm hn
      rw [hsegs]
      refine walk_append_ok_iff.2 ⟨n :: m, walk_append_ok_iff.2 ⟨m, hext.walk hwalk, ?_⟩,
        walk_empties hself hempties⟩
      rw [walk_singleton, Tree.step, if_pos (hext.typeOf m _ hm)]
      simp [hself]
    | _ => simp only at hlast; split at hlast <;> simp at hlast

end Mkdir

/-! ## Chains of directories -/

theorem addChain_name (hl : t.typeOf l = some .directory) (hn : t.typeOf (n :: l) = none)
    (segs : List (Segment ν)) :
    t.addChain l (.name n :: segs) = (t.insert n l hl).addChain (n :: l) segs := by
  rw [addChain, create_ok_iff.2 ⟨hl, hn, rfl⟩]

/-- Names below a new directory: all of them are made, and the chain goes on below the
last one. -/
theorem addChain_names (hnames : ∀ s ∈ segs, Segment.isName s = true)
    (hl : t.typeOf l = some .directory) (hfresh : ∀ n, t.typeOf (n :: l) = none) :
    ∃ m, t.Extends (t.addChain l segs) ∧ (t.addChain l segs).walk l segs = .ok m ∧
      (t.addChain l segs).typeOf m = some .directory ∧
      (∀ n, (t.addChain l segs).typeOf (n :: m) = none) ∧
      ∀ rest, t.addChain l (segs ++ rest) = (t.addChain l segs).addChain m rest := by
  induction segs generalizing t l with
  | nil => exact ⟨l, Extends.refl t, rfl, hl, hfresh, fun _ => rfl⟩
  | cons s segs ih =>
    cases s with
    | name n =>
      have hn := hfresh n
      obtain ⟨m, hext, hwalk, hm, hbelow, hrest⟩ :=
        ih (fun s hs => hnames s (List.mem_cons_of_mem _ hs)) (insert_self (n := n) hl)
          (insert_fresh hl hn)
      rw [addChain_name hl hn]
      refine ⟨m, (insert_extends hl hn).trans hext, ?_, hm, hbelow, fun rest => ?_⟩
      · have hdir := hext.typeOf _ _ (insert_self (n := n) hl)
        have hparent := hext.typeOf _ _ ((insert_extends hl hn).typeOf l _ hl)
        refine run_cons_ok_iff.2 ⟨n :: l, ?_, hwalk⟩
        rw [Tree.step, if_pos hparent]
        simp [hdir]
      · rw [List.cons_append, addChain_name hl hn]
        exact hrest rest
    | _ => exact Bool.noConfusion (hnames _ (List.mem_cons_self ..))

/-- A missing name followed by slashes and names: the path leads to the end of the chain. -/
theorem addChain_missing {after : List (Segment ν)} (hl : t.typeOf l = some .directory)
    (hn : t.typeOf (n :: l) = none)
    (hnames : ∀ s ∈ after.dropWhile Segment.isEmpty, Segment.isName s = true) :
    ∃ t' m, t.addChain l (.name n :: after.dropWhile Segment.isEmpty) = t' ∧ t.Extends t' ∧
      t'.walk l (.name n :: after) = .ok m ∧ t'.typeOf m = some .directory ∧
      (∀ k, t'.typeOf (k :: m) = none) ∧
      ∀ rest, t.addChain l (.name n :: (after.dropWhile Segment.isEmpty ++ rest)) =
        t'.addChain m rest := by
  have hself := insert_self (n := n) hl
  have ⟨m, hext, hwalk, hm, hbelow, hrest⟩ := addChain_names hnames hself (insert_fresh hl hn)
  refine ⟨_, m, addChain_name hl hn _, (insert_extends hl hn).trans hext, ?_, hm, hbelow,
    fun rest => (addChain_name hl hn _).trans (hrest rest)⟩
  have hname := hext.typeOf _ _ hself
  have hparent := hext.typeOf _ _ ((insert_extends hl hn).typeOf l _ hl)
  refine run_cons_ok_iff.2 ⟨n :: l, ?_, (walk_dropWhile hname after).trans hwalk⟩
  rw [Tree.step, if_pos hparent]
  simp [hname]

/-- After the names no directory is made. -/
theorem addChain_dropWhile (t : Tree ν) (l : List ν) (segs : List (Segment ν)) :
    t.addChain l (segs.dropWhile Segment.isName) = t := by
  induction segs with
  | nil => rfl
  | cons s segs ih =>
    cases s with
    | name n => exact ih
    | _ => rfl

/-- A chain stops at the first segment that is no name. -/
theorem addChain_append (t : Tree ν) (l : List ν) (rest : List (Segment ν))
    (h : ¬ ∀ s ∈ segs, Segment.isName s = true) :
    t.addChain l (segs ++ rest) = t.addChain l segs := by
  induction segs generalizing t l with
  | nil => exact absurd (by simp) h
  | cons s segs ih =>
    cases s with
    | name n =>
      rw [List.cons_append, addChain, addChain]
      cases t.create l n with
      | error e => rfl
      | ok u =>
        refine ih u (n :: l) fun hall => h fun s hs => ?_
        rcases List.mem_cons.1 hs with rfl | hs
        · rfl
        · exact hall s hs
    | _ => rfl

end Making

end Tree

end QuicOnNs3.DirectoryTree
