import Mathlib.Data.List.Sort
import Mathlib.Data.List.TakeWhile

/-!
# Ordered multimaps as sorted lists

A multimap whose entries carry their key is the list of its entries in key
order.  An insertion goes behind every entry of an equal key, as
`std::multimap::insert` and `emplace` do, so equal keys keep the order of
their insertion.  The order of the insertion is `List.orderedInsert` for the
strict order of the keys.
-/

namespace QuicOnNs3.Multimap

variable {ι κ : Type*} [LinearOrder κ] (key : ι → κ)

/-- The entries are in key order. -/
def Sorted (m : List ι) : Prop := m.Pairwise fun i j => key i ≤ key j

/-- Insert `i` behind every entry whose key is not above its own. -/
def insertUpper (i : ι) (m : List ι) : List ι :=
  m.orderedInsert (fun i j => key i < key j) i

variable {key}

theorem mem_insertUpper {i j : ι} {m : List ι} :
    j ∈ insertUpper key i m ↔ j = i ∨ j ∈ m :=
  List.mem_orderedInsert _

theorem insertUpper_perm (i : ι) (m : List ι) : (insertUpper key i m).Perm (i :: m) :=
  List.perm_orderedInsert _ i m

/-- An entry below the first one goes in front. -/
theorem insertUpper_cons_of_lt {i j : ι} {m : List ι} (h : key i < key j) :
    insertUpper key i (j :: m) = i :: j :: m :=
  List.orderedInsert_cons_of_le (fun i j => key i < key j) m h

/-- The entries that are left when the new one is taken out again. -/
theorem filter_insertUpper {p : ι → Bool} {i : ι} {m : List ι} (hi : p i = false)
    (hm : ∀ j ∈ m, p j = true) : (insertUpper key i m).filter p = m := by
  induction m with
  | nil => simp [insertUpper, hi]
  | cons j m ih =>
    have hj := hm j (List.mem_cons_self ..)
    have hrest := ih fun k hk => hm k (List.mem_cons_of_mem _ hk)
    rw [insertUpper, List.orderedInsert_cons]
    split_ifs
    · rw [List.filter_cons_of_neg (by simp [hi]), List.filter_eq_self.2 hm]
    · rw [List.filter_cons_of_pos hj]
      exact congrArg (j :: ·) hrest

/-- The other entries, when the new one is not among them. -/
theorem filter_insertUpper_of_neg {p : ι → Bool} {i : ι} (hi : p i = false) (m : List ι) :
    (insertUpper key i m).filter p = m.filter p := by
  induction m with
  | nil => simp [insertUpper, hi]
  | cons j m ih =>
    rw [insertUpper, List.orderedInsert_cons]
    split_ifs
    · rw [List.filter_cons_of_neg (by simp [hi])]
    · rw [List.filter_cons, List.filter_cons]
      rw [insertUpper] at ih
      rw [ih]

theorem Sorted.insertUpper {m : List ι} (h : Sorted key m) (i : ι) :
    Sorted key (insertUpper key i m) := by
  induction m with
  | nil => simp [Sorted, Multimap.insertUpper]
  | cons j m ih =>
    simp only [Sorted, List.pairwise_cons] at h
    simp only [Sorted, Multimap.insertUpper, List.orderedInsert_cons]
    split
    · rename_i hlt
      refine List.pairwise_cons.2 ⟨?_, List.pairwise_cons.2 h⟩
      intro k hk
      rcases List.mem_cons.1 hk with rfl | hk
      · exact hlt.le
      · exact hlt.le.trans (h.1 k hk)
    · rename_i hge
      refine List.pairwise_cons.2 ⟨?_, ih h.2⟩
      intro k hk
      rcases mem_insertUpper.1 hk with rfl | hk
      · exact le_of_not_gt hge
      · exact h.1 k hk

theorem Sorted.head_le {i : ι} {m : List ι} (h : Sorted key (i :: m)) {j : ι}
    (hj : j ∈ i :: m) : key i ≤ key j := by
  rcases List.mem_cons.1 hj with rfl | hj
  · exact le_refl _
  · exact (List.pairwise_cons.1 h).1 j hj

theorem Sorted.sublist {m m' : List ι} (h : Sorted key m) (hs : m'.Sublist m) : Sorted key m' :=
  List.Pairwise.sublist hs h

/-- Past the entries up to `t`, every key is above `t`. -/
theorem Sorted.lt_of_mem_dropWhile {m : List ι} (h : Sorted key m) {t : κ} {i : ι}
    (hi : i ∈ m.dropWhile fun j => decide (key j ≤ t)) : t < key i := by
  induction m with
  | nil => simp at hi
  | cons j m ih =>
    rw [List.dropWhile_cons] at hi
    split at hi
    · exact ih (List.pairwise_cons.1 h).2 hi
    · rename_i hj
      have hlt : t < key j := by simpa using hj
      exact hlt.trans_le (h.head_le hi)

/-- The entries up to `t` come first. -/
theorem Sorted.takeWhile_eq_filter {m : List ι} (h : Sorted key m) (t : κ) :
    (m.takeWhile fun i => decide (key i ≤ t)) = m.filter fun i => decide (key i ≤ t) := by
  conv_rhs => rw [← List.takeWhile_append_dropWhile (p := fun i => decide (key i ≤ t)) (l := m)]
  rw [List.filter_append, List.filter_eq_self.2, List.filter_eq_nil_iff.2, List.append_nil]
  · intro i hi
    simpa using h.lt_of_mem_dropWhile hi
  · intro i hi
    exact List.mem_takeWhile_imp (p := fun i => decide (key i ≤ t)) hi

/-- The entries above `t` come last. -/
theorem Sorted.dropWhile_eq_filter {m : List ι} (h : Sorted key m) (t : κ) :
    (m.dropWhile fun i => decide (key i ≤ t)) = m.filter fun i => decide (t < key i) := by
  conv_rhs => rw [← List.takeWhile_append_dropWhile (p := fun i => decide (key i ≤ t)) (l := m)]
  rw [List.filter_append, List.filter_eq_nil_iff.2, List.nil_append, List.filter_eq_self.2]
  · intro i hi
    simpa using h.lt_of_mem_dropWhile hi
  · intro i hi
    simpa using List.mem_takeWhile_imp (p := fun i => decide (key i ≤ t)) hi

/-! ## The order of insertion -/

section Stable

variable {stamp : ι → Nat}

variable (key stamp) in
/-- The entries are in key order, and those of one key in the order of their stamps. -/
def Stable (m : List ι) : Prop :=
  m.Pairwise fun i j => key i < key j ∨ key i = key j ∧ stamp i < stamp j

theorem Stable.sublist {m m' : List ι} (h : Stable key stamp m) (hs : m'.Sublist m) :
    Stable key stamp m' :=
  List.Pairwise.sublist hs h

/-- With a stamp above all others an insertion keeps the order. -/
theorem Stable.insertUpper {i : ι} {m : List ι} (h : Stable key stamp m)
    (hi : ∀ j ∈ m, stamp j < stamp i) : Stable key stamp (insertUpper key i m) := by
  induction m with
  | nil => simp [Stable, Multimap.insertUpper]
  | cons j m ih =>
    obtain ⟨hfirst, hrest⟩ := List.pairwise_cons.1 h
    have ih := ih hrest fun k hk => hi k (List.mem_cons_of_mem _ hk)
    unfold Multimap.insertUpper at ih ⊢
    rw [List.orderedInsert_cons]
    split_ifs with hlt
    · refine List.pairwise_cons.2 ⟨fun k hk => Or.inl ?_, h⟩
      rcases List.mem_cons.1 hk with hkj | hk
      · rw [hkj]
        exact hlt
      · rcases hfirst k hk with hjk | ⟨heq, _⟩
        · exact hlt.trans hjk
        · rw [← heq]
          exact hlt
    · refine List.pairwise_cons.2 ⟨fun k hk => ?_, ih⟩
      rcases mem_insertUpper.1 hk with hki | hk
      · rw [hki]
        have hstamp := hi j (List.mem_cons_self ..)
        rcases (not_lt.1 hlt).lt_or_eq with hjk | heq
        · exact Or.inl hjk
        · exact Or.inr ⟨heq, hstamp⟩
      · exact hfirst k hk

end Stable

/-! ## Entries told apart by a field -/

section Field

variable {ν : Type*} [DecidableEq ν] {f : ι → ν} {m : List ι} {i : ι}

theorem filter_eq_of_nodup (h : (m.map f).Nodup) (hi : i ∈ m) :
    (m.filter fun j => f j = f i) = [i] := by
  induction m with
  | nil => simp at hi
  | cons j m ih =>
    simp only [List.map_cons, List.nodup_cons, List.mem_map, not_exists, not_and] at h
    rcases List.mem_cons.1 hi with rfl | hi
    · rw [List.filter_cons_of_pos (by simp), List.filter_eq_nil_iff.2]
      intro k hk
      simpa using h.1 k hk
    · rw [List.filter_cons_of_neg (by simpa using fun heq => h.1 i hi heq.symm), ih h.2 hi]

theorem find?_eq_of_nodup (h : (m.map f).Nodup) (hi : i ∈ m) :
    (m.find? fun j => f j = f i) = some i := by
  rw [← List.head?_filter, filter_eq_of_nodup h hi, List.head?_cons]

/-- Taking the entry out and putting it in front changes the order only. -/
theorem perm_cons_filter_ne (h : (m.map f).Nodup) (hi : i ∈ m) :
    m.Perm (i :: m.filter fun j => f j ≠ f i) := by
  have hperm := (List.filter_append_perm (fun j => decide (f j = f i)) m).symm
  rw [filter_eq_of_nodup h hi] at hperm
  simpa using hperm

end Field

end QuicOnNs3.Multimap
