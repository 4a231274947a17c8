import Mathlib.Data.List.Basic
import Mathlib.Data.List.Perm.Basic

/-!
# Binary search trees with a given comparison

The search tree under an ordered map with unique keys, and the two descents
that the map makes in it: `find` looks for the first key that is not below `k`
and compares it with `k` once more, and `insertUnique` goes down to a leaf and
asks whether the key before that leaf is below `k`.  Both descents are defined
for every comparison `lt`; what they find is as good as `lt` is.

`TotalOn lt S` says that `lt` orders the keys of `S` strictly and totally.  On
such keys `find_iff` and `insertUnique_spec` are the laws of a map.  The tree is
not rebalanced: a rotation keeps the order of the nodes, and the laws depend on
that order only.
-/

namespace QuicOnNs3.SearchTree

variable {κ ν : Type*}

/-- A tree of keys with their values. -/
inductive Tree (κ ν : Type*) where
  | leaf : Tree κ ν
  | node (l : Tree κ ν) (k : κ) (v : ν) (r : Tree κ ν) : Tree κ ν

namespace Tree

/-- The entries from left to right. -/
def toList : Tree κ ν → List (κ × ν)
  | leaf => []
  | node l k v r => l.toList ++ (k, v) :: r.toList

/-- The first entry not below `k`, or else `y`. -/
def lowerBound (lt : κ → κ → Bool) (k : κ) : Tree κ ν → Option (κ × ν) → Option (κ × ν)
  | leaf, y => y
  | node l k' v r, y => if lt k' k then r.lowerBound lt k y else l.lowerBound lt k (some (k', v))

/-- The entry that the map finds under `k`. -/
def find (lt : κ → κ → Bool) (k : κ) (t : Tree κ ν) : Option (κ × ν) :=
  match t.lowerBound lt k none with
  | none => none
  | some e => if lt k e.1 then none else some e

/-- Insert at the leaf that the descent reaches, unless the key `prev` before
that leaf is not below `k`. -/
def insertAt (lt : κ → κ → Bool) (k : κ) (v : ν) :
    Tree κ ν → Option κ → Option (Tree κ ν)
  | leaf, none => some (node leaf k v leaf)
  | leaf, some p => if lt p k then some (node leaf k v leaf) else none
  | node l k' v' r, prev =>
    if lt k k' then (l.insertAt lt k v prev).map (node · k' v' r)
    else (r.insertAt lt k v (some k')).map (node l k' v' ·)

/-- Insert an entry; `none` when the map takes `k` for a key it has. -/
def insertUnique (lt : κ → κ → Bool) (k : κ) (v : ν) (t : Tree κ ν) : Option (Tree κ ν) :=
  t.insertAt lt k v none

/-- The keys are in order. -/
def Ordered (lt : κ → κ → Bool) (t : Tree κ ν) : Prop :=
  t.toList.Pairwise fun x y => lt x.1 y.1 = true

/-- The keys of the tree. -/
def keys (t : Tree κ ν) : List κ := t.toList.map Prod.fst

theorem keys_node (l : Tree κ ν) (k : κ) (v : ν) (r : Tree κ ν) :
    (node l k v r).keys = l.keys ++ k :: r.keys := by
  simp [keys, toList]

/-! ## Comparisons that order the keys -/

/-- `lt` orders `S` strictly and totally. -/
structure TotalOn (lt : κ → κ → Bool) (S : Set κ) : Prop where
  irrefl : ∀ a ∈ S, lt a a = false
  trans : ∀ a ∈ S, ∀ b ∈ S, ∀ c ∈ S, lt a b = true → lt b c = true → lt a c = true
  total : ∀ a ∈ S, ∀ b ∈ S, lt a b = true ∨ a = b ∨ lt b a = true

variable {lt : κ → κ → Bool} {S : Set κ} {k : κ} {v : ν} {t : Tree κ ν}

theorem TotalOn.asymm (h : TotalOn lt S) {a b : κ} (ha : a ∈ S) (hb : b ∈ S)
    (hab : lt a b = true) : lt b a = false := by
  by_contra hba
  have haa := h.trans a ha b hb a ha hab (by simpa using hba)
  simp [h.irrefl a ha] at haa

/-- The keys of the tree are in `S`. -/
def KeysIn (t : Tree κ ν) (S : Set κ) : Prop := ∀ x ∈ t.keys, x ∈ S

theorem KeysIn.left {l r : Tree κ ν} {k' : κ} (h : KeysIn (node l k' v r) S) : KeysIn l S :=
  fun x hx => h x (by simp [keys_node, hx])

theorem KeysIn.right {l r : Tree κ ν} {k' : κ} (h : KeysIn (node l k' v r) S) : KeysIn r S :=
  fun x hx => h x (by simp [keys_node, hx])

theorem KeysIn.root {l r : Tree κ ν} {k' : κ} (h : KeysIn (node l k' v r) S) : k' ∈ S :=
  h k' (by simp [keys_node])

/-- The two subtrees, and how the root lies between them. -/
theorem ordered_node {l r : Tree κ ν} {k' : κ} :
    Ordered lt (node l k' v r) ↔ Ordered lt l ∧ Ordered lt r ∧
      (∀ x ∈ l.toList, lt x.1 k' = true) ∧ (∀ y ∈ r.toList, lt k' y.1 = true) ∧
      ∀ x ∈ l.toList, ∀ y ∈ r.toList, lt x.1 y.1 = true := by
  simp only [Ordered, toList, List.pairwise_append, List.pairwise_cons, List.mem_cons]
  constructor
  · rintro ⟨hl, ⟨hroot, hr⟩, hcross⟩
    exact ⟨hl, hr, fun x hx => hcross x hx _ (Or.inl rfl), hroot,
      fun x hx y hy => hcross x hx y (Or.inr hy)⟩
  · rintro ⟨hl, hr, hlt, hroot, hcross⟩
    refine ⟨hl, ⟨hroot, hr⟩, ?_⟩
    rintro x hx y (rfl | hy)
    · exact hlt x hx
    · exact hcross x hx y hy

theorem mem_keys_of_mem {e : κ × ν} (h : e ∈ t.toList) : e.1 ∈ t.keys :=
  List.mem_map_of_mem h

/-! ## Looking a key up -/

/-- The descent finds the first entry that is not below `k`. -/
theorem lowerBound_eq (h : TotalOn lt S) (ht : Ordered lt t) (hS : KeysIn t S) (hk : k ∈ S)
    (y : Option (κ × ν)) :
    t.lowerBound lt k y = (t.toList.find? fun e => !lt e.1 k).or y := by
  induction t generalizing y with
  | leaf => simp [lowerBound, toList]
  | node l k' v' r ihl ihr =>
    obtain ⟨hl, hr, hleft, -, -⟩ := ordered_node.1 ht
    rw [lowerBound, toList, List.find?_append, List.find?_cons]
    split
    · rename_i hlt
      have hnone : l.toList.find? (fun e => !lt e.1 k) = none := by
        rw [List.find?_eq_none]
        intro x hx
        have hx' := h.trans x.1 (hS.left x.1 (mem_keys_of_mem hx)) k' hS.root k hk (hleft x hx) hlt
        simp [hx']
      rw [ihr hr hS.right, hnone]
      simp [hlt]
    · rename_i hge
      rw [ihl hl hS.left]
      cases hfind : l.toList.find? fun e => !lt e.1 k with
      | none => simp [hge]
      | some e => simp

/-- The map finds exactly the entry of the key. -/
theorem find_iff (h : TotalOn lt S) (ht : Ordered lt t) (hS : KeysIn t S) (hk : k ∈ S)
    {e : κ × ν} : t.find lt k = some e ↔ e ∈ t.toList ∧ e.1 = k := by
  rw [find, lowerBound_eq h ht hS hk, Option.or_none]
  constructor
  · intro hfind
    split at hfind
    · simp at hfind
    · rename_i e' he'
      split_ifs at hfind with hlt
      obtain rfl : e' = e := by simpa using hfind
      have hmem := List.mem_of_find?_eq_some he'
      have hge : lt e'.1 k = false := by simpa using List.find?_some he'
      refine ⟨hmem, ?_⟩
      rcases h.total e'.1 (hS e'.1 (mem_keys_of_mem hmem)) k hk with hlt' | heq | hlt'
      · simp [hge] at hlt'
      · exact heq
      · exact absurd hlt' hlt
  · rintro ⟨hmem, rfl⟩
    obtain ⟨pre, suf, hsplit⟩ := List.append_of_mem hmem
    have hpre : ∀ x ∈ pre, lt x.1 e.1 = true := by
      intro x hx
      rw [Ordered, hsplit, List.pairwise_append] at ht
      exact ht.2.2 x hx e (by simp)
    have hnone : pre.find? (fun x => !lt x.1 e.1) = none := by
      rw [List.find?_eq_none]
      intro x hx
      simp [hpre x hx]
    rw [hsplit, List.find?_append, hnone]
    simp [h.irrefl e.1 hk]

/-! ## Inserting a new key -/

/-- A key below the root goes into the left subtree. -/
theorem Ordered.insert_left {l l' r : Tree κ ν} {k' : κ} {v' : ν}
    (ht : Ordered lt (node l k' v' r)) (h : TotalOn lt S) (hS : KeysIn (node l k' v' r) S)
    (hk : k ∈ S) (hlt : lt k k' = true) (hperm : l'.toList.Perm ((k, v) :: l.toList))
    (hl' : Ordered lt l') : Ordered lt (node l' k' v' r) := by
  obtain ⟨-, hr, hleft, hright, hcross⟩ := ordered_node.1 ht
  have hmem : ∀ x ∈ l'.toList, x = (k, v) ∨ x ∈ l.toList := fun x hx =>
    List.mem_cons.1 (hperm.mem_iff.1 hx)
  refine ordered_node.2 ⟨hl', hr, ?_, hright, ?_⟩
  · intro x hx
    rcases hmem x hx with rfl | hx
    · exact hlt
    · exact hleft x hx
  · intro x hx y hy
    rcases hmem x hx with rfl | hx
    · exact h.trans k hk k' hS.root y.1 (hS.right y.1 (mem_keys_of_mem hy)) hlt (hright y hy)
    · exact hcross x hx y hy

/-- A key above the root goes into the right subtree. -/
theorem Ordered.insert_right {l r r' : Tree κ ν} {k' : κ} {v' : ν}
    (ht : Ordered lt (node l k' v' r)) (h : TotalOn lt S) (hS : KeysIn (node l k' v' r) S)
    (hk : k ∈ S) (hlt : lt k' k = true) (hperm : r'.toList.Perm ((k, v) :: r.toList))
    (hr' : Ordered lt r') : Ordered lt (node l k' v' r') := by
  obtain ⟨hl, -, hleft, hright, hcross⟩ := ordered_node.1 ht
  have hmem : ∀ y ∈ r'.toList, y = (k, v) ∨ y ∈ r.toList := fun y hy =>
    List.mem_cons.1 (hperm.mem_iff.1 hy)
  refine ordered_node.2 ⟨hl, hr', hleft, ?_, ?_⟩
  · intro y hy
    rcases hmem y hy with rfl | hy
    · exact hlt
    · exact hright y hy
  · intro x hx y hy
    rcases hmem y hy with rfl | hy
    · exact h.trans x.1 (hS.left x.1 (mem_keys_of_mem hx)) k' hS.root k hk (hleft x hx) hlt
    · exact hcross x hx y hy

/-- A new key goes in at its place. -/
theorem insertAt_spec (h : TotalOn lt S) (hS : KeysIn t S) (hk : k ∈ S) (hnew : k ∉ t.keys)
    (v : ν) {prev : Option κ} (hprev : ∀ p, prev = some p → lt p k = true) :
    ∃ t', t.insertAt lt k v prev = some t' ∧ t'.toList.Perm ((k, v) :: t.toList) ∧
      (Ordered lt t → Ordered lt t') := by
  induction t generalizing prev with
  | leaf =>
    refine ⟨node leaf k v leaf, ?_, by simp [toList], fun _ => by simp [Ordered, toList]⟩
    cases prev with
    | none => rfl
    | some p => simp [insertAt, hprev p rfl]
  | node l k' v' r ihl ihr =>
    rw [keys_node] at hnew
    simp only [List.mem_append, List.mem_cons, not_or] at hnew
    rw [insertAt]
    split
    · rename_i hlt
      obtain ⟨l', hl', hperm, hord⟩ := ihl hS.left hnew.1 hprev
      refine ⟨node l' k' v' r, by simp [hl'], ?_, ?_⟩
      · simpa [toList] using hperm.append_right ((k', v') :: r.toList)
      · intro ht
        exact ht.insert_left h hS hk hlt hperm (hord (ordered_node.1 ht).1)
    · rename_i hge
      have hlt : lt k' k = true := by
        rcases h.total k hk k' hS.root with hlt | heq | hlt
        · exact absurd hlt hge
        · exact absurd heq hnew.2.1
        · exact hlt
      have hroot : ∀ p, some k' = some p → lt p k = true := by
        rintro p ⟨⟩
        exact hlt
      obtain ⟨r', hr', hperm, hord⟩ := ihr hS.right hnew.2.2 hroot
      refine ⟨node l k' v' r', by simp [hr'], ?_, ?_⟩
      · have hright := (hperm.cons (k', v')).append_left l.toList
        have hswap := (List.Perm.swap (k, v) (k', v') r.toList).append_left l.toList
        exact (hright.trans hswap).trans List.perm_middle
      · intro ht
        exact ht.insert_right h hS hk hlt hperm (hord (ordered_node.1 ht).2.1)

theorem insertUnique_spec (h : TotalOn lt S) (ht : Ordered lt t) (hS : KeysIn t S) (hk : k ∈ S)
    (hnew : k ∉ t.keys) (v : ν) :
    ∃ t', t.insertUnique lt k v = some t' ∧ t'.toList.Perm ((k, v) :: t.toList) ∧
      Ordered lt t' := by
  have hprev : ∀ p, (none : Option κ) = some p → lt p k = true := by simp
  obtain ⟨t', ht', hperm, hord⟩ := insertAt_spec h hS hk hnew v hprev
  exact ⟨t', ht', hperm, hord ht⟩

/-- The keys of an ordered tree are distinct. -/
theorem Ordered.keys_nodup (h : TotalOn lt S) (ht : Ordered lt t) (hS : KeysIn t S) :
    t.keys.Nodup := by
  refine List.pairwise_map.2 (List.Pairwise.imp_of_mem ?_ ht)
  intro x y hx _ hlt heq
  simp [heq, h.irrefl y.1 (heq ▸ hS x.1 (mem_keys_of_mem hx))] at hlt

/-! ## Emptying the map from the front -/

/-- The first entry, and the tree without it. -/
def popFirst : Tree κ ν → Option ((κ × ν) × Tree κ ν)
  | leaf => none
  | node l k v r =>
    match l.popFirst with
    | none => some ((k, v), r)
    | some (e, l') => some (e, node l' k v r)

theorem popFirst_cases (t : Tree κ ν) :
    t.popFirst = none ∧ t.toList = [] ∨
      ∃ e t', t.popFirst = some (e, t') ∧ t.toList = e :: t'.toList := by
  induction t with
  | leaf => exact Or.inl ⟨rfl, rfl⟩
  | node l k v r ihl ihr =>
    right
    rw [popFirst, toList]
    rcases ihl with ⟨hnone, hnil⟩ | ⟨e, l', hsome, hcons⟩
    · exact ⟨(k, v), r, by rw [hnone], by rw [hnil]; rfl⟩
    · exact ⟨e, node l' k v r, by rw [hsome], by rw [hcons]; rfl⟩

theorem popFirst_some {e : κ × ν} {t' : Tree κ ν} (h : t.popFirst = some (e, t')) :
    t.toList = e :: t'.toList := by
  rcases t.popFirst_cases with ⟨hnone, _⟩ | ⟨e', t'', hsome, hcons⟩
  · simp [hnone] at h
  · obtain ⟨rfl, rfl⟩ : e' = e ∧ t'' = t' := by simpa [hsome] using h
    exact hcons

/-- The entries as they come out when the first one is taken again and again. -/
def drain (t : Tree κ ν) : List (κ × ν) :=
  match _h : t.popFirst with
  | none => []
  | some (e, t') => e :: t'.drain
termination_by t.toList.length
decreasing_by
  rw [popFirst_some _h, List.length_cons]
  exact Nat.lt_succ_self _

/-- They come out in order, and all of them. -/
theorem drain_eq (t : Tree κ ν) : t.drain = t.toList := by
  induction hn : t.toList.length generalizing t with
  | zero =>
    rcases t.popFirst_cases with ⟨hnone, hnil⟩ | ⟨e, t', _, hcons⟩
    · rw [drain, hnil]
      split
      · rfl
      · rename_i hsome
        simp [hnone] at hsome
    · simp [hcons] at hn
  | succ n ih =>
    rcases t.popFirst_cases with ⟨_, hnil⟩ | ⟨e, t', hsome, hcons⟩
    · simp [hnil] at hn
    · rw [drain, hcons]
      split
      · rename_i hnone
        simp [hnone] at hsome
      · rename_i e' t'' hsome'
        obtain ⟨rfl, rfl⟩ : e' = e ∧ t'' = t' := by simpa [hsome] using hsome'.symm
        rw [ih t'' (by simpa [hcons] using hn)]

end Tree

end QuicOnNs3.SearchTree
