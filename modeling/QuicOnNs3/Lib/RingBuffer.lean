import Mathlib.Algebra.BigOperators.Group.List.Basic
import Mathlib.Data.List.DropRight
import Mathlib.Data.List.Rotate

/-!
# Ring buffers

A ring buffer of `n` values is never short of one: a push overwrites the value at the
tail, which is the oldest one, and moves the tail on.  `ordered` reads the ring from its
tail, so it lists the values in the order of their pushes.

* `ordered_push` says what one push does to that list: the oldest value goes, and the new
  one is the last.
* `ordered_pushAll_replicate` says what the ring holds after any number of pushes: the
  last `n` values that were pushed, after what is left of the initial ones.
* `total_push` and `total_pushAll_replicate` say the same of a sum over the ring, which a
  program may keep up to date with the difference of the two values.
-/

namespace QuicOnNs3.RingBuffer

variable {α β : Type*} {n : Nat}

/-- The values with the place of the oldest one. -/
structure Buffer (α : Type*) (n : Nat) where
  values : Vector α n
  tail : Fin n
  deriving DecidableEq, Repr

/-- The place after `i`. -/
def next (i : Fin n) : Fin n := ⟨(i.val + 1) % n, Nat.mod_lt _ i.pos⟩

namespace Buffer

/-- A ring that holds `z` everywhere. -/
def replicate (h : 0 < n) (z : α) : Buffer α n := ⟨.replicate n z, ⟨0, h⟩⟩

/-- The value that the next push overwrites. -/
def oldest (b : Buffer α n) : α := b.values[b.tail]

/-- The new value takes the place of the oldest one. -/
def push (b : Buffer α n) (x : α) : Buffer α n := ⟨b.values.set b.tail x, next b.tail⟩

/-- The ring after a sequence of pushes, the first one first. -/
def pushAll (b : Buffer α n) (xs : List α) : Buffer α n := xs.foldl push b

/-- The values in the order of their pushes. -/
def ordered (b : Buffer α n) : List α := b.values.toList.rotate b.tail

variable {b : Buffer α n}

/-! ## The values in order -/

@[simp] theorem ordered_length (b : Buffer α n) : b.ordered.length = n := by
  rw [ordered, List.length_rotate, Vector.length_toList]

theorem ordered_replicate (h : 0 < n) (z : α) :
    (replicate h z).ordered = List.replicate n z := by
  rw [ordered, replicate, List.rotate_zero, Vector.toList_replicate]

/-- A list read from the place after the one that is written. -/
theorem rotate_set_succ (l : List α) {i : Nat} (x : α) (hi : i < l.length) :
    (l.set i x).rotate (i + 1) = (l.rotate i).tail ++ [x] := by
  have hne : l.drop i ≠ [] := List.drop_eq_nil_iff.not.2 (not_le.2 hi)
  have htake : (l.set i x).take (i + 1) = l.take i ++ [x] := by
    rw [List.take_add_one, List.take_set_of_le (le_refl i)]
    simp [hi]
  have hle : i + 1 ≤ (l.set i x).length := by rwa [List.length_set]
  rw [List.rotate_eq_drop_append_take hle,
    List.rotate_eq_drop_append_take (le_of_lt hi), htake,
    List.drop_set_of_lt (Nat.lt_succ_self i), List.tail_append_of_ne_nil hne, List.tail_drop,
    List.append_assoc]

theorem ordered_push (b : Buffer α n) (x : α) :
    (b.push x).ordered = b.ordered.tail ++ [x] := by
  have hlength : (b.values.toList.set b.tail x).length = n := by simp
  have hrotate := List.rotate_mod (b.values.toList.set b.tail x) (b.tail.val + 1)
  rw [hlength] at hrotate
  rw [ordered, push, Vector.toList_set]
  exact hrotate.trans (rotate_set_succ _ x (by simp))

theorem pushAll_concat (b : Buffer α n) (xs : List α) (x : α) :
    b.pushAll (xs ++ [x]) = (b.pushAll xs).push x := by
  simp [pushAll]

/-- Every push drops one of the values that were there, the oldest first. -/
theorem ordered_pushAll (b : Buffer α n) (xs : List α) :
    (b.pushAll xs).ordered = (b.ordered ++ xs).drop xs.length := by
  induction xs using List.reverseRecOn with
  | nil => simp [pushAll]
  | append_singleton xs x ih =>
    have hpos : 0 < n := b.tail.pos
    have hle : xs.length + 1 ≤ (b.ordered ++ xs).length := by
      rw [List.length_append, ordered_length]
      omega
    rw [pushAll_concat, ordered_push, ih, List.tail_drop, List.length_append,
      List.length_singleton, ← List.append_assoc, List.drop_append_of_le_length hle]

/-- The ring holds the last `n` values, after what is left of the initial ones. -/
theorem ordered_pushAll_replicate (h : 0 < n) (z : α) (xs : List α) :
    ((replicate h z).pushAll xs).ordered = List.replicate (n - xs.length) z ++ xs.rtake n := by
  rw [ordered_pushAll, ordered_replicate, List.drop_append, List.drop_replicate,
    List.length_replicate, List.rtake]

/-! ## The tail -/

theorem tail_pushAll (b : Buffer α n) (xs : List α) :
    (b.pushAll xs).tail.val = (b.tail.val + xs.length) % n := by
  induction xs using List.reverseRecOn with
  | nil => exact (Nat.mod_eq_of_lt b.tail.isLt).symm
  | append_singleton xs x ih =>
    rw [pushAll_concat]
    show ((b.pushAll xs).tail.val + 1) % n = _
    rw [ih, Nat.mod_add_mod, List.length_append, List.length_singleton, Nat.add_assoc]

/-! ## Sums over the ring -/

section Total

variable [AddCommGroup β] {f : α → β}

/-- The sum of what `f` reads of the values. -/
def total (f : α → β) (b : Buffer α n) : β := (b.values.toList.map f).sum

theorem total_eq_ordered (f : α → β) (b : Buffer α n) : b.total f = (b.ordered.map f).sum :=
  ((List.rotate_perm b.values.toList b.tail).map f).sum_eq.symm

/-- A push changes the sum by the difference of the new value and the oldest one. -/
theorem total_push (f : α → β) (b : Buffer α n) (x : α) :
    (b.push x).total f = b.total f + (f x - f b.oldest) := by
  have hlt : b.tail.val < (b.values.toList.map f).length := by simp
  rw [total, total, push, Vector.toList_set, List.map_set, List.sum_set', dif_pos hlt,
    List.getElem_map, Vector.getElem_toList, neg_add_eq_sub]
  rfl

/-- The sum over the ring is the sum of the last `n` values, when the initial value
counts for nothing. -/
theorem total_pushAll_replicate (h : 0 < n) {z : α} (hz : f z = 0) (xs : List α) :
    ((replicate h z).pushAll xs).total f = ((xs.rtake n).map f).sum := by
  rw [total_eq_ordered, ordered_pushAll_replicate, List.map_append, List.sum_append,
    List.map_replicate, hz, List.sum_replicate, nsmul_zero, zero_add]

end Total

end Buffer

end QuicOnNs3.RingBuffer
