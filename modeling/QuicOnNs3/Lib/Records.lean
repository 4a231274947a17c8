import Mathlib.Algebra.Order.Group.Int
import Mathlib.Order.Lattice

/-!
# Records of a sequence

A term of a sequence is a record when it is above a starting value and above all
earlier terms.  `records` lists them, `repeats` counts the terms that are equal to the
largest value so far, and the largest value is the fold of `max`.

A sequence of integers has no more records than it climbs (`records_length_le`).
-/

namespace QuicOnNs3.Records

variable {α β : Type*} [LinearOrder α]

/-- The terms above `m` and above all earlier terms. -/
def records : α → List α → List α
  | _, [] => []
  | m, x :: xs => if m < x then x :: records x xs else records m xs

/-- The number of terms that are equal to the largest of `m` and the earlier terms. -/
def repeats : α → List α → Nat
  | _, [] => 0
  | m, x :: xs => (if x = m then 1 else 0) + repeats (max m x) xs

theorem records_append (m : α) (xs ys : List α) :
    records m (xs ++ ys) = records m xs ++ records (xs.foldl max m) ys := by
  induction xs generalizing m with
  | nil => rfl
  | cons x xs ih =>
    rw [List.cons_append, records, records, List.foldl_cons]
    split_ifs with h
    · rw [ih, max_eq_right (le_of_lt h), List.cons_append]
    · rw [ih, max_eq_left (not_lt.1 h)]

theorem repeats_append (m : α) (xs ys : List α) :
    repeats m (xs ++ ys) = repeats m xs + repeats (xs.foldl max m) ys := by
  induction xs generalizing m with
  | nil => simp [repeats]
  | cons x xs ih =>
    rw [List.cons_append, repeats, repeats, List.foldl_cons, ih, Nat.add_assoc]

/-- No term is equal to the largest value before it. -/
theorem repeats_map_eq_zero_iff {f : β → α} {m : α} {xs : List β} :
    repeats m (xs.map f) = 0 ↔
      ∀ (ys zs : List β) (x : β), xs = ys ++ x :: zs → f x ≠ (ys.map f).foldl max m := by
  constructor
  · intro h ys zs x hsplit hx
    rw [hsplit, List.map_append, List.map_cons, repeats_append, repeats, if_pos hx] at h
    omega
  · intro h
    induction xs generalizing m with
    | nil => rfl
    | cons x xs ih =>
      have hx : f x ≠ m := h [] xs x rfl
      rw [List.map_cons, repeats, if_neg hx, Nat.zero_add]
      apply ih
      intro ys zs y hsplit
      exact h (x :: ys) zs y (by rw [hsplit]; rfl)

/-- Each record of a sequence of integers is a step up. -/
theorem records_length_le (m : Int) (xs : List Int) :
    m + (records m xs).length ≤ xs.foldl max m := by
  induction xs generalizing m with
  | nil => simp [records]
  | cons x xs ih =>
    rw [records, List.foldl_cons]
    split_ifs with h
    · have hrest := ih x
      rw [max_eq_right (le_of_lt h), List.length_cons]
      omega
    · have hrest := ih m
      rw [max_eq_left (not_lt.1 h)]
      exact hrest

/-- In a sequence that climbs, every term is a record. -/
theorem records_of_pairwise {m : α} {xs : List α} (h : (m :: xs).Pairwise (· < ·)) :
    records m xs = xs ∧ repeats m xs = 0 ∧ xs.foldl max m = xs.getLastD m := by
  induction xs generalizing m with
  | nil => exact ⟨rfl, rfl, rfl⟩
  | cons x xs ih =>
    obtain ⟨hm, hxs⟩ := List.pairwise_cons.1 h
    have hlt : m < x := hm x (List.mem_cons_self ..)
    obtain ⟨hrecords, hrepeats, hmax⟩ := ih hxs
    refine ⟨?_, ?_, ?_⟩
    · rw [records, if_pos hlt, hrecords]
    · rw [repeats, if_neg (ne_of_gt hlt), max_eq_right (le_of_lt hlt), hrepeats]
    · rw [List.foldl_cons, max_eq_right (le_of_lt hlt), hmax, List.getLastD_cons]

end QuicOnNs3.Records
