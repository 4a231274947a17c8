import Mathlib.Order.Basic

/-!
# Adjacent intervals

`Tiles start stop a rs c` says that the intervals from `start r` to `stop r`, for `r`
in the list `rs`, are not empty and lead from `a` to `c` without gap or overlap.
-/

namespace QuicOnNs3.Tiling

variable {α β : Type*} [Preorder α] {start stop : β → α}

/-- The intervals lead from the first point to the last one. -/
def Tiles (start stop : β → α) : α → List β → α → Prop
  | a, [], c => a = c
  | a, r :: rs, c => start r = a ∧ a < stop r ∧ Tiles start stop (stop r) rs c

theorem tiles_append {a c : α} {rs rs' : List β} :
    Tiles start stop a (rs ++ rs') c ↔
      ∃ b, Tiles start stop a rs b ∧ Tiles start stop b rs' c := by
  induction rs generalizing a with
  | nil => simp [Tiles]
  | cons r rs ih => simp [Tiles, ih, and_assoc]

/-- One more interval at the end. -/
theorem Tiles.concat {a b : α} {rs : List β} {r : β} (h : Tiles start stop a rs b)
    (hstart : start r = b) (hlt : b < stop r) : Tiles start stop a (rs ++ [r]) (stop r) :=
  tiles_append.2 ⟨b, h, hstart, hlt, rfl⟩

theorem Tiles.le {a c : α} {rs : List β} (h : Tiles start stop a rs c) : a ≤ c := by
  induction rs generalizing a with
  | nil => exact le_of_eq h
  | cons r rs ih =>
    have ⟨_, hlt, hrest⟩ := h
    exact le_trans (le_of_lt hlt) (ih hrest)

/-- There is no interval between a point and itself. -/
theorem Tiles.eq_nil_iff {a c : α} {rs : List β} (h : Tiles start stop a rs c) :
    rs = [] ↔ a = c := by
  cases rs with
  | nil => exact iff_of_true rfl h
  | cons r rs =>
    have ⟨_, hlt, hrest⟩ := h
    exact iff_of_false (List.cons_ne_nil r rs) (ne_of_lt (lt_of_lt_of_le hlt hrest.le))

/-- Every interval begins at the first point or later. -/
theorem Tiles.le_start {a c : α} {rs : List β} (h : Tiles start stop a rs c) :
    ∀ r ∈ rs, a ≤ start r := by
  induction rs generalizing a with
  | nil => simp
  | cons r rs ih =>
    have ⟨hstart, hlt, hrest⟩ := h
    intro r' hr'
    rcases List.mem_cons.1 hr' with heq | hr'
    · rw [heq]
      exact le_of_eq hstart.symm
    · exact le_trans (le_of_lt hlt) (ih hrest r' hr')

/-- No interval overlaps a later one. -/
theorem Tiles.disjoint {a c : α} {rs : List β} (h : Tiles start stop a rs c) :
    rs.Pairwise fun r r' => stop r ≤ start r' := by
  induction rs generalizing a with
  | nil => exact List.Pairwise.nil
  | cons r rs ih =>
    have ⟨_, _, hrest⟩ := h
    exact List.pairwise_cons.2 ⟨hrest.le_start, ih hrest⟩

end QuicOnNs3.Tiling
