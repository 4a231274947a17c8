import Mathlib.Algebra.BigOperators.Group.Finset.Basic

/-!
# Additive increase

A window that grows by one segment for each window of acks.  `cost` is what a number
of growths takes in acks, and `ack_iterate` says that the acks seen so far are the cost
of the growths and a rest below the window.
-/

namespace QuicOnNs3.AdditiveIncrease

/-- The segments of a window, and the acks since it last grew. -/
structure Counter where
  segments : Nat
  acked : Nat
  acked_lt : acked < segments
  deriving DecidableEq

/-- One ack. -/
def Counter.ack (c : Counter) : Counter :=
  if h : c.acked + 1 < c.segments then ⟨c.segments, c.acked + 1, h⟩
  else ⟨c.segments + 1, 0, Nat.succ_pos _⟩

/-- The acks that it takes to grow from `segments` to `segments + growths`. -/
def cost (segments growths : Nat) : Nat := ∑ i ∈ Finset.range growths, (segments + i)

theorem cost_succ (segments growths : Nat) :
    cost segments (growths + 1) = cost segments growths + (segments + growths) :=
  Finset.sum_range_succ _ _

theorem ack_iterate (c : Counter) (n : Nat) :
    ∃ growths, (Counter.ack^[n] c).segments = c.segments + growths ∧
      cost c.segments growths + (Counter.ack^[n] c).acked = c.acked + n := by
  induction n with
  | zero => exact ⟨0, rfl, by simp [cost]⟩
  | succ n ih =>
    obtain ⟨growths, hsegments, hacked⟩ := ih
    rw [Function.iterate_succ_apply']
    generalize Counter.ack^[n] c = d at hsegments hacked
    have hlt := d.acked_lt
    unfold Counter.ack
    split_ifs with h
    · refine ⟨growths, hsegments, ?_⟩
      show cost c.segments growths + (d.acked + 1) = c.acked + (n + 1)
      omega
    · refine ⟨growths + 1, ?_, ?_⟩
      · show d.segments + 1 = c.segments + (growths + 1)
        omega
      · show cost c.segments (growths + 1) + 0 = c.acked + (n + 1)
        rw [cost_succ]
        omega

end QuicOnNs3.AdditiveIncrease
