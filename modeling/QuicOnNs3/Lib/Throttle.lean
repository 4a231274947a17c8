import Mathlib.Data.List.Chain
import Mathlib.Algebra.Order.Ring.Nat

/-!
# Throttled actions

An action that is taken on a tick only when more than the period of the tick has
passed since the action was last taken.  The clock reads 0 until the first tick,
which starts it and takes no action.

`count_le` says how often the action can be taken in an interval of time, and
`lastTime_le` how often it must be, by the longest gap between two ticks.
-/

namespace QuicOnNs3.Throttle

/-- A chance to take the action. -/
structure Tick where
  time : Nat
  period : Int
  deriving DecidableEq, Repr

/-- The action is taken on this tick. -/
def Tick.Fires (clock : Nat) (k : Tick) : Prop :=
  clock ≠ 0 ∧ k.period < (k.time : Int) - clock

instance (clock : Nat) (k : Tick) : Decidable (k.Fires clock) :=
  inferInstanceAs (Decidable (_ ∧ _))

/-- The clock after a tick. -/
def Tick.advance (clock : Nat) (k : Tick) : Nat :=
  if clock = 0 ∨ k.Fires clock then k.time else clock

/-- How many of the ticks the action is taken on. -/
def count : Nat → List Tick → Nat
  | _, [] => 0
  | clock, k :: ks => (if k.Fires clock then 1 else 0) + count (k.advance clock) ks

variable {k : Tick} {ks : List Tick} {clock period gap start finish : Nat}

theorem count_cons_of_fires (h : k.Fires clock) (ks : List Tick) :
    count clock (k :: ks) = count k.time ks + 1 := by
  rw [count, if_pos h, Tick.advance, if_pos (Or.inr h), Nat.add_comm]

theorem count_cons_of_not_fires (h : ¬ k.Fires clock) (ks : List Tick) :
    count clock (k :: ks) = count (if clock = 0 then k.time else clock) ks := by
  rw [count, if_neg h, Nat.zero_add, Tick.advance]
  simp only [h, or_false]

/-! ## At most once in a period -/

/-- No action is taken before this time, on ticks from `start` on. -/
def earliest (start period clock : Nat) : Nat :=
  max start (if clock = 0 then 0 else clock + (period + 1))

theorem Tick.Fires.time_ne_zero (h : k.Fires clock) (hperiod : (period : Int) ≤ k.period) :
    k.time ≠ 0 := by
  unfold Tick.Fires at h
  omega

theorem earliest_le_of_fires (h : k.Fires clock) (hperiod : (period : Int) ≤ k.period)
    (hstart : start ≤ k.time) : earliest start period clock ≤ k.time := by
  obtain ⟨hclock, hlater⟩ := h
  unfold earliest
  rw [if_neg hclock]
  omega

/-- After an action the next one is a whole period away. -/
theorem le_earliest (period : Nat) (hstart : start ≤ k.time) :
    start ≤ earliest start period k.time ∧
      (k.time ≠ 0 → k.time + (period + 1) ≤ earliest start period k.time) := by
  unfold earliest
  split_ifs <;> omega

/-- The actions of an interval, and the time before the first of them, fit in the interval
and one period more. -/
theorem count_mul_add_earliest_le (clock : Nat)
    (h : ∀ k ∈ ks, (period : Int) ≤ k.period ∧ start ≤ k.time ∧ k.time ≤ finish) :
    count clock ks = 0 ∨
      count clock ks * (period + 1) + earliest start period clock ≤ finish + (period + 1) := by
  induction ks generalizing clock with
  | nil => exact Or.inl rfl
  | cons k ks ih =>
    obtain ⟨hperiod, hstart, hfinish⟩ := h k (List.mem_cons_self ..)
    have hrest := fun c => ih c fun j hj => h j (List.mem_cons_of_mem _ hj)
    by_cases hfires : k.Fires clock
    · have hfirst := earliest_le_of_fires hfires hperiod hstart
      right
      rw [count_cons_of_fires hfires, Nat.succ_mul]
      rcases hrest k.time with hnone | hmore
      · rw [hnone]
        omega
      · have hnext := (le_earliest period hstart).2 (hfires.time_ne_zero hperiod)
        omega
    · rw [count_cons_of_not_fires hfires]
      split_ifs with hclock
      · refine (hrest k.time).imp_right fun hmore => ?_
        have hstarted := (le_earliest period hstart).1
        have hunset : earliest start period clock = start := by simp [earliest, hclock]
        omega
      · exact hrest clock

/-- In an interval of time the action is taken at most once in a period, and once more. -/
theorem count_le (clock : Nat)
    (h : ∀ k ∈ ks, (period : Int) ≤ k.period ∧ start ≤ k.time ∧ k.time ≤ finish) :
    count clock ks ≤ (finish - start) / (period + 1) + 1 := by
  rcases count_mul_add_earliest_le clock h with hnone | hsome
  · rw [hnone]
    exact Nat.zero_le _
  · have hstart : start ≤ earliest start period clock := Nat.le_max_left _ _
    rw [← Nat.sub_le_iff_le_add, Nat.le_div_iff_mul_le (by omega), Nat.sub_one_mul]
    omega

/-! ## At least once in a period and a gap -/

/-- Every tick comes after the one before it, by at most `gap`. -/
def Spaced (gap : Nat) : Nat → List Tick → Prop
  | _, [] => True
  | previous, k :: ks => previous ≤ k.time ∧ k.time ≤ previous + gap ∧ Spaced gap k.time ks

/-- The time of the last tick, or `start` without one. -/
def lastTime : Nat → List Tick → Nat
  | start, [] => start
  | _, k :: ks => lastTime k.time ks

/-- From a tick of a running clock on. -/
theorem lastTime_le_of_running (hclock : clock ≠ 0) (hstart : start ≤ clock + period)
    (hperiod : ∀ k ∈ ks, 0 ≤ k.period ∧ k.period ≤ period) (hspaced : Spaced gap start ks) :
    lastTime start ks ≤ clock + period + count clock ks * (period + gap) := by
  induction ks generalizing clock start with
  | nil =>
    show start ≤ _
    omega
  | cons k ks ih =>
    obtain ⟨hafter, hgap, hspaced⟩ := hspaced
    obtain ⟨hpos, hle⟩ := hperiod k (List.mem_cons_self ..)
    have hrest := fun j hj => hperiod j (List.mem_cons_of_mem _ hj)
    show lastTime k.time ks ≤ _
    by_cases hfires : k.Fires clock
    · have hlater := hfires.2
      have hnext : lastTime k.time ks ≤ k.time + period + count k.time ks * (period + gap) :=
        ih (by omega) (by omega) hrest hspaced
      rw [count_cons_of_fires hfires, Nat.succ_mul]
      omega
    · rw [count_cons_of_not_fires hfires, if_neg hclock]
      refine ih hclock ?_ hrest hspaced
      unfold Tick.Fires at hfires
      omega

/-- With a tick in every gap, the action is taken at least once in a period and a gap. -/
theorem lastTime_le (hclock : clock ≤ start)
    (hperiod : ∀ k ∈ ks, 0 ≤ k.period ∧ k.period ≤ period) (hspaced : Spaced gap start ks) :
    lastTime start ks ≤ start + (count clock ks + 1) * (period + gap) := by
  induction ks generalizing start with
  | nil => exact Nat.le_add_right _ _
  | cons k ks ih =>
    obtain ⟨hafter, hgap, hspaced⟩ := hspaced
    obtain ⟨hpos, hle⟩ := hperiod k (List.mem_cons_self ..)
    have hrest := fun j hj => hperiod j (List.mem_cons_of_mem _ hj)
    by_cases hzero : clock = 0
    · -- The tick starts the clock, unless its own time is 0.
      have hnot : ¬ k.Fires clock := fun h => h.1 hzero
      rw [count_cons_of_not_fires hnot, if_pos hzero]
      show lastTime k.time ks ≤ _
      by_cases htime : k.time = 0
      · have hlast : lastTime k.time ks ≤ k.time + (count clock ks + 1) * (period + gap) :=
          ih (by omega) hrest hspaced
        rw [htime, ← hzero] at hlast ⊢
        omega
      · have hrun := lastTime_le_of_running htime (Nat.le_add_right _ _) hrest hspaced
        rw [Nat.succ_mul]
        omega
    · by_cases hstart : start ≤ clock + period
      · have hrun := lastTime_le_of_running hzero hstart hperiod ⟨hafter, hgap, hspaced⟩
        rw [Nat.succ_mul]
        omega
      · -- The period has passed already, so the tick fires.
        have hfires : k.Fires clock := ⟨hzero, by omega⟩
        have hrun : lastTime k.time ks ≤ k.time + period + count k.time ks * (period + gap) :=
          lastTime_le_of_running (by omega) (Nat.le_add_right _ _) hrest hspaced
        rw [count_cons_of_fires hfires, Nat.succ_mul, Nat.succ_mul]
        show lastTime k.time ks ≤ _
        omega

end QuicOnNs3.Throttle
