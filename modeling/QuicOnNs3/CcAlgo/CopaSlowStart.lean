import QuicOnNs3.CcAlgo.CopaSender
import QuicOnNs3.Lib.Throttle

/-!
# The slow start of the Copa sender

In slow start `OnPacketAcked` does not count acks.  It doubles the window when the
smoothed RTT has passed since `lastCwndDoubleTime_`, and it leaves slow start for good
with the first event whose target rate is below the current rate.

So slow start is a throttled action with the congestion events as its ticks
(`run_slowStart`), and its growth is bounded by time alone: from above
(`slow_start_at_most_doubles`), and from below while events keep coming
(`slow_start_keeps_doubling`).
-/

namespace QuicOnNs3.CcAlgo.Copa

open QuicOnNs3.WindowedFilter QuicOnNs3.Execution QuicOnNs3.FloatingPoint QuicOnNs3.Throttle

/-- An event as a tick of slow start. -/
def CongestionEvent.tick (ev : CongestionEvent) : Tick := ⟨ev.eventTime, ev.smoothedRtt⟩

/-- The ticks that the calls of a run give to slow start. -/
def slowStartTicks : List CopaOp → List Tick
  | [] => []
  | .onCongestionEvent ev :: ops => ev.tick :: slowStartTicks ops
  | _ :: ops => slowStartTicks ops

/-- The call does not set the initial window. -/
def KeepsInitial : CopaOp → Prop
  | .setInitialCongestionWindowInPackets _ => False
  | _ => True

variable {φ : Type} {R : Rounding} {F : MinFilter φ}

namespace CopaSender

variable {s t : CopaSender φ}

/-! ## One event -/

/-- An event after which the sender is in slow start has not left it, and has doubled
the window if it was time to. -/
theorem onCongestionEvent_slowStart {ev : CongestionEvent} (h : s.onCongestionEvent R F ev = .ok t)
    (hslow : t.isSlowStart = true) :
    s.isSlowStart = true ∧ t.lastCwndDoubleTime = ev.tick.advance s.lastCwndDoubleTime ∧
      t.congestionWindow =
        if ev.tick.Fires s.lastCwndDoubleTime then s.congestionWindow * 2
        else s.congestionWindow := by
  have hsame := beforeRates_sameWindow F s ev
  obtain ⟨b, -, hmove⟩ := onCongestionEvent_ok_iff.1 h
  unfold moveWindow at hmove
  split_ifs at hmove with hb hs
  · refine ⟨hsame.isSlowStart.symm.trans hs, ?_⟩
    have hfires : (s.beforeRates F ev).Doubles ev ↔ ev.tick.Fires s.lastCwndDoubleTime := by
      unfold Doubles
      rw [hsame.lastCwndDoubleTime]
      rfl
    rcases slowStart_ok_iff.1 hmove with ⟨hnot, ht⟩ | ⟨hdoubles, -, ht⟩
    · rw [hfires] at hnot
      rw [ht, Tick.advance, if_neg hnot, hsame.lastCwndDoubleTime]
      simp only [hnot, or_false]
      exact ⟨rfl, hsame.congestionWindow⟩
    · rw [hfires] at hdoubles
      rw [ht, Tick.advance, if_pos (Or.inr hdoubles), if_pos hdoubles, Nat.mul_two,
        hsame.congestionWindow]
      exact ⟨rfl, rfl⟩
  · -- Outside of slow start the window grows without coming back to it.
    obtain ⟨a, -, -, ht⟩ := increase_ok_iff.1 hmove
    have hs : ¬ (s.beforeRates F ev).isSlowStart = true := hs
    rw [ht] at hslow
    exact absurd hslow hs
  · obtain ⟨-, w, -, ht⟩ := reduce_ok hmove
    rw [ht] at hslow
    exact absurd hslow (by simp)

end CopaSender

open CopaSender

variable {s t : CopaSender φ} {ops : List CopaOp}

/-! ## Whole runs -/

/-- A run that ends in slow start has never left it, and its window was doubled on
each tick that slow start took. -/
theorem run_slowStart (hrun : ops.foldlM (copaStep R F) s = .ok t) (hslow : t.isSlowStart = true)
    (hkeeps : ∀ op ∈ ops, KeepsInitial op) :
    s.isSlowStart = true ∧
      t.congestionWindow =
        s.congestionWindow * 2 ^ count s.lastCwndDoubleTime (slowStartTicks ops) := by
  induction ops generalizing s with
  | nil =>
    obtain rfl := run_nil_ok_iff.1 hrun
    exact ⟨hslow, (Nat.mul_one _).symm⟩
  | cons op ops ih =>
    obtain ⟨u, hstep, hrun⟩ := run_cons_ok_iff.1 hrun
    obtain ⟨hu, hwindow⟩ := ih hrun fun o ho => hkeeps o (List.mem_cons_of_mem _ ho)
    cases op with
    | onPacketSent p =>
      obtain rfl := Except.ok.inj hstep
      exact ⟨hu, hwindow⟩
    | setInitialCongestionWindowInPackets n =>
      exact absurd (hkeeps _ (List.mem_cons_self ..)) (fun h => h)
    | onCongestionEvent ev =>
      obtain ⟨hs, hclock, hw⟩ := onCongestionEvent_slowStart hstep hu
      refine ⟨hs, ?_⟩
      rw [hwindow, hclock, hw]
      show _ = _ * 2 ^ count _ (ev.tick :: slowStartTicks ops)
      rw [count]
      split_ifs
      · rw [Nat.pow_add, Nat.pow_one, Nat.mul_assoc]
      · rw [Nat.zero_add]

/-- A stretch that ends in slow start has begun in slow start, and over it the window
doubles at most once in an RTT, and once more, whatever is acked or lost. -/
theorem slow_start_at_most_doubles {rtt start finish : Nat}
    (hrun : ops.foldlM (copaStep R F) s = .ok t) (hslow : t.isSlowStart = true)
    (hkeeps : ∀ op ∈ ops, KeepsInitial op)
    (hticks : ∀ k ∈ slowStartTicks ops,
      (rtt : Int) ≤ k.period ∧ start ≤ k.time ∧ k.time ≤ finish) :
    s.isSlowStart = true ∧
      ∃ n ≤ (finish - start) / (rtt + 1) + 1,
        t.congestionWindow = s.congestionWindow * 2 ^ n := by
  obtain ⟨hs, hwindow⟩ := run_slowStart hrun hslow hkeeps
  exact ⟨hs, _, count_le _ hticks, hwindow⟩

/-- Three acks of a flow over an empty queue, 5 ms apart, with RTTs of 8 ms. -/
def threeAcks : List CopaOp :=
  [.onPacketSent 1, .onPacketSent 2, .onPacketSent 3,
    .onCongestionEvent ⟨8000, 8000, 8000, [1], []⟩,
    .onCongestionEvent ⟨8000, 8000, 13000, [2], []⟩,
    .onCongestionEvent ⟨8000, 8000, 18000, [3], []⟩]

theorem threeAcks_slowStart :
    ∃ t, threeAcks.foldlM (copaStep double slidingMin) (new slidingMin 10 2000) = .ok t ∧
      t.isSlowStart = true := by
  have hok : ((threeAcks.foldlM (copaStep double slidingMin) (new slidingMin 10 2000)).map
      CopaSender.isSlowStart).toOption = some true := by
    decide +kernel
  cases hrun : threeAcks.foldlM (copaStep double slidingMin) (new slidingMin 10 2000) with
  | error f =>
    rw [hrun] at hok
    simp [Except.map, Except.toOption] at hok
  | ok t =>
    rw [hrun] at hok
    exact ⟨t, rfl, by simpa [Except.map, Except.toOption] using hok⟩

theorem slow_start_at_most_doubles_threeAcks :
    ∃ t, threeAcks.foldlM (copaStep double slidingMin) (new slidingMin 10 2000) = .ok t ∧
      ∃ n ≤ (18000 - 8000) / (8000 + 1) + 1,
        t.congestionWindow = (new slidingMin 10 2000).congestionWindow * 2 ^ n := by
  have ⟨t, hrun, hslow⟩ := threeAcks_slowStart
  refine ⟨t, hrun, (slow_start_at_most_doubles hrun hslow ?_ ?_).2⟩
  · simp [threeAcks, KeepsInitial]
  · simp [threeAcks, slowStartTicks, CongestionEvent.tick]

/-- While slow start lasts and events keep coming, the window doubles at least once in
an RTT and the longest gap between two events, but for one time. -/
theorem slow_start_keeps_doubling {rtt gap start : Nat}
    (hrun : ops.foldlM (copaStep R F) s = .ok t) (hslow : t.isSlowStart = true)
    (hkeeps : ∀ op ∈ ops, KeepsInitial op)
    (hclock : s.lastCwndDoubleTime ≤ start)
    (hticks : ∀ k ∈ slowStartTicks ops, 0 ≤ k.period ∧ k.period ≤ rtt)
    (hspaced : Spaced gap start (slowStartTicks ops)) :
    ∃ n, lastTime start (slowStartTicks ops) ≤ start + (n + 1) * (rtt + gap) ∧
      t.congestionWindow = s.congestionWindow * 2 ^ n := by
  obtain ⟨-, hwindow⟩ := run_slowStart hrun hslow hkeeps
  exact ⟨_, lastTime_le hclock hticks hspaced, hwindow⟩

theorem slow_start_keeps_doubling_threeAcks :
    ∃ t, threeAcks.foldlM (copaStep double slidingMin) (new slidingMin 10 2000) = .ok t ∧
      ∃ n, lastTime 8000 (slowStartTicks threeAcks) ≤ 8000 + (n + 1) * (8000 + 5000) ∧
        t.congestionWindow = (new slidingMin 10 2000).congestionWindow * 2 ^ n := by
  have ⟨t, hrun, hslow⟩ := threeAcks_slowStart
  refine ⟨t, hrun, slow_start_keeps_doubling hrun hslow ?_ ?_ ?_ ?_⟩
  · simp [threeAcks, KeepsInitial]
  · exact Nat.zero_le _
  · simp [threeAcks, slowStartTicks, CongestionEvent.tick]
  · simp [threeAcks, slowStartTicks, CongestionEvent.tick, Spaced]

end QuicOnNs3.CcAlgo.Copa
