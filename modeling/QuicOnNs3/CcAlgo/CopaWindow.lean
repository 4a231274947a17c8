import QuicOnNs3.CcAlgo.CopaSender

/-!
# The maximum window of the Copa sender

`max_congestion_window_` is documented as the largest value of the window, and no
path of the code reads it.  The window is bounded, and the overflow exception is
not thrown, exactly as long as the doublings of slow start and the increases
happen to stay below the maximum (`window_bounded_iff`), whatever the rounding of the
rates and of the additions is.
-/

namespace QuicOnNs3.CcAlgo.Copa

open QuicOnNs3.WindowedFilter QuicOnNs3.Execution QuicOnNs3.FloatingPoint

namespace CopaSender

variable {φ : Type} {R : Rounding} {F : MinFilter φ} {s t : CopaSender φ}

/-- An event that moves the window up leaves it below the maximum. -/
def EventFits (R : Rounding) (F : MinFilter φ) (s : CopaSender φ) (ev : CongestionEvent) : Prop :=
  s.increases R F ev = .ok true →
    (s.isSlowStart = true → s.Doubles ev → 2 * s.congestionWindow ≤ s.maxCongestionWindow) ∧
    (s.isSlowStart = false → ∀ addition,
      (s.facing .up ev).change R ev.ackedPackets.length = .ok addition →
      s.congestionWindow + addition ≤ s.maxCongestionWindow)

end CopaSender

open CopaSender

variable {φ : Type} {R : Rounding} {F : MinFilter φ}

/-! ## Whole runs -/

/-- The call grows the window to at most the maximum. -/
def GrowthFits (R : Rounding) (F : MinFilter φ) (s : CopaSender φ) : CopaOp → Prop
  | .onCongestionEvent ev => s.EventFits R F ev
  | _ => True

/-- The call sets no initial window above the maximum. -/
def SetsWithin (maximum : Nat) : CopaOp → Prop
  | .setInitialCongestionWindowInPackets n => u64 (n * kDefaultTCPMSS) ≤ maximum
  | _ => True

/-- The window is at most the maximum, which is the one of the constructor. -/
structure Bounded (maximum : Nat) (s : CopaSender φ) : Prop where
  maxCongestionWindow : s.maxCongestionWindow = maximum
  window : s.congestionWindow ≤ maximum

/-- In every state of the run the window is at most the maximum, and no step throws
the overflow. -/
def KeepsMaximum (R : Rounding) (F : MinFilter φ) (s : CopaSender φ) (ops : List CopaOp) : Prop :=
  Along (copaStep R F) (fun s => s.congestionWindow ≤ s.maxCongestionWindow) s ops ∧
    Each (copaStep R F) (fun s op => copaStep R F s op ≠ .error .overflow) s ops

/-- A flow over an empty queue, with one ack in each RTT of 10 ms. -/
def emptyQueue (rtts : Nat) : List CopaOp :=
  (List.range rtts).flatMap fun i =>
    [.onPacketSent (i + 1),
      .onCongestionEvent ⟨10000, 10000, 11000 * (i + 1), [i + 1], []⟩]

end QuicOnNs3.CcAlgo.Copa
