import QuicOnNs3.CcAlgo.SendAlgorithm
import QuicOnNs3.Lib.Execution
import QuicOnNs3.Lib.Rounding
import QuicOnNs3.Lib.WindowedFilter

/-!
# The Copa sender

`CopaSender` as the code computes it.  The two RTT filters are instances of a
parameter `F`, and each operation of type `double` is rounded by a parameter `R`.
The code's own is `double`, and `exact` does not round.

The faults are the failures of `QUICHE_CHECK`, the two exceptions of the checked
arithmetic, and the conversion of a `double` that the integer type does not hold.
A time is 0 until it is initialised.
-/

namespace QuicOnNs3.CcAlgo.Copa

open QuicOnNs3.WindowedFilter QuicOnNs3.Execution QuicOnNs3.FloatingPoint

/-! ## Constants -/

def kDefaultMinimumCongestionWindow : Nat := 4 * kDefaultTCPMSS

/-- `kMinRTTWindowLength`, 10 s in microseconds. -/
def kMinRTTWindowLength : Nat := 10000000

/-- The initial window of the standing RTT, 100 ms in microseconds. -/
def standingRTTWindowLength : Nat := 100000

/-- `latencyFactor_`. -/
def latencyFactor : ℚ := 1 / 2

/-! ## The data model -/

/-- What stops the program. -/
inductive Fault where
  | checkFailed
  | overflow
  | underflow
  | badConversion
  deriving DecidableEq, Repr

/-- `VelocityState::Direction`. -/
inductive Direction where
  | none
  | up
  | down
  deriving DecidableEq, Repr

/-- `VelocityState`.  `lastRecordedCwndBytes` has no initial value in the source,
and it is read only after `lastCwndRecordTime` is initialised, which writes both. -/
structure VelocityState where
  velocity : Nat := 1
  direction : Direction := .none
  numTimesDirectionSame : Nat := 0
  lastRecordedCwndBytes : Nat := 0
  lastCwndRecordTime : Nat := 0
  deriving DecidableEq, Repr

/-- The fields of the sender.  `φ` is the state of an RTT filter. -/
structure CopaSender (φ : Type) where
  largestSentPacketNumber : Option Nat := none
  largestAckedPacketNumber : Option Nat := none
  largestSentAtLastCutback : Option Nat := none
  congestionWindow : Nat
  initialCongestionWindow : Nat
  maxCongestionWindow : Nat
  minCongestionWindow : Nat := kDefaultMinimumCongestionWindow
  isSlowStart : Bool := true
  lastCwndDoubleTime : Nat := 0
  minRTTFilter : φ
  standingRTTFilter : φ
  velocityState : VelocityState := {}
  deriving DecidableEq, Repr

/-- The arguments of `OnCongestionEvent`, with the RTTs of `rtt_stats_`: the times
are in microseconds, and packets are named by their numbers. -/
structure CongestionEvent where
  latestRtt : Int
  smoothedRtt : Int
  eventTime : Nat
  ackedPackets : List Nat
  lostPackets : List Nat
  deriving DecidableEq, Repr

/-! ## Checked arithmetic -/

/-- `std::numeric_limits<uint64_t>::max()`. -/
def maxUint64 : Nat := 2 ^ 64 - 1

/-- `addAndCheckOverflow` on `uint64`. -/
def addAndCheckOverflow (value toAdd : Nat) : Except Fault Nat :=
  if maxUint64 - toAdd < value then .error .overflow else .ok (value + toAdd)

/-- `subtractAndCheckUnderflow` on `uint64`. -/
def subtractAndCheckUnderflow (value toSub : Nat) : Except Fault Nat :=
  if value < toSub then .error .underflow else .ok (value - toSub)

/-- A difference of type `uint64`. -/
def u64Sub (a b : Nat) : Nat := u64 (a + (2 ^ 64 - b))

/-! ## The velocity -/

namespace VelocityState

/-- The direction in which the window moved since it was last recorded. -/
def newDirection (v : VelocityState) (congestionWindow : Nat) : Direction :=
  if v.lastRecordedCwndBytes < congestionWindow then .up else .down

/-- The window is recorded. -/
def recordWindow (v : VelocityState) (congestionWindow ackTime : Nat) : VelocityState :=
  { v with lastRecordedCwndBytes := congestionWindow, lastCwndRecordTime := ackTime }

/-- A new direction begins with velocity 1. -/
def turn (v : VelocityState) (direction : Direction) : VelocityState :=
  { v with direction := direction, velocity := 1, numTimesDirectionSame := 0 }

/-- The direction is the same for one more time, and the velocity doubles from the
third one on. -/
def countOn (v : VelocityState) : VelocityState :=
  let numTimesDirectionSame := u64 (v.numTimesDirectionSame + 1)
  { v with
    numTimesDirectionSame := numTimesDirectionSame
    velocity := if 3 ≤ numTimesDirectionSame then u64 (2 * v.velocity) else v.velocity }

/-- `CopaSender::CheckAndUpdateDirection`. -/
def checkAndUpdateDirection (v : VelocityState) (congestionWindow : Nat) (smoothedRtt : Int)
    (ackTime : Nat) : VelocityState :=
  if v.lastCwndRecordTime = 0 then v.recordWindow congestionWindow ackTime
  else if smoothedRtt ≤ (ackTime : Int) - v.lastCwndRecordTime then
    let newDirection := v.newDirection congestionWindow
    let v := if newDirection ≠ v.direction then v.turn newDirection else v.countOn
    v.recordWindow congestionWindow ackTime
  else v

/-- `CopaSender::ChangeDirection`. -/
def changeDirection (v : VelocityState) (newDirection : Direction)
    (congestionWindow ackTime : Nat) : VelocityState :=
  if v.direction = newDirection then v
  else (v.turn newDirection).recordWindow congestionWindow ackTime

/-- The sudden change of the direction in `OnPacketAcked`. -/
def face (v : VelocityState) (direction : Direction) (congestionWindow ackTime : Nat) :
    VelocityState :=
  if v.direction ≠ direction ∧ 1 < v.velocity then
    v.changeDirection direction congestionWindow ackTime
  else v

end VelocityState

/-! ## The sender -/

namespace CopaSender

variable {φ : Type}

/-- `CopaSender::CopaSender`, with the window lengths in packets. -/
def new (F : MinFilter φ) (initialTcpCongestionWindow maxTcpCongestionWindow : Nat) :
    CopaSender φ where
  congestionWindow := u64 (initialTcpCongestionWindow * kDefaultTCPMSS)
  initialCongestionWindow := u64 (initialTcpCongestionWindow * kDefaultTCPMSS)
  maxCongestionWindow := u64 (maxTcpCongestionWindow * kDefaultTCPMSS)
  minRTTFilter := F.new kMinRTTWindowLength
  standingRTTFilter := F.new standingRTTWindowLength

/-- `CopaSender::SetInitialCongestionWindowInPackets`. -/
def setInitialCongestionWindowInPackets (s : CopaSender φ) (congestionWindow : Nat) :
    CopaSender φ :=
  if s.isSlowStart then
    { s with
      initialCongestionWindow := u64 (congestionWindow * kDefaultTCPMSS)
      congestionWindow := u64 (congestionWindow * kDefaultTCPMSS) }
  else s

/-- `CopaSender::OnPacketSent`. -/
def onPacketSent (s : CopaSender φ) (packetNumber : Nat) : CopaSender φ :=
  { s with largestSentPacketNumber := some packetNumber }

/-- Whether the packet was sent before the last cutback. -/
def beforeCutback (s : CopaSender φ) (packetNumber : Nat) : Bool :=
  match s.largestSentAtLastCutback with
  | none => false
  | some cutback => packetNumber ≤ cutback

/-- `CopaSender::OnPacketLost`. -/
def onPacketLost (s : CopaSender φ) (packetNumber : Nat) : CopaSender φ :=
  if s.beforeCutback packetNumber then s
  else { s with largestSentAtLastCutback := s.largestSentPacketNumber }

/-- The largest acked packet and the two RTTs, at the start of `OnPacketAcked`. -/
def takeSample (F : MinFilter φ) (s : CopaSender φ) (ev : CongestionEvent) : CopaSender φ :=
  { s with
    largestAckedPacketNumber := ev.ackedPackets.foldl updateMax s.largestAckedPacketNumber
    minRTTFilter := F.update s.minRTTFilter ev.latestRtt ev.eventTime
    standingRTTFilter :=
      F.update (F.setWindowLength s.standingRTTFilter (rttU64 (ev.smoothedRtt.tdiv 2)))
        ev.latestRtt ev.eventTime }

/-- The sender when `OnCongestionEvent` comes to the comparison of the rates. -/
def beforeRates (F : MinFilter φ) (s : CopaSender φ) (ev : CongestionEvent) : CopaSender φ :=
  (ev.lostPackets.foldl onPacketLost s).takeSample F ev

/-- A quotient of type `double`.  A zero divisor gives an infinity or a NaN, which no
integer type holds. -/
def quotient (R : Rounding) (x y : ℚ) : Except Fault ℚ :=
  if y = 0 then .error .badConversion else .ok (R.round (x / y))

/-- A `double` as an `int64`. -/
def toInt64 (x : ℚ) : Except Fault Int :=
  if -2 ^ 63 ≤ truncate x ∧ truncate x < 2 ^ 63 then .ok (truncate x)
  else .error .badConversion

/-- A `double` as a `uint64`. -/
def toUint64 (x : ℚ) : Except Fault Nat :=
  if 0 ≤ truncate x ∧ truncate x < 2 ^ 64 then .ok (truncate x).toNat
  else .error .badConversion

/-- `targetRate`. -/
def targetRate (R : Rounding) (delay : Int) : Except Fault Int := do
  let rate ← quotient R (R.mul (R.mul 1 kDefaultTCPMSS) 1000000)
    (R.mul latencyFactor (R.round delay))
  toInt64 rate

/-- `currentRate`. -/
def currentRate (R : Rounding) (congestionWindow : Nat) (rttStanding : Int) :
    Except Fault Int := do
  let rate ← quotient R (R.mul (R.mul 1 (R.round congestionWindow)) 1000000)
    (R.round rttStanding)
  toInt64 rate

/-- `increaseCwnd`: the target rate is not below the current rate. -/
def increaseCwnd (R : Rounding) (F : MinFilter φ) (s : CopaSender φ) (latestRtt : Int) :
    Except Fault Bool :=
  let delay := latestRtt - F.getBest s.minRTTFilter
  let rttStanding := F.getBest s.standingRTTFilter
  if delay < 0 then .error .checkFailed
  else if rttStanding = 0 then .error .checkFailed
  else if delay = 0 then .ok true
  else do
    let targetRate ← targetRate R delay
    let currentRate ← currentRate R s.congestionWindow rttStanding
    .ok (currentRate ≤ targetRate)

/-- `addition` and `reduction`: the bytes for this many acked packets. -/
def change (R : Rounding) (s : CopaSender φ) (ackedPackets : Nat) : Except Fault Nat := do
  let product := u64 (ackedPackets * kDefaultTCPMSS * kDefaultTCPMSS * s.velocityState.velocity)
  let bytes ← quotient R (R.round product) (R.mul latencyFactor (R.round s.congestionWindow))
  toUint64 bytes

/-- The direction follows the window. -/
def checkAndUpdateDirection (s : CopaSender φ) (ev : CongestionEvent) : CopaSender φ :=
  { s with
    velocityState :=
      s.velocityState.checkAndUpdateDirection s.congestionWindow ev.smoothedRtt ev.eventTime }

/-- The direction follows the rates. -/
def face (s : CopaSender φ) (direction : Direction) (ev : CongestionEvent) : CopaSender φ :=
  { s with velocityState := s.velocityState.face direction s.congestionWindow ev.eventTime }

/-- The directions, when the window is about to move in this direction. -/
def facing (s : CopaSender φ) (direction : Direction) (ev : CongestionEvent) : CopaSender φ :=
  (s.checkAndUpdateDirection ev).face direction ev

/-- Slow start doubles the window once in an RTT. -/
def slowStart (s : CopaSender φ) (ev : CongestionEvent) : Except Fault (CopaSender φ) :=
  if s.lastCwndDoubleTime = 0 then .ok { s with lastCwndDoubleTime := ev.eventTime }
  else if ev.smoothedRtt < (ev.eventTime : Int) - s.lastCwndDoubleTime then do
    let congestionWindow ← addAndCheckOverflow s.congestionWindow s.congestionWindow
    .ok { s with congestionWindow := congestionWindow, lastCwndDoubleTime := ev.eventTime }
  else .ok s

/-- The window grows. -/
def increase (R : Rounding) (s : CopaSender φ) (ackedPackets : Nat) :
    Except Fault (CopaSender φ) := do
  let addition ← s.change R ackedPackets
  let congestionWindow ← addAndCheckOverflow s.congestionWindow addition
  .ok { s with congestionWindow := congestionWindow }

/-- The window shrinks, and slow start is over. -/
def reduce (R : Rounding) (s : CopaSender φ) (ackedPackets : Nat) :
    Except Fault (CopaSender φ) := do
  let reduction ← s.change R ackedPackets
  let congestionWindow ← subtractAndCheckUnderflow s.congestionWindow
    (min reduction (u64Sub s.congestionWindow s.minCongestionWindow))
  .ok { s with congestionWindow := congestionWindow, isSlowStart := false }

/-- The window after the comparison of the rates, in `OnPacketAcked`. -/
def moveWindow (R : Rounding) (s : CopaSender φ) (increaseCwnd : Bool) (ev : CongestionEvent) :
    Except Fault (CopaSender φ) :=
  if increaseCwnd then
    if s.isSlowStart then s.slowStart ev
    else (s.facing .up ev).increase R ev.ackedPackets.length
  else (s.facing .down ev).reduce R ev.ackedPackets.length

/-- `CopaSender::OnCongestionEvent`, with `OnPacketAcked`. -/
def onCongestionEvent (R : Rounding) (F : MinFilter φ) (s : CopaSender φ)
    (ev : CongestionEvent) : Except Fault (CopaSender φ) := do
  let s := s.beforeRates F ev
  let increaseCwnd ← s.increaseCwnd R F ev.latestRtt
  s.moveWindow R increaseCwnd ev

end CopaSender

/-! ## The machine -/

/-- One call on the sender. -/
inductive CopaOp where
  | onPacketSent (packetNumber : Nat)
  | onCongestionEvent (ev : CongestionEvent)
  | setInitialCongestionWindowInPackets (congestionWindow : Nat)
  deriving DecidableEq, Repr

/-- One step of the sender. -/
def copaStep {φ : Type} (R : Rounding) (F : MinFilter φ) (s : CopaSender φ) :
    CopaOp → Except Fault (CopaSender φ)
  | .onPacketSent packetNumber => .ok (s.onPacketSent packetNumber)
  | .onCongestionEvent ev => s.onCongestionEvent R F ev
  | .setInitialCongestionWindowInPackets congestionWindow =>
    .ok (s.setInitialCongestionWindowInPackets congestionWindow)

/-! ## What an event can do -/

namespace CopaSender

variable {φ : Type} {R : Rounding} {F : MinFilter φ} {s t : CopaSender φ}

/-- `t` has the window of `s`, and all that decides how it moves but the RTTs. -/
structure SameWindow (s t : CopaSender φ) : Prop where
  congestionWindow : t.congestionWindow = s.congestionWindow
  maxCongestionWindow : t.maxCongestionWindow = s.maxCongestionWindow
  isSlowStart : t.isSlowStart = s.isSlowStart
  lastCwndDoubleTime : t.lastCwndDoubleTime = s.lastCwndDoubleTime
  velocityState : t.velocityState = s.velocityState

/-- The losses of an event write the marker of the last cutback only. -/
theorem losses_fields (s : CopaSender φ) (ps : List Nat) :
    ∃ cutback, ps.foldl onPacketLost s = { s with largestSentAtLastCutback := cutback } := by
  refine List.foldlRecOn
    (motive := fun u => ∃ cutback, u = { s with largestSentAtLastCutback := cutback })
    ps onPacketLost ⟨s.largestSentAtLastCutback, rfl⟩ ?_
  intro u hu p _
  have ⟨cutback, hu⟩ := hu
  rw [hu]
  unfold onPacketLost
  split
  · exact ⟨cutback, rfl⟩
  · exact ⟨s.largestSentPacketNumber, rfl⟩

theorem beforeRates_sameWindow (F : MinFilter φ) (s : CopaSender φ) (ev : CongestionEvent) :
    s.SameWindow (s.beforeRates F ev) := by
  have ⟨_, hlost⟩ := losses_fields s ev.lostPackets
  unfold beforeRates
  rw [hlost]
  exact ⟨rfl, rfl, rfl, rfl, rfl⟩

theorem SameWindow.facing (h : s.SameWindow t) (direction : Direction) (ev : CongestionEvent) :
    (s.facing direction ev).SameWindow (t.facing direction ev) := by
  refine ⟨h.congestionWindow, h.maxCongestionWindow, h.isSlowStart, h.lastCwndDoubleTime, ?_⟩
  simp only [CopaSender.facing, CopaSender.face, CopaSender.checkAndUpdateDirection,
    h.velocityState, h.congestionWindow]

theorem SameWindow.change (h : s.SameWindow t) (R : Rounding) (n : Nat) :
    t.change R n = s.change R n := by
  unfold CopaSender.change
  rw [h.velocityState, h.congestionWindow]

/-- The comparison of the rates in an event. -/
def increases (R : Rounding) (F : MinFilter φ) (s : CopaSender φ) (ev : CongestionEvent) :
    Except Fault Bool :=
  (s.beforeRates F ev).increaseCwnd R F ev.latestRtt

/-- Slow start doubles the window in this event. -/
def Doubles (s : CopaSender φ) (ev : CongestionEvent) : Prop :=
  s.lastCwndDoubleTime ≠ 0 ∧ ev.smoothedRtt < (ev.eventTime : Int) - s.lastCwndDoubleTime

theorem onCongestionEvent_error_iff {ev : CongestionEvent} {f : Fault} :
    s.onCongestionEvent R F ev = .error f ↔
      s.increases R F ev = .error f ∨
        ∃ b, s.increases R F ev = .ok b ∧ (s.beforeRates F ev).moveWindow R b ev = .error f :=
  bind_error_iff

theorem onCongestionEvent_ok_iff {ev : CongestionEvent} :
    s.onCongestionEvent R F ev = .ok t ↔
      ∃ b, s.increases R F ev = .ok b ∧ (s.beforeRates F ev).moveWindow R b ev = .ok t :=
  bind_ok_iff

theorem addAndCheckOverflow_ok_iff {value toAdd w : Nat} :
    addAndCheckOverflow value toAdd = .ok w ↔
      value ≤ maxUint64 - toAdd ∧ w = value + toAdd := by
  unfold addAndCheckOverflow
  split_ifs with h
  · simp only [false_iff]
    omega
  · simp only [Except.ok.injEq]
    omega

theorem slowStart_ok_iff {ev : CongestionEvent} :
    s.slowStart ev = .ok t ↔
      (¬ s.Doubles ev ∧ t = { s with
        lastCwndDoubleTime :=
          if s.lastCwndDoubleTime = 0 then ev.eventTime else s.lastCwndDoubleTime }) ∨
      (s.Doubles ev ∧ s.congestionWindow ≤ maxUint64 - s.congestionWindow ∧
        t = { s with
          congestionWindow := s.congestionWindow + s.congestionWindow
          lastCwndDoubleTime := ev.eventTime }) := by
  unfold slowStart Doubles
  split_ifs with hzero hlater
  · simp [hzero, eq_comm]
  · rw [bind_ok_iff]
    constructor
    · rintro ⟨w, hadd, ht⟩
      obtain ⟨hfits, rfl⟩ := addAndCheckOverflow_ok_iff.1 hadd
      exact Or.inr ⟨⟨hzero, hlater⟩, hfits, (Except.ok.inj ht).symm⟩
    · rintro (⟨hnot, -⟩ | ⟨-, hfits, rfl⟩)
      · exact absurd ⟨hzero, hlater⟩ hnot
      · exact ⟨_, addAndCheckOverflow_ok_iff.2 ⟨hfits, rfl⟩, rfl⟩
  · simp only [hlater, and_false, not_false_eq_true, true_and, false_and, or_false,
      Except.ok.injEq]
    exact eq_comm

theorem quotient_error {x y : ℚ} {f : Fault} (h : quotient R x y = .error f) :
    f = .badConversion := by
  unfold quotient at h
  split_ifs at h
  exact (Except.error.inj h).symm

theorem toUint64_error {x : ℚ} {f : Fault} (h : toUint64 x = .error f) :
    f = .badConversion := by
  unfold toUint64 at h
  split_ifs at h
  exact (Except.error.inj h).symm

/-- What fails in a conversion of a quotient is a conversion. -/
theorem quotient_bind_error {β : Type} {x y : ℚ} {convert : ℚ → Except Fault β} {f : Fault}
    (hconvert : ∀ z f, convert z = .error f → f = .badConversion)
    (h : quotient R x y >>= convert = .error f) : f = .badConversion := by
  rcases bind_error_iff.1 h with hquotient | ⟨z, -, hz⟩
  · exact quotient_error hquotient
  · exact hconvert z f hz

theorem change_error {n : Nat} {f : Fault} (h : s.change R n = .error f) :
    f = .badConversion :=
  quotient_bind_error (fun _ _ => toUint64_error) h

theorem toUint64_ok {x : ℚ} {a : Nat} (h : toUint64 x = .ok a) : a < 2 ^ 64 ∧ truncate x = a := by
  unfold toUint64 at h
  split_ifs at h with hx
  have ha := Except.ok.inj h
  omega

/-- The bytes are a `uint64`, and an empty window has none. -/
theorem change_ok {n a : Nat} (h : s.change R n = .ok a) :
    s.congestionWindow ≠ 0 ∧ a < 2 ^ 64 := by
  obtain ⟨x, hquotient, hx⟩ := bind_ok_iff.1 h
  refine ⟨fun hzero => ?_, (toUint64_ok hx).1⟩
  have hdivisor : R.mul latencyFactor (R.round s.congestionWindow) = 0 := by
    rw [hzero, Nat.cast_zero]
    exact R.mul_round_zero _
  rw [hdivisor, quotient, if_pos rfl] at hquotient
  simp at hquotient

theorem toUint64_natCast_div_ok_iff {x y a : Nat} :
    toUint64 ((x : ℚ) / y) = .ok a ↔ a < 2 ^ 64 ∧ a = x / y := by
  unfold toUint64
  rw [truncate_natCast_div]
  split_ifs with h
  · simp only [Except.ok.injEq, Int.toNat_natCast]
    omega
  · simp only [false_iff]
    omega

/-- The bytes without a rounding. -/
theorem change_exact_ok_iff {n a : Nat} :
    s.change exact n = .ok a ↔ s.congestionWindow ≠ 0 ∧ a < 2 ^ 64 ∧
      a = 2 * u64 (n * kDefaultTCPMSS * kDefaultTCPMSS * s.velocityState.velocity) /
        s.congestionWindow := by
  by_cases hzero : s.congestionWindow = 0
  · exact iff_of_false (fun h => (change_ok h).1 hzero) (fun h => h.1 hzero)
  · unfold change
    simp only [bind_ok_iff]
    generalize u64 (n * kDefaultTCPMSS * kDefaultTCPMSS * s.velocityState.velocity) = product
    have hw : (s.congestionWindow : ℚ) ≠ 0 := Nat.cast_ne_zero.2 hzero
    have hdivisor : latencyFactor * (s.congestionWindow : ℚ) ≠ 0 :=
      mul_ne_zero (by decide +kernel) hw
    have hbytes : (product : ℚ) / (latencyFactor * s.congestionWindow) =
        ((2 * product : Nat) : ℚ) / s.congestionWindow := by
      unfold latencyFactor
      rw [Nat.cast_mul, Nat.cast_ofNat]
      field_simp
    have hquotient : quotient exact (exact.round product)
        (exact.mul latencyFactor (exact.round s.congestionWindow)) =
          .ok (((2 * product : Nat) : ℚ) / s.congestionWindow) := by
      rw [← hbytes]
      exact if_neg hdivisor
    rw [hquotient]
    simp only [Except.ok.injEq, exists_eq_left', toUint64_natCast_div_ok_iff]
    exact (and_iff_right hzero).symm

theorem increase_ok_iff {n : Nat} :
    s.increase R n = .ok t ↔ ∃ a, s.change R n = .ok a ∧ s.congestionWindow ≤ maxUint64 - a ∧
      t = { s with congestionWindow := s.congestionWindow + a } := by
  unfold increase
  rw [bind_ok_iff]
  refine exists_congr fun a => and_congr_right fun _ => ?_
  rw [bind_ok_iff]
  constructor
  · rintro ⟨w, hadd, ht⟩
    obtain ⟨hfits, rfl⟩ := addAndCheckOverflow_ok_iff.1 hadd
    exact ⟨hfits, (Except.ok.inj ht).symm⟩
  · rintro ⟨hfits, rfl⟩
    exact ⟨_, addAndCheckOverflow_ok_iff.2 ⟨hfits, rfl⟩, rfl⟩

theorem reduce_ok {n : Nat} (h : s.reduce R n = .ok t) :
    s.congestionWindow ≠ 0 ∧ ∃ w ≤ s.congestionWindow,
      t = { s with congestionWindow := w, isSlowStart := false } := by
  obtain ⟨a, hchange, h⟩ := bind_ok_iff.1 h
  obtain ⟨w, hsub, h⟩ := bind_ok_iff.1 h
  refine ⟨(change_ok hchange).1, w, ?_, (Except.ok.inj h).symm⟩
  unfold subtractAndCheckUnderflow at hsub
  split_ifs at hsub
  rw [← Except.ok.inj hsub]
  exact Nat.sub_le _ _

end CopaSender

end QuicOnNs3.CcAlgo.Copa
