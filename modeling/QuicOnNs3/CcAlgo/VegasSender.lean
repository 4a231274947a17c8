import QuicOnNs3.CcAlgo.SendAlgorithm
import QuicOnNs3.Lib.Execution
import QuicOnNs3.Lib.WindowedFilter

/-!
# The Vegas sender

`VegasSender` as the code computes it.  The filter that estimates the base RTT
is a parameter `F`.  The faults are the two failures of `QUICHE_CHECK` and a
division by zero.  `rtt_count_` is an `int32_t` in the code and a `Nat` without a
bound here: the two differ for a round of 2^31 events with acks.
-/

namespace QuicOnNs3.CcAlgo.Vegas

open QuicOnNs3.WindowedFilter QuicOnNs3.Execution

/-! ## Constants -/

def kDefaultMinimumCongestionWindow : Nat := 4 * kDefaultTCPMSS
def kAlphaCongestionWindow : Nat := 2 * kDefaultTCPMSS
def kBetaCongestionWindow : Nat := 4 * kDefaultTCPMSS
def kGammaCongestionWindow : Nat := 1 * kDefaultTCPMSS

/-- `kMinRTTWindowLength`, 10 s in microseconds. -/
def kMinRTTWindowLength : Nat := 10000000

/-! ## The data model -/

/-- The fields of the sender.  `φ` is the state of the base RTT filter. -/
structure VegasSender (φ : Type) where
  largestSentPacketNumber : Option Nat := none
  largestAckedPacketNumber : Option Nat := none
  largestSentAtLastCutback : Option Nat := none
  congestionWindow : Nat
  initialCongestionWindow : Nat
  maxCongestionWindow : Nat
  minCongestionWindow : Nat := kDefaultMinimumCongestionWindow
  slowstartThreshold : Nat
  baseRTTFilter : φ
  minRtt : Int := kInfinite
  rttCount : Nat := 0
  begSendNext : Option Nat := none
  numAckedPackets : Nat := 0
  vegasMode : Bool := true
  deriving DecidableEq, Repr

/-- What stops the program. -/
inductive Fault where
  | begSendNextUninitialized
  | minRttBelowBaseRtt
  | divisionByZero
  deriving DecidableEq, Repr

/-- The arguments of `OnCongestionEvent`, with the latest RTT of `rtt_stats_`:
`latestRtt` and `eventTime` are in microseconds, and packets are named by their
numbers. -/
structure CongestionEvent where
  latestRtt : Int
  eventTime : Nat
  ackedPackets : List Nat
  lostPackets : List Nat
  deriving DecidableEq, Repr

namespace VegasSender

variable {φ : Type}

/-- `VegasSender::VegasSender`, with the window lengths in packets. -/
def new (F : MinFilter φ) (initialTcpCongestionWindow maxTcpCongestionWindow : Nat) :
    VegasSender φ where
  congestionWindow := u64 (initialTcpCongestionWindow * kDefaultTCPMSS)
  initialCongestionWindow := u64 (initialTcpCongestionWindow * kDefaultTCPMSS)
  maxCongestionWindow := u64 (maxTcpCongestionWindow * kDefaultTCPMSS)
  slowstartThreshold := u64 (maxTcpCongestionWindow * kDefaultTCPMSS)
  baseRTTFilter := F.new kMinRTTWindowLength

/-- `VegasSender::InSlowStart`. -/
def inSlowStart (s : VegasSender φ) : Bool := s.congestionWindow < s.slowstartThreshold

/-- `VegasSender::InRecovery`. -/
def inRecovery (s : VegasSender φ) : Bool :=
  match s.largestAckedPacketNumber, s.largestSentAtLastCutback with
  | some acked, some cutback => acked ≤ cutback
  | _, _ => false

/-- `VegasSender::SetInitialCongestionWindowInPackets`. -/
def setInitialCongestionWindowInPackets (s : VegasSender φ) (congestionWindow : Nat) :
    VegasSender φ :=
  if s.inSlowStart then
    { s with
      initialCongestionWindow := u64 (congestionWindow * kDefaultTCPMSS)
      congestionWindow := u64 (congestionWindow * kDefaultTCPMSS) }
  else s

/-- `VegasSender::OnPacketSent`. -/
def onPacketSent (s : VegasSender φ) (packetNumber : Nat) : VegasSender φ :=
  { s with
    largestSentPacketNumber := some packetNumber
    begSendNext := s.begSendNext.or (some packetNumber) }

/-- `VegasSender::OnRetransmissionTimeout`, which does nothing. -/
def onRetransmissionTimeout (s : VegasSender φ) : VegasSender φ := s

/-- Whether the packet was sent before the last cutback. -/
def beforeCutback (s : VegasSender φ) (packetNumber : Nat) : Bool :=
  match s.largestSentAtLastCutback with
  | none => false
  | some cutback => packetNumber ≤ cutback

/-- `VegasSender::OnPacketLost`. -/
def onPacketLost (s : VegasSender φ) (packetNumber : Nat) : VegasSender φ :=
  if s.beforeCutback packetNumber then s
  else
    let congestionWindow := max (s.congestionWindow / 2) s.minCongestionWindow
    { s with
      congestionWindow := congestionWindow
      slowstartThreshold := congestionWindow
      largestSentAtLastCutback := s.largestSentPacketNumber
      numAckedPackets := 0 }

/-- The window grows by one segment. -/
def grow (s : VegasSender φ) : VegasSender φ :=
  { s with congestionWindow := u64 (s.congestionWindow + kDefaultTCPMSS) }

/-- `VegasSender::IncreaseCongestionWindowAsReno`. -/
def increaseCongestionWindowAsReno (s : VegasSender φ) : VegasSender φ :=
  if s.inSlowStart then s.grow
  else
    let s := { s with numAckedPackets := u64 (s.numAckedPackets + 1) }
    if s.congestionWindow ≤ u64 (s.numAckedPackets * kDefaultTCPMSS) then
      { s.grow with numAckedPackets := 0 }
    else s

/-- `target_cwnd`, rounded up to whole segments. -/
def targetCwnd (s : VegasSender φ) (baseRtt : Int) : Nat :=
  let target := u64 (s.congestionWindow * rttU64 baseRtt) / rttU64 s.minRtt
  u64 (u64 (target + kDefaultTCPMSS - 1) / kDefaultTCPMSS * kDefaultTCPMSS)

/-- `diff`, the bytes that Vegas takes to be queued. -/
def diff (s : VegasSender φ) (baseRtt : Int) : Nat :=
  u64 (s.congestionWindow * rttU64 (s.minRtt - baseRtt)) / rttU64 baseRtt

/-- The end of a round of more than two samples in `OnPacketAcked`. -/
def endOfRound (s : VegasSender φ) (baseRtt : Int) : Except Fault (VegasSender φ) :=
  if rttU64 s.minRtt = 0 then .error .divisionByZero
  else if s.minRtt < baseRtt then .error .minRttBelowBaseRtt
  else if rttU64 baseRtt = 0 then .error .divisionByZero
  else if kGammaCongestionWindow < s.diff baseRtt ∧ s.inSlowStart then
    let congestionWindow := min s.congestionWindow (s.targetCwnd baseRtt)
    .ok { s with congestionWindow := congestionWindow, slowstartThreshold := congestionWindow }
  else if s.inSlowStart then .ok s.grow
  else if kBetaCongestionWindow < s.diff baseRtt then
    if s.minCongestionWindow < s.congestionWindow then
      .ok { s with congestionWindow := s.congestionWindow - kDefaultTCPMSS }
    else .ok s
  else if s.diff baseRtt < kAlphaCongestionWindow then .ok s.grow
  else .ok s

/-- The minimum window, at the end of `OnPacketAcked`. -/
def clampToMinimum (s : VegasSender φ) : VegasSender φ :=
  { s with congestionWindow := max s.congestionWindow s.minCongestionWindow }

/-- The ack is the largest one so far. -/
def recordAck (s : VegasSender φ) (packetNumber : Nat) : VegasSender φ :=
  { s with largestAckedPacketNumber := updateMax s.largestAckedPacketNumber packetNumber }

/-- A round ends with the packets sent so far. -/
def nextRound (s : VegasSender φ) : VegasSender φ :=
  { s with begSendNext := s.largestSentPacketNumber }

/-- The samples of the round are forgotten. -/
def resetRtts (s : VegasSender φ) : VegasSender φ :=
  { s with minRtt := kInfinite, rttCount := 0 }

/-- The window at the end of a round: as Reno without enough samples. -/
def adjustWindow (F : MinFilter φ) (s : VegasSender φ) : Except Fault (VegasSender φ) :=
  if s.rttCount ≤ 2 then .ok s.increaseCongestionWindowAsReno
  else s.endOfRound (F.getBest s.baseRTTFilter)

/-- `VegasSender::OnPacketAcked`. -/
def onPacketAcked (F : MinFilter φ) (s : VegasSender φ) (packetNumber : Nat) :
    Except Fault (VegasSender φ) :=
  let s := s.recordAck packetNumber
  if !s.vegasMode then .ok s.increaseCongestionWindowAsReno
  else
    match s.begSendNext with
    | none => .error .begSendNextUninitialized
    | some begSendNext =>
      if begSendNext ≤ packetNumber then do
        let s ← s.nextRound.adjustWindow F
        .ok s.resetRtts.clampToMinimum
      else if s.inSlowStart then .ok s.grow.clampToMinimum
      else .ok s.clampToMinimum

/-- The RTT sample that `OnCongestionEvent` takes from an event with acks. -/
def vrtt (ev : CongestionEvent) : Int := ev.latestRtt + 1

/-- The update of the RTTs at the start of `OnCongestionEvent`. -/
def takeSample (F : MinFilter φ) (s : VegasSender φ) (ev : CongestionEvent) : VegasSender φ :=
  if ev.ackedPackets = [] then s
  else
    { s with
      baseRTTFilter := F.update s.baseRTTFilter (vrtt ev) ev.eventTime
      minRtt := if vrtt ev < s.minRtt then vrtt ev else s.minRtt
      rttCount := s.rttCount + 1 }

/-- The Vegas mode follows the recovery, at the end of `OnCongestionEvent`. -/
def switchMode (before : Bool) (s : VegasSender φ) : VegasSender φ :=
  if s.inRecovery = before then s
  else if s.inRecovery then { s with vegasMode := false }
  else { s.nextRound.resetRtts with vegasMode := true }

/-- The sender when `OnCongestionEvent` comes to the acked packets. -/
def beforeAcks (F : MinFilter φ) (s : VegasSender φ) (ev : CongestionEvent) : VegasSender φ :=
  ev.lostPackets.foldl onPacketLost (s.takeSample F ev)

/-- `VegasSender::OnCongestionEvent`. -/
def onCongestionEvent (F : MinFilter φ) (s : VegasSender φ) (ev : CongestionEvent) :
    Except Fault (VegasSender φ) := do
  let before := (s.takeSample F ev).inRecovery
  let s ← ev.ackedPackets.foldlM (onPacketAcked F) (s.beforeAcks F ev)
  .ok (s.switchMode before)

end VegasSender

/-! ## The machine -/

/-- One call on the sender. -/
inductive VegasOp where
  | onPacketSent (packetNumber : Nat)
  | onCongestionEvent (ev : CongestionEvent)
  | onRetransmissionTimeout
  | setInitialCongestionWindowInPackets (congestionWindow : Nat)
  deriving DecidableEq, Repr

/-- One step of the sender. -/
def vegasStep {φ : Type} (F : MinFilter φ) (s : VegasSender φ) :
    VegasOp → Except Fault (VegasSender φ)
  | .onPacketSent packetNumber => .ok (s.onPacketSent packetNumber)
  | .onCongestionEvent ev => s.onCongestionEvent F ev
  | .onRetransmissionTimeout => .ok s.onRetransmissionTimeout
  | .setInitialCongestionWindowInPackets congestionWindow =>
    .ok (s.setInitialCongestionWindowInPackets congestionWindow)

/-! ## What a loss can do -/

namespace VegasSender

variable {φ : Type} {F : MinFilter φ} {s t : VegasSender φ}

/-- The loss of a packet that the last cut came after changes nothing. -/
theorem onPacketLost_of_beforeCutback {p : Nat} (h : s.beforeCutback p = true) :
    s.onPacketLost p = s := by
  unfold onPacketLost
  exact if_pos h

/-- Any other loss cuts the window. -/
theorem onPacketLost_of_cut {p : Nat} (h : s.beforeCutback p = false) :
    s.onPacketLost p =
      { s with
        congestionWindow := max (s.congestionWindow / 2) s.minCongestionWindow
        slowstartThreshold := max (s.congestionWindow / 2) s.minCongestionWindow
        largestSentAtLastCutback := s.largestSentPacketNumber
        numAckedPackets := 0 } := by
  unfold onPacketLost
  exact if_neg (by simp [h])

/-- What every cut keeps, the losses of an event keep. -/
theorem losses_keep {I : VegasSender φ → Prop} {ps : List Nat} (hs : I s)
    (hcut : ∀ u, I u → ∀ p ∈ ps, u.beforeCutback p = false → I (u.onPacketLost p)) :
    I (ps.foldl onPacketLost s) := by
  apply List.foldlRecOn (motive := I) _ _ hs
  intro u hu p hp
  cases hbefore : u.beforeCutback p with
  | true =>
    rw [onPacketLost_of_beforeCutback hbefore]
    exact hu
  | false => exact hcut u hu p hp hbefore

/-- Losses of packets that the last cut came after change nothing. -/
theorem losses_of_beforeCutback {ps : List Nat} (h : ∀ p ∈ ps, s.beforeCutback p = true) :
    ps.foldl onPacketLost s = s := by
  apply losses_keep (I := fun u => u = s) rfl
  intro u hu p hp hcut
  rw [hu, h p hp] at hcut
  exact absurd hcut (by simp)

/-! ## What an ack can do -/

/-- The ack of `p` ends a round. -/
def EndsRound (s : VegasSender φ) (p : Nat) : Prop :=
  s.vegasMode = true ∧ ∃ b, s.begSendNext = some b ∧ b ≤ p

instance (s : VegasSender φ) (p : Nat) : Decidable (s.EndsRound p) :=
  inferInstanceAs (Decidable (_ ∧ ∃ b ∈ s.begSendNext, b ≤ p))

/-- An ack grows the window as Reno does, ends a round, or is one of a round that
goes on. -/
theorem onPacketAcked_ok {p : Nat} (h : s.onPacketAcked F p = .ok t) :
    (s.vegasMode = false ∧ t = (s.recordAck p).increaseCongestionWindowAsReno) ∨
      (s.EndsRound p ∧ ∃ u, (s.recordAck p).nextRound.adjustWindow F = .ok u ∧
        t = u.resetRtts.clampToMinimum) ∨
      (s.vegasMode = true ∧ ¬ s.EndsRound p ∧
        t = (if s.inSlowStart then (s.recordAck p).grow else s.recordAck p).clampToMinimum) := by
  unfold onPacketAcked at h
  simp only at h
  split at h
  · rename_i hmode
    exact Or.inl ⟨by simpa [recordAck] using hmode, (Except.ok.inj h).symm⟩
  · rename_i hmode
    have hmode : s.vegasMode = true := by simpa [recordAck] using hmode
    split at h
    · simp at h
    · rename_i b hb
      have hb : s.begSendNext = some b := hb
      split at h
      · rename_i hle
        obtain ⟨u, hu, ht⟩ := bind_ok_iff.1 h
        exact Or.inr (Or.inl ⟨⟨hmode, b, hb, hle⟩, u, hu, (Except.ok.inj ht).symm⟩)
      · rename_i hlt
        have hends : ¬ s.EndsRound p := by
          rintro ⟨-, b', hb', hle⟩
          rw [hb] at hb'
          exact hlt (Option.some.inj hb' ▸ hle)
        refine Or.inr (Or.inr ⟨hmode, hends, ?_⟩)
        split at h
        · rename_i hslow
          have hslow : s.inSlowStart = true := hslow
          rw [if_pos hslow]
          exact (Except.ok.inj h).symm
        · rename_i hslow
          have hslow : ¬ s.inSlowStart = true := hslow
          rw [if_neg hslow]
          exact (Except.ok.inj h).symm

/-- An ack stops the program without a first packet, or at the end of a round of
more than two samples. -/
theorem onPacketAcked_error {p : Nat} {f : Fault} (h : s.onPacketAcked F p = .error f) :
    (s.begSendNext = none ∧ f = .begSendNextUninitialized) ∨
      (s.EndsRound p ∧ 2 < s.rttCount ∧
        (s.recordAck p).nextRound.endOfRound (F.getBest s.baseRTTFilter) = .error f) := by
  unfold onPacketAcked at h
  simp only at h
  split at h
  · simp at h
  · rename_i hmode
    have hmode : s.vegasMode = true := by simpa [recordAck] using hmode
    split at h
    · rename_i hb
      exact Or.inl ⟨hb, (Except.error.inj h).symm⟩
    · rename_i b hb
      have hb : s.begSendNext = some b := hb
      split_ifs at h with hle
      · have hu : (s.recordAck p).nextRound.adjustWindow F = .error f := by
          rcases bind_error_iff.1 h with hu | ⟨u, _, hok⟩
          · exact hu
          · simp at hok
        unfold adjustWindow at hu
        split at hu
        · simp at hu
        · rename_i hcount
          exact Or.inr ⟨⟨hmode, b, hb, hle⟩, Nat.not_le.1 hcount, hu⟩

/-- The end of a round stops at the division by its smallest RTT, at the check of
that RTT, or at the division by the base RTT. -/
theorem endOfRound_error {baseRtt : Int} {f : Fault} (h : s.endOfRound baseRtt = .error f) :
    (rttU64 s.minRtt = 0 ∧ f = .divisionByZero) ∨
      (s.minRtt < baseRtt ∧ f = .minRttBelowBaseRtt) ∨
      (baseRtt ≤ s.minRtt ∧ rttU64 baseRtt = 0 ∧ f = .divisionByZero) := by
  unfold endOfRound at h
  split at h
  · rename_i hzero
    exact Or.inl ⟨hzero, (Except.error.inj h).symm⟩
  · split at h
    · rename_i hlt
      exact Or.inr (Or.inl ⟨hlt, (Except.error.inj h).symm⟩)
    · rename_i hge
      split at h
      · rename_i hzero
        exact Or.inr (Or.inr ⟨Int.not_lt.1 hge, hzero, (Except.error.inj h).symm⟩)
      · split_ifs at h

/-- The end of a round divides by its smallest RTT and, behind the check, by the base
RTT. -/
theorem endOfRound_divisionByZero_iff {baseRtt : Int} :
    s.endOfRound baseRtt = .error .divisionByZero ↔
      rttU64 s.minRtt = 0 ∨ baseRtt ≤ s.minRtt ∧ rttU64 baseRtt = 0 := by
  constructor
  · intro h
    rcases endOfRound_error h with ⟨hzero, _⟩ | ⟨_, hf⟩ | ⟨hle, hzero, _⟩
    · exact Or.inl hzero
    · exact absurd hf (by decide)
    · exact Or.inr ⟨hle, hzero⟩
  · intro h
    unfold endOfRound
    by_cases hmin : rttU64 s.minRtt = 0
    · rw [if_pos hmin]
    · obtain ⟨hle, hbase⟩ := h.resolve_left hmin
      rw [if_neg hmin, if_neg (Int.not_lt.2 hle), if_pos hbase]

/-- An ack divides in one place, the end of a round of more than two samples: there and
nowhere else it is stopped by a divisor that is 0. -/
theorem onPacketAcked_divisionByZero_iff {p : Nat} :
    s.onPacketAcked F p = .error .divisionByZero ↔
      s.EndsRound p ∧ 2 < s.rttCount ∧
        (rttU64 s.minRtt = 0 ∨
          F.getBest s.baseRTTFilter ≤ s.minRtt ∧ rttU64 (F.getBest s.baseRTTFilter) = 0) := by
  constructor
  · intro h
    rcases onPacketAcked_error h with ⟨_, hf⟩ | ⟨hends, hcount, hround⟩
    · exact absurd hf (by decide)
    · have hround := endOfRound_divisionByZero_iff.1 hround
      exact ⟨hends, hcount, hround⟩
  · rintro ⟨⟨hmode, b, hb, hle⟩, hcount, hzero⟩
    have hsamples : ¬ (s.recordAck p).nextRound.rttCount ≤ 2 := Nat.not_le.2 hcount
    have hadjust : (s.recordAck p).nextRound.adjustWindow F = .error .divisionByZero := by
      unfold adjustWindow
      rw [if_neg hsamples]
      exact endOfRound_divisionByZero_iff.2 hzero
    have hmode : ¬ (!(s.recordAck p).vegasMode) = true := by simp [recordAck, hmode]
    have hbeg : (s.recordAck p).begSendNext = some b := hb
    unfold onPacketAcked
    simp only [if_neg hmode, hbeg, if_pos hle, hadjust]
    rfl

/-- The end of a round that goes through has passed the check, and writes the window
and the threshold only. -/
theorem endOfRound_fields {baseRtt : Int} (h : s.endOfRound baseRtt = .ok t) :
    baseRtt ≤ s.minRtt ∧ ∃ congestionWindow slowstartThreshold, t =
      { s with
        congestionWindow := congestionWindow
        slowstartThreshold := slowstartThreshold } := by
  unfold endOfRound at h
  split_ifs at h with hzero hlt
  all_goals exact ⟨Int.not_lt.1 hlt, _, _, (Except.ok.inj h).symm⟩

/-- An event that goes through is its acks, and then the switch of the mode. -/
theorem onCongestionEvent_ok {ev : CongestionEvent} (h : s.onCongestionEvent F ev = .ok t) :
    ∃ u, ev.ackedPackets.foldlM (onPacketAcked F) (s.beforeAcks F ev) = .ok u ∧
      t = u.switchMode (s.takeSample F ev).inRecovery := by
  obtain ⟨u, hu, ht⟩ := bind_ok_iff.1 h
  exact ⟨u, hu, (Except.ok.inj ht).symm⟩

end VegasSender

end QuicOnNs3.CcAlgo.Vegas
