import QuicOnNs3.CcAlgo.SendAlgorithm
import QuicOnNs3.Lib.Execution

/-!
# The CDG sender

`TcpCdgSenderBytes` as the code computes it.  The file is work in progress, so some of
what it uses is not there: those parts are the fields of a `CdgConfig`.  `grag` is
read as `grad`, the factor `kCdgBeta` is 707/1000 rounded down, and the `int32`
arithmetic of the gradients is exact.

`prr_`, `cubic_` and `stats_` do not act on the window and are left out, and so is
the state of `hybrid_slow_start_`, whose answer is a field of the event.
-/

namespace QuicOnNs3.CcAlgo.Cdg

/-! ## Constants -/

def kMaxBurstBytes : Nat := 3 * kDefaultTCPMSS
def kDefaultMinimumCongestionWindow : Nat := 2 * kDefaultTCPMSS
def kMaxResumptionCongestionWindow : Nat := 200
def kRttWin : Nat := 8

/-! ## The data model -/

/-- `tcp_ca_state`. -/
inductive TcpCaState where
  | open
  | disorder
  | cwr
  | recovery
  | loss
  deriving DecidableEq, Repr

/-- `cdg_state`. -/
inductive CdgState where
  | unknown
  | nonfull
  | full
  | backoff
  deriving DecidableEq, Repr

/-- `minmax`. -/
structure MinMax where
  min : Int := 0
  max : Int := 0
  deriving DecidableEq, Repr

/-- `v64` is not 0. -/
def MinMax.v64 (m : MinMax) : Bool := m.min ≠ 0 || m.max ≠ 0

/-- What the file uses and does not define: the two flags, the initial value of
`use_ineff_`, the second argument of the update of the shadow window, and
`ToBytesPerPeriod` of a bandwidth and an RTT. -/
structure CdgConfig where
  useShadow : Bool
  useTolerance : Bool
  useIneff : Nat
  growShadow (shadow inc : Nat) : Nat
  toBytesPerPeriod (bandwidth rtt : Nat) : Nat

/-- The fields of the sender. -/
structure CdgSender where
  largestSentPacketNumber : Option Nat := none
  currentRoundTripEnd : Option Nat := none
  largestAckedPacketNumber : Option Nat := none
  largestSentAtLastCutback : Option Nat := none
  lastCutbackExitedSlowstart : Bool := false
  slowStartLargeReduction : Bool := false
  numAckedPackets : Nat := 0
  congestionWindow : Nat
  minCongestionWindow : Nat := kDefaultMinimumCongestionWindow
  maxCongestionWindow : Nat
  slowstartThreshold : Nat
  initialTcpCongestionWindow : Nat
  initialMaxTcpCongestionWindow : Nat
  minSlowStartExitWindow : Nat := kDefaultMinimumCongestionWindow
  shadowCongestionWindow : Nat
  congState : TcpCaState := .open
  cdgState : CdgState := .unknown
  backoffFactor : Nat := 42
  backoffCount : Nat := 0
  cdgRtt : MinMax := {}
  cdgRttPrev : MinMax := {}
  cdgGsum : MinMax := {}
  gradients : Vector MinMax kRttWin := .replicate kRttWin {}
  gfilled : Bool := false
  tail : Fin kRttWin := ⟨0, by decide⟩
  deriving DecidableEq, Repr

/-- A packet of `lost_packets`. -/
structure LostPacket where
  packetNumber : Nat
  bytesLost : Nat
  deriving DecidableEq, Repr

/-- The arguments of `OnCongestionEvent`, with what it reads elsewhere: the latest RTT of
`rtt_stats_` in milliseconds, the answer of `ShouldExitSlowStart`, and the bytes of
`random_`.  Acked packets are named by their numbers. -/
structure CongestionEvent where
  rttUpdated : Bool
  priorInFlight : Nat
  ackedPackets : List Nat
  lostPackets : List LostPacket
  latestRttMs : Int
  shouldExitSlowStart : Bool
  key : Nat
  deriving DecidableEq, Repr

/-! ## `nexp_u32` -/

/-- The table `v` after its first entry, 65535. -/
def nexpTable : List Nat :=
  [65518, 65501, 65468, 65401, 65267, 65001, 64470, 63422, 61378, 57484, 50423, 38795, 22965,
    8047, 987, 14]

/-- The loop of `nexp_u32`, which reads one entry of the table for each bit. -/
def nexpLoop (msb res : Nat) : List Nat → Nat
  | [] => res
  | v :: table =>
    if msb = 0 then res
    else
      let y := (if msb % 2 = 1 then v else 65535) + 1
      nexpLoop (msb / 2) (res * y / 2 ^ 16) table

/-- `nexp_u32`. -/
def nexpU32 (ux : Nat) : Nat :=
  let msb := ux / 2 ^ 8
  if 65535 < msb then 0
  else nexpLoop msb (4294967295 - ux % 2 ^ 8 * (4294967295 / 1000000)) nexpTable

namespace CdgSender

variable (cfg : CdgConfig)

/-- `TcpCdgSenderBytes::TcpCdgSenderBytes`, with the window lengths in packets.  It does
not write the shadow window. -/
def new (shadow initialTcpCongestionWindow maxCongestionWindow : Nat) : CdgSender where
  congestionWindow := u64 (initialTcpCongestionWindow * kDefaultTCPMSS)
  maxCongestionWindow := u64 (maxCongestionWindow * kDefaultTCPMSS)
  slowstartThreshold := u64 (maxCongestionWindow * kDefaultTCPMSS)
  initialTcpCongestionWindow := u64 (initialTcpCongestionWindow * kDefaultTCPMSS)
  initialMaxTcpCongestionWindow := u64 (maxCongestionWindow * kDefaultTCPMSS)
  shadowCongestionWindow := shadow

/-- `InSlowStart`. -/
def inSlowStart (s : CdgSender) : Bool := s.congestionWindow < s.slowstartThreshold

/-- `InRecovery`. -/
def inRecovery (s : CdgSender) : Bool :=
  match s.largestAckedPacketNumber, s.largestSentAtLastCutback with
  | some acked, some cutback => acked ≤ cutback
  | _, _ => false

/-- `IsCwndLimited`. -/
def isCwndLimited (s : CdgSender) (bytesInFlight : Nat) : Bool :=
  s.congestionWindow ≤ bytesInFlight ||
    (s.inSlowStart && s.congestionWindow / 2 < bytesInFlight) ||
    s.congestionWindow - bytesInFlight ≤ kMaxBurstBytes

/-- `SetCongestionWindowFromBandwidthAndRtt`. -/
def setCongestionWindowFromBandwidthAndRtt (s : CdgSender) (bandwidth rtt : Nat) : CdgSender :=
  { s with
    congestionWindow := max s.minCongestionWindow
      (min (cfg.toBytesPerPeriod bandwidth rtt)
        (kMaxResumptionCongestionWindow * kDefaultTCPMSS)) }

/-- `AdjustNetworkParameters`. -/
def adjustNetworkParameters (s : CdgSender) (bandwidth rtt : Nat) : CdgSender :=
  if bandwidth = 0 ∨ rtt = 0 then s
  else s.setCongestionWindowFromBandwidthAndRtt cfg bandwidth rtt

/-- `SetInitialCongestionWindowInPackets`. -/
def setInitialCongestionWindowInPackets (s : CdgSender) (congestionWindow : Nat) : CdgSender :=
  { s with congestionWindow := u64 (congestionWindow * kDefaultTCPMSS) }

/-- `OnPacketSent` of a retransmittable packet. -/
def onPacketSent (s : CdgSender) (packetNumber : Nat) : CdgSender :=
  { s with largestSentPacketNumber := some packetNumber }

/-- `ExitSlowstart`. -/
def exitSlowstart (s : CdgSender) : CdgSender :=
  { s with slowstartThreshold := s.congestionWindow }

/-- `CdgGetSlowThreshold`: the threshold, and the sender with its shadow window. -/
def cdgGetSlowThreshold (s : CdgSender) : Nat × CdgSender :=
  if s.cdgState = .backoff then (s.congestionWindow * 707 / 1000, s)
  else if s.cdgState = .nonfull ∧ cfg.useTolerance then (s.congestionWindow, s)
  else
    let shadow := min s.congestionWindow (s.shadowCongestionWindow / 2)
    let threshold :=
      if cfg.useShadow then
        max (max s.minCongestionWindow shadow) (s.congestionWindow / 2)
      else max s.minCongestionWindow (s.congestionWindow / 2)
    (threshold, { s with shadowCongestionWindow := shadow })

/-- Whether the packet was sent before the last cutback. -/
def beforeCutback (s : CdgSender) (packetNumber : Nat) : Bool :=
  match s.largestSentAtLastCutback with
  | none => false
  | some cutback => packetNumber ≤ cutback

/-- The bytes of a packet lost in slow start are taken off the window, with the large
reduction. -/
def reduceByLostBytes (s : CdgSender) (bytesLost : Nat) : CdgSender :=
  if s.lastCutbackExitedSlowstart && s.slowStartLargeReduction then
    let congestionWindow :=
      max (u64 (s.congestionWindow + (2 ^ 64 - bytesLost))) s.minSlowStartExitWindow
    { s with congestionWindow := congestionWindow, slowstartThreshold := congestionWindow }
  else s

/-- `congestion_window_ = CdgGetSlowThreshold()`. -/
def applySlowThreshold (s : CdgSender) : CdgSender :=
  let (threshold, s) := s.cdgGetSlowThreshold cfg
  { s with congestionWindow := threshold }

/-- The window after a loss that starts a new cutback. -/
def reduceOnLoss (s : CdgSender) : CdgSender :=
  if s.slowStartLargeReduction && s.inSlowStart then
    { s with
      minSlowStartExitWindow :=
        if u64 (2 * s.initialTcpCongestionWindow) ≤ s.congestionWindow then
          s.congestionWindow / 2
        else s.minSlowStartExitWindow
      congestionWindow := u64 (s.congestionWindow + (2 ^ 64 - kDefaultTCPMSS)) }
  else s.applySlowThreshold cfg

/-- A cutback notes whether it ends slow start. -/
def noteSlowStart (s : CdgSender) : CdgSender :=
  { s with lastCutbackExitedSlowstart := s.inSlowStart }

/-- A recovery begins with a window that is at least the minimum. -/
def startRecovery (s : CdgSender) : CdgSender :=
  { s with
    congestionWindow := max s.congestionWindow s.minCongestionWindow
    congState := .recovery }

/-- A cutback covers the packets sent so far, and its window is the threshold. -/
def cutback (s : CdgSender) : CdgSender :=
  { s with
    slowstartThreshold := s.congestionWindow
    largestSentAtLastCutback := s.largestSentPacketNumber
    numAckedPackets := 0 }

/-- `OnPacketLost`. -/
def onPacketLost (s : CdgSender) (lost : LostPacket) : CdgSender :=
  if s.beforeCutback lost.packetNumber then s.reduceByLostBytes lost.bytesLost
  else (s.noteSlowStart.reduceOnLoss cfg).startRecovery.cutback

/-- The window grows by one segment. -/
def grow (s : CdgSender) : CdgSender :=
  { s with congestionWindow := u64 (s.congestionWindow + kDefaultTCPMSS) }

/-- `MaybeIncreaseCwnd`. -/
def maybeIncreaseCwnd (s : CdgSender) (priorInFlight : Nat) : CdgSender :=
  if !s.isCwndLimited priorInFlight then s
  else if s.maxCongestionWindow ≤ s.congestionWindow then s
  else if s.inSlowStart then s.grow
  else
    let s := { s with numAckedPackets := u64 (s.numAckedPackets + 1) }
    if s.congestionWindow / kDefaultTCPMSS ≤ s.numAckedPackets then
      { s.grow with numAckedPackets := 0 }
    else s

/-- A new round begins after a reduction of the window by the gradient. -/
def restartRound (s : CdgSender) : CdgSender :=
  { s with
    cdgState := .unknown
    currentRoundTripEnd := s.largestSentPacketNumber
    cdgRttPrev := s.cdgRtt
    cdgRtt := {} }

/-- The ack is the largest one so far. -/
def recordAck (s : CdgSender) (packetNumber : Nat) : CdgSender :=
  { s with largestAckedPacketNumber := updateMax s.largestAckedPacketNumber packetNumber }

/-- The states of a reduction are left, after the recovery. -/
def leaveReduction (s : CdgSender) : CdgSender :=
  let s := if s.congState = .cwr then s.restartRound else s
  if s.congState = .cwr ∨ s.congState = .recovery then { s with congState := .open } else s

/-- `OnPacketAcked`. -/
def onPacketAcked (s : CdgSender) (packetNumber priorInFlight : Nat) : CdgSender :=
  let s := s.recordAck packetNumber
  if s.inRecovery then s
  else s.leaveReduction.maybeIncreaseCwnd priorInFlight

/-- Whether a packet ends a round that was to end with `roundEnd`. -/
def endsRound (roundEnd : Option Nat) (packetNumber : Nat) : Bool :=
  match roundEnd with
  | none => true
  | some roundEnd => roundEnd < packetNumber

/-- `UpdateRoundTripCounter`. -/
def updateRoundTripCounter (s : CdgSender) (lastAckedPacket : Nat) : Bool × CdgSender :=
  if endsRound s.currentRoundTripEnd lastAckedPacket then
    (true, { s with currentRoundTripEnd := s.largestSentPacketNumber })
  else (false, s)

/-- One acked packet in the loop of `OnCongestionEvent`, with `round_start`. -/
def ackStep (priorInFlight : Nat) (r : Bool × CdgSender) (packetNumber : Nat) :
    Bool × CdgSender :=
  let (roundStart, s) := r.2.updateRoundTripCounter packetNumber
  (roundStart, s.onPacketAcked packetNumber priorInFlight)

/-! ## The gradient -/

/-- `(tail + 1) & (kRttWin - 1)`. -/
def nextTail (tail : Fin kRttWin) : Fin kRttWin :=
  ⟨(tail.val + 1) &&& (kRttWin - 1), Nat.lt_of_le_of_lt Nat.and_le_right (by decide)⟩

/-- The gradient of the RTTs of the last two rounds. -/
def gradient (s : CdgSender) : MinMax where
  min := s.cdgRtt.min - s.cdgRttPrev.min
  max := s.cdgRtt.max - s.cdgRttPrev.max

/-- A gradient takes the place of the one at the tail of the ring, also in the sums. -/
def pushGradient (s : CdgSender) (g : MinMax) : CdgSender :=
  { s with
    cdgGsum :=
      { min := s.cdgGsum.min + (g.min - s.gradients[s.tail].min)
        max := s.cdgGsum.max + (g.max - s.gradients[s.tail].max) }
    gradients := s.gradients.set s.tail g
    tail := nextTail s.tail }

/-- The sum that counts as the gradient, scaled to a full ring. -/
def scaledGrad (s : CdgSender) : Int :=
  let grad := if 0 < s.cdgGsum.min then s.cdgGsum.min else s.cdgGsum.max
  if s.gfilled then grad
  else if s.tail.val = 0 then grad
  else (grad * kRttWin).tdiv s.tail.val

/-- The ring is full when the tail is back at its start. -/
def fill (s : CdgSender) : CdgSender :=
  { s with gfilled := s.gfilled || s.tail.val = 0 }

/-- The count of the backoffs and `cdg_state_` follow the sums. -/
def judgeGradient (s : CdgSender) : CdgSender :=
  let gmin := s.cdgGsum.min
  let gmax := s.cdgGsum.max
  { s with
    backoffCount := if gmin ≤ 0 ∨ gmax ≤ 0 then 0 else s.backoffCount
    cdgState :=
      if cfg.useTolerance then
        if 0 < gmin ∧ gmax ≤ 0 then .full
        else if (0 < gmin ∧ 0 < gmax) ∨ gmax < 0 then .nonfull
        else s.cdgState
      else s.cdgState }

/-- `CalculateGrad`. -/
def calculateGrad (s : CdgSender) : Int × CdgSender :=
  let s := s.pushGradient s.gradient
  (s.scaledGrad, s.fill.judgeGradient cfg)

/-! ## The backoff -/

/-- `EnterCongestionWindowReduction`. -/
def enterCongestionWindowReduction (s : CdgSender) : CdgSender :=
  ({ s with congState := .cwr }.applySlowThreshold cfg).cutback

/-- The random key asks for no backoff. -/
def keepsKey (s : CdgSender) (grad : Int) (key : Nat) : Bool :=
  key ≤ nexpU32 ((grad * s.backoffFactor) % 2 ^ 32).toNat

/-- One more backoff. -/
def countBackoff (s : CdgSender) : CdgSender :=
  if cfg.useIneff ≠ 0 then { s with backoffCount := (s.backoffCount + 1) % 2 ^ 32 } else s

/-- The window goes to the shadow window, and the state is the one of a backoff. -/
def enterBackoff (s : CdgSender) : CdgSender :=
  { s with
    shadowCongestionWindow := max s.shadowCongestionWindow s.congestionWindow
    cdgState := .backoff
    congState := .cwr }

/-- `CdgBackoff`. -/
def cdgBackoff (s : CdgSender) (grad : Int) (key : Nat) : CdgSender :=
  if s.keepsKey grad key then s
  else
    let s := s.countBackoff cfg
    if cfg.useIneff ≠ 0 ∧ cfg.useIneff < s.backoffCount then s
    else s.enterBackoff.enterCongestionWindowReduction cfg

/-! ## The events -/

/-- An `int64` in an `int32`. -/
def toInt32 (x : Int) : Int := x.bmod (2 ^ 32)

/-- The RTTs of the round, at the start of `OnCongestionEvent`. -/
def updateRtt (s : CdgSender) (ev : CongestionEvent) : CdgSender :=
  if ev.rttUpdated then
    let rttMs := ev.latestRttMs
    { s with
      cdgRtt :=
        { min := toInt32 (if s.cdgRtt.min = 0 then rttMs else min s.cdgRtt.min rttMs)
          max := toInt32 (max s.cdgRtt.max rttMs) } }
  else s

/-- The hybrid slow start may end slow start. -/
def checkSlowStart (s : CdgSender) (ev : CongestionEvent) : CdgSender :=
  if ev.rttUpdated && s.inSlowStart && ev.shouldExitSlowStart then s.exitSlowstart else s

/-- The sender when `OnCongestionEvent` comes to the acked packets. -/
def beforeAcks (s : CdgSender) (ev : CongestionEvent) : CdgSender :=
  ev.lostPackets.foldl (onPacketLost cfg) ((s.updateRtt ev).checkSlowStart ev)

/-- The loop of `OnCongestionEvent` over the acked packets. -/
def ackLoop (s : CdgSender) (ev : CongestionEvent) : Bool × CdgSender :=
  ev.ackedPackets.foldl (ackStep ev.priorInFlight) (false, s.beforeAcks cfg ev)

/-- The RTTs of the round are the ones of the last round. -/
def rollOver (s : CdgSender) : CdgSender :=
  { s with cdgRttPrev := s.cdgRtt, cdgRtt := {} }

/-- The end of a round in `OnCongestionEvent`. -/
def endOfRound (s : CdgSender) (key : Nat) : CdgSender :=
  let (grad, s) := if s.cdgRttPrev.v64 then s.calculateGrad cfg else (0, s)
  let s := s.rollOver
  if 0 < grad then s.cdgBackoff cfg grad key else s

/-- The shadow window grows with the window. -/
def growShadow (s : CdgSender) (congestionWindowPrior : Nat) : CdgSender :=
  if congestionWindowPrior < s.congestionWindow then
    { s with
      shadowCongestionWindow := max s.shadowCongestionWindow
        (cfg.growShadow s.shadowCongestionWindow
          (s.congestionWindow - congestionWindowPrior)) }
  else s

/-- `OnCongestionEvent`. -/
def onCongestionEvent (s : CdgSender) (ev : CongestionEvent) : CdgSender :=
  let congestionWindowPrior := (s.beforeAcks cfg ev).congestionWindow
  let (roundStart, s) := s.ackLoop cfg ev
  let s := if roundStart && s.cdgRtt.v64 then s.endOfRound cfg ev.key else s
  s.growShadow cfg congestionWindowPrior

/-! ## The other calls -/

/-- `HandleRetransmissionTimeout`. -/
def handleRetransmissionTimeout (s : CdgSender) : CdgSender :=
  { s with
    slowstartThreshold := s.congestionWindow / 2
    congestionWindow := s.minCongestionWindow }

/-- `OnRetransmissionTimeout`. -/
def onRetransmissionTimeout (s : CdgSender) (packetsRetransmitted : Bool) : CdgSender :=
  let s := { s with largestSentAtLastCutback := none }
  if packetsRetransmitted then s.handleRetransmissionTimeout else s

/-- `OnConnectionMigration`. -/
def onConnectionMigration (s : CdgSender) : CdgSender :=
  { s with
    largestSentPacketNumber := none
    largestAckedPacketNumber := none
    largestSentAtLastCutback := none
    lastCutbackExitedSlowstart := false
    numAckedPackets := 0
    congestionWindow := s.initialTcpCongestionWindow
    maxCongestionWindow := s.initialMaxTcpCongestionWindow
    slowstartThreshold := s.initialMaxTcpCongestionWindow }

end CdgSender

/-! ## The machine -/

/-- One call on the sender. -/
inductive CdgOp where
  | onPacketSent (packetNumber : Nat)
  | onCongestionEvent (ev : CongestionEvent)
  | onRetransmissionTimeout (packetsRetransmitted : Bool)
  | adjustNetworkParameters (bandwidth rtt : Nat)
  | onConnectionMigration
  deriving DecidableEq, Repr

/-- One step of the sender, which nothing stops. -/
def cdgStep (cfg : CdgConfig) (s : CdgSender) : CdgOp → Except Empty CdgSender
  | .onPacketSent packetNumber => .ok (s.onPacketSent packetNumber)
  | .onCongestionEvent ev => .ok (s.onCongestionEvent cfg ev)
  | .onRetransmissionTimeout packetsRetransmitted =>
    .ok (s.onRetransmissionTimeout packetsRetransmitted)
  | .adjustNetworkParameters bandwidth rtt => .ok (s.adjustNetworkParameters cfg bandwidth rtt)
  | .onConnectionMigration => .ok s.onConnectionMigration

end QuicOnNs3.CcAlgo.Cdg
