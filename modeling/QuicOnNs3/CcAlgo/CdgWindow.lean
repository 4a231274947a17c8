import QuicOnNs3.CcAlgo.CdgRound

/-!
# The minimum window of the CDG sender

Four paths reduce the window.  A loss, a timeout and `AdjustNetworkParameters` leave at
least `min_congestion_window_`.  A delay backoff takes the value of
`CdgGetSlowThreshold` as it is, and in the state `CDG_BACKOFF`, which `CdgBackoff` has
just set, that is 0.707 of the window with no minimum.

So the window of a run is at least the minimum exactly as long as every delay backoff is
taken from a large enough window (`window_atLeastMin_iff`).  The growth of the window is
unsigned, and `GrowthFits` keeps it from the end of its type.
-/

namespace QuicOnNs3.CcAlgo.Cdg

open QuicOnNs3.Execution

namespace CdgSender

variable {cfg : CdgConfig} {s t u : CdgSender}

/-! ## What the operations keep -/

/-- `t` has the limits of the window of `s`. -/
structure SameLimits (s t : CdgSender) : Prop where
  slowStartLargeReduction : t.slowStartLargeReduction = s.slowStartLargeReduction
  minCongestionWindow : t.minCongestionWindow = s.minCongestionWindow
  initialTcpCongestionWindow : t.initialTcpCongestionWindow = s.initialTcpCongestionWindow

/-- `t` has the window of `s` and its limits. -/
structure SameWindow (s t : CdgSender) : Prop extends SameLimits s t where
  congestionWindow : t.congestionWindow = s.congestionWindow

theorem SameLimits.trans (h : s.SameLimits t) (h' : t.SameLimits u) : s.SameLimits u where
  slowStartLargeReduction := h'.slowStartLargeReduction.trans h.slowStartLargeReduction
  minCongestionWindow := h'.minCongestionWindow.trans h.minCongestionWindow
  initialTcpCongestionWindow := h'.initialTcpCongestionWindow.trans h.initialTcpCongestionWindow

theorem SameWindow.refl (s : CdgSender) : s.SameWindow s := ⟨⟨rfl, rfl, rfl⟩, rfl⟩

theorem SameWindow.trans (h : s.SameWindow t) (h' : t.SameWindow u) : s.SameWindow u where
  toSameLimits := h.toSameLimits.trans h'.toSameLimits
  congestionWindow := h'.congestionWindow.trans h.congestionWindow

/-- The limits as the constructor leaves them, with an initial window that is at least
the minimum. -/
structure Limits (s : CdgSender) : Prop where
  noLargeReduction : s.slowStartLargeReduction = false
  min_eq : s.minCongestionWindow = kDefaultMinimumCongestionWindow
  min_le_initial : s.minCongestionWindow ≤ s.initialTcpCongestionWindow

/-- The window is at least the minimum. -/
structure AtLeastMin (s : CdgSender) : Prop extends Limits s where
  min_le_window : s.minCongestionWindow ≤ s.congestionWindow

theorem Limits.of_sameLimits (hs : s.Limits) (h : s.SameLimits t) : t.Limits where
  noLargeReduction := h.slowStartLargeReduction.trans hs.noLargeReduction
  min_eq := h.minCongestionWindow.trans hs.min_eq
  min_le_initial := by
    rw [h.minCongestionWindow, h.initialTcpCongestionWindow]
    exact hs.min_le_initial

theorem AtLeastMin.of_sameLimits (hs : s.AtLeastMin) (h : s.SameLimits t)
    (hle : s.minCongestionWindow ≤ t.congestionWindow) : t.AtLeastMin where
  toLimits := hs.toLimits.of_sameLimits h
  min_le_window := by
    rw [h.minCongestionWindow]
    exact hle

theorem AtLeastMin.of_sameWindow (hs : s.AtLeastMin) (h : s.SameWindow t) : t.AtLeastMin :=
  hs.of_sameLimits h.toSameLimits (by
    rw [h.congestionWindow]
    exact hs.min_le_window)

/-! ## Losses -/

theorem applySlowThreshold_sameLimits (cfg : CdgConfig) (s : CdgSender) :
    s.SameLimits (s.applySlowThreshold cfg) := by
  unfold applySlowThreshold cdgGetSlowThreshold
  split_ifs
  · exact ⟨rfl, rfl, rfl⟩
  · exact ⟨rfl, rfl, rfl⟩
  · exact ⟨rfl, rfl, rfl⟩
  · exact ⟨rfl, rfl, rfl⟩

/-- A loss leaves at least the minimum, or the window as it is. -/
theorem AtLeastMin.onPacketLost (hs : s.AtLeastMin) (cfg : CdgConfig) (lost : LostPacket) :
    (s.onPacketLost cfg lost).AtLeastMin := by
  unfold CdgSender.onPacketLost
  split
  · unfold reduceByLostBytes
    rw [hs.noLargeReduction, Bool.and_false, if_neg (by decide)]
    exact hs
  · have hnote : s.SameWindow s.noteSlowStart := ⟨⟨rfl, rfl, rfl⟩, rfl⟩
    have hreduce : s.noteSlowStart.reduceOnLoss cfg = s.noteSlowStart.applySlowThreshold cfg := by
      unfold reduceOnLoss
      rw [(hs.of_sameWindow hnote).noLargeReduction, Bool.false_and, if_neg (by decide)]
    have hlimits := applySlowThreshold_sameLimits cfg s.noteSlowStart
    rw [hreduce]
    refine hs.of_sameLimits ⟨hlimits.1, hlimits.2, hlimits.3⟩ ?_
    show s.minCongestionWindow ≤ max _ (s.noteSlowStart.applySlowThreshold cfg).minCongestionWindow
    rw [hlimits.minCongestionWindow]
    exact Nat.le_max_right _ _

theorem AtLeastMin.beforeAcks (hs : s.AtLeastMin) (cfg : CdgConfig) (ev : CongestionEvent) :
    (s.beforeAcks cfg ev).AtLeastMin := by
  have hrtt : s.SameWindow (s.updateRtt ev) := by
    unfold updateRtt
    split
    · exact ⟨⟨rfl, rfl, rfl⟩, rfl⟩
    · exact SameWindow.refl s
  have hstart : (s.updateRtt ev).SameWindow ((s.updateRtt ev).checkSlowStart ev) := by
    unfold checkSlowStart
    split
    · exact ⟨⟨rfl, rfl, rfl⟩, rfl⟩
    · exact SameWindow.refl _
  exact List.foldlRecOn ev.lostPackets _ (hs.of_sameWindow (hrtt.trans hstart))
    fun _ ht lost _ => ht.onPacketLost cfg lost

/-! ## Acks -/

/-- `MaybeIncreaseCwnd` makes the window larger. -/
def grows (s : CdgSender) (priorInFlight : Nat) : Bool :=
  s.isCwndLimited priorInFlight && s.congestionWindow < s.maxCongestionWindow &&
    (s.inSlowStart || s.congestionWindow / kDefaultTCPMSS ≤ u64 (s.numAckedPackets + 1))

theorem maybeIncreaseCwnd_sameLimits (s : CdgSender) (priorInFlight : Nat) :
    s.SameLimits (s.maybeIncreaseCwnd priorInFlight) := by
  unfold maybeIncreaseCwnd
  simp only
  split_ifs
  · exact ⟨rfl, rfl, rfl⟩
  · exact ⟨rfl, rfl, rfl⟩
  · exact ⟨rfl, rfl, rfl⟩
  · exact ⟨rfl, rfl, rfl⟩
  · exact ⟨rfl, rfl, rfl⟩

theorem maybeIncreaseCwnd_window (s : CdgSender) (priorInFlight : Nat) :
    (s.maybeIncreaseCwnd priorInFlight).congestionWindow =
      if s.grows priorInFlight then u64 (s.congestionWindow + kDefaultTCPMSS)
      else s.congestionWindow := by
  unfold maybeIncreaseCwnd grows
  cases hlimited : s.isCwndLimited priorInFlight with
  | false => rfl
  | true =>
    by_cases hmax : s.maxCongestionWindow ≤ s.congestionWindow
    · simp [hmax]
    · cases hslow : s.inSlowStart with
      | true => simp [hmax, Nat.not_le.1 hmax, grow]
      | false =>
        by_cases hcount : s.congestionWindow / kDefaultTCPMSS ≤ u64 (s.numAckedPackets + 1)
        · simp [hmax, Nat.not_le.1 hmax, hcount, grow]
        · simp [hmax, hcount]

/-- The ack of a packet makes the window larger. -/
def ackGrows (s : CdgSender) (packetNumber priorInFlight : Nat) : Bool :=
  !(s.recordAck packetNumber).inRecovery &&
    (s.recordAck packetNumber).leaveReduction.grows priorInFlight

theorem leaveReduction_sameWindow (s : CdgSender) : s.SameWindow s.leaveReduction := by
  unfold leaveReduction restartRound
  simp only
  split_ifs
  · exact ⟨⟨rfl, rfl, rfl⟩, rfl⟩
  · exact ⟨⟨rfl, rfl, rfl⟩, rfl⟩
  · exact ⟨⟨rfl, rfl, rfl⟩, rfl⟩
  · exact SameWindow.refl s

/-- An acked packet grows the window by one segment or leaves it. -/
theorem onPacketAcked_window (s : CdgSender) (p priorInFlight : Nat) :
    s.SameLimits (s.onPacketAcked p priorInFlight) ∧
      (s.onPacketAcked p priorInFlight).congestionWindow =
        if s.ackGrows p priorInFlight then u64 (s.congestionWindow + kDefaultTCPMSS)
        else s.congestionWindow := by
  have hrecord : s.SameWindow (s.recordAck p) := ⟨⟨rfl, rfl, rfl⟩, rfl⟩
  have hleave := hrecord.trans (leaveReduction_sameWindow (s.recordAck p))
  cases hrecovery : (s.recordAck p).inRecovery with
  | true =>
    have heq : s.onPacketAcked p priorInFlight = s.recordAck p := if_pos hrecovery
    rw [heq, ackGrows, hrecovery]
    exact ⟨hrecord.toSameLimits, rfl⟩
  | false =>
    have heq : s.onPacketAcked p priorInFlight =
        (s.recordAck p).leaveReduction.maybeIncreaseCwnd priorInFlight :=
      if_neg (by rw [hrecovery]; decide)
    rw [heq, ackGrows, hrecovery, maybeIncreaseCwnd_window, hleave.congestionWindow]
    exact ⟨hleave.toSameLimits.trans (maybeIncreaseCwnd_sameLimits _ priorInFlight), rfl⟩

/-- No ack grows the window past the end of its type. -/
def acksFit (priorInFlight : Nat) : CdgSender → List Nat → Bool
  | _, [] => true
  | s, p :: ps =>
    (!(s.updateRoundTripCounter p).2.ackGrows p priorInFlight ||
        s.congestionWindow + kDefaultTCPMSS < 2 ^ 64) &&
      acksFit priorInFlight (ackStep priorInFlight (false, s) p).2 ps

theorem updateRoundTripCounter_sameWindow (s : CdgSender) (p : Nat) :
    s.SameWindow (s.updateRoundTripCounter p).2 := by
  unfold updateRoundTripCounter
  split
  · exact ⟨⟨rfl, rfl, rfl⟩, rfl⟩
  · exact SameWindow.refl s

theorem AtLeastMin.ackStep (hs : s.AtLeastMin) (b : Bool) {p priorInFlight : Nat}
    (hfit : (s.updateRoundTripCounter p).2.ackGrows p priorInFlight = true →
      s.congestionWindow + kDefaultTCPMSS < 2 ^ 64) :
    (CdgSender.ackStep priorInFlight (b, s) p).2.AtLeastMin := by
  have hcount := updateRoundTripCounter_sameWindow s p
  have ⟨hlimits, hwindow⟩ := onPacketAcked_window (s.updateRoundTripCounter p).2 p priorInFlight
  have hle := hs.min_le_window
  refine hs.of_sameLimits (hcount.toSameLimits.trans hlimits) ?_
  show s.minCongestionWindow ≤ ((s.updateRoundTripCounter p).2.onPacketAcked p
    priorInFlight).congestionWindow
  rw [hwindow, hcount.congestionWindow]
  split
  · rename_i hgrows
    rw [u64_of_lt (hfit hgrows)]
    omega
  · exact hle

theorem AtLeastMin.ackLoop (hs : s.AtLeastMin) (b : Bool) {priorInFlight : Nat} {ps : List Nat}
    (hfit : acksFit priorInFlight s ps = true) :
    (ps.foldl (CdgSender.ackStep priorInFlight) (b, s)).2.AtLeastMin := by
  induction ps generalizing s b with
  | nil => exact hs
  | cons p ps ih =>
    rw [acksFit, Bool.and_eq_true] at hfit
    refine ih (hs.ackStep b fun hgrows => ?_) _ hfit.2
    have hroom := hfit.1
    rw [hgrows] at hroom
    simpa using hroom

/-! ## The delay backoff -/

/-- The gradient at the end of a round. -/
def roundGrad (cfg : CdgConfig) (s : CdgSender) : Int := (s.calculateGrad cfg).1

/-- The sender at the end of a round, when it comes to the backoff. -/
def beforeBackoff (cfg : CdgConfig) (s : CdgSender) : CdgSender :=
  (s.calculateGrad cfg).2.rollOver

/-- `CdgBackoff` reduces the window. -/
structure BacksOff (cfg : CdgConfig) (s : CdgSender) (grad : Int) (key : Nat) : Prop where
  key : s.keepsKey grad key = false
  effective : ¬ (cfg.useIneff ≠ 0 ∧ cfg.useIneff < (s.countBackoff cfg).backoffCount)

instance (cfg : CdgConfig) (s : CdgSender) (grad : Int) (key : Nat) :
    Decidable (BacksOff cfg s grad key) :=
  decidable_of_iff (s.keepsKey grad key = false ∧
      ¬ (cfg.useIneff ≠ 0 ∧ cfg.useIneff < (s.countBackoff cfg).backoffCount))
    ⟨fun h => ⟨h.1, h.2⟩, fun h => ⟨h.key, h.effective⟩⟩

/-- The end of a round backs off. -/
structure RoundBackoff (cfg : CdgConfig) (s : CdgSender) (key : Nat) : Prop where
  rttPrev : s.cdgRttPrev.v64 = true
  grad_pos : 0 < roundGrad cfg s
  backsOff : BacksOff cfg (beforeBackoff cfg s) (roundGrad cfg s) key

instance (cfg : CdgConfig) (s : CdgSender) (key : Nat) : Decidable (RoundBackoff cfg s key) :=
  decidable_of_iff (s.cdgRttPrev.v64 = true ∧ 0 < roundGrad cfg s ∧
      BacksOff cfg (beforeBackoff cfg s) (roundGrad cfg s) key)
    ⟨fun h => ⟨h.1, h.2.1, h.2.2⟩, fun h => ⟨h.rttPrev, h.grad_pos, h.backsOff⟩⟩

/-- A delay backoff is taken in the event. -/
structure DelayBackoff (cfg : CdgConfig) (s : CdgSender) (ev : CongestionEvent) : Prop where
  roundStart : (s.ackLoop cfg ev).1 = true
  rtt : (s.ackLoop cfg ev).2.cdgRtt.v64 = true
  round : RoundBackoff cfg (s.ackLoop cfg ev).2 ev.key

instance (cfg : CdgConfig) (s : CdgSender) (ev : CongestionEvent) :
    Decidable (DelayBackoff cfg s ev) :=
  decidable_of_iff ((s.ackLoop cfg ev).1 = true ∧ (s.ackLoop cfg ev).2.cdgRtt.v64 = true ∧
      RoundBackoff cfg (s.ackLoop cfg ev).2 ev.key)
    ⟨fun h => ⟨h.1, h.2.1, h.2.2⟩, fun h => ⟨h.roundStart, h.rtt, h.round⟩⟩

/-- `t` is `s` with the limits kept, and with the window reduced if `C` holds. -/
structure ReducedIf (C : Prop) (s t : CdgSender) : Prop extends SameLimits s t where
  reduced : C → t.congestionWindow = s.congestionWindow * 707 / 1000
  kept : ¬ C → t.congestionWindow = s.congestionWindow

theorem SameWindow.reducedIf {C : Prop} (h : s.SameWindow t) (hC : ¬ C) : ReducedIf C s t :=
  ⟨h.toSameLimits, fun hc => absurd hc hC, fun _ => h.congestionWindow⟩

theorem SameWindow.trans_reducedIf {C : Prop} (h : s.SameWindow t) (h' : ReducedIf C t u) :
    ReducedIf C s u where
  toSameLimits := h.toSameLimits.trans h'.toSameLimits
  reduced := fun hc => by rw [h'.reduced hc, h.congestionWindow]
  kept := fun hc => by rw [h'.kept hc, h.congestionWindow]

theorem ReducedIf.trans_sameWindow {C : Prop} (h : ReducedIf C s t) (h' : t.SameWindow u) :
    ReducedIf C s u where
  toSameLimits := h.toSameLimits.trans h'.toSameLimits
  reduced := fun hc => by rw [h'.congestionWindow, h.reduced hc]
  kept := fun hc => by rw [h'.congestionWindow, h.kept hc]

theorem ReducedIf.congr {C C' : Prop} (h : ReducedIf C s t) (hiff : C ↔ C') : ReducedIf C' s t :=
  ⟨h.toSameLimits, fun hc => h.reduced (hiff.2 hc), fun hc => h.kept fun hc' => hc (hiff.1 hc')⟩

theorem cdgBackoff_reducedIf (cfg : CdgConfig) (s : CdgSender) (grad : Int) (key : Nat) :
    ReducedIf (BacksOff cfg s grad key) s (s.cdgBackoff cfg grad key) := by
  have hcount : s.SameWindow (s.countBackoff cfg) := by
    unfold countBackoff
    split
    · exact ⟨⟨rfl, rfl, rfl⟩, rfl⟩
    · exact SameWindow.refl s
  unfold cdgBackoff
  simp only
  split_ifs with hkey heffective
  · refine (SameWindow.refl s).reducedIf fun h => ?_
    rw [h.key] at hkey
    exact absurd hkey (by decide)
  · exact hcount.reducedIf fun h => h.effective heffective
  · -- `CdgGetSlowThreshold` sees the state of a backoff.
    have henter : ∀ t : CdgSender, ReducedIf (BacksOff cfg s grad key) t
        (t.enterBackoff.enterCongestionWindowReduction cfg) := by
      intro t
      refine ⟨⟨rfl, rfl, rfl⟩, fun _ => rfl, fun h => ?_⟩
      exact absurd ⟨Bool.not_eq_true _ ▸ hkey, heffective⟩ h
    exact hcount.trans_reducedIf (henter _)

/-- The gradient and the roll-over leave the window alone. -/
theorem beforeBackoff_sameWindow (cfg : CdgConfig) (s : CdgSender) :
    s.SameWindow (beforeBackoff cfg s) := by
  have hpush : s.SameWindow (s.pushGradient s.gradient) := ⟨⟨rfl, rfl, rfl⟩, rfl⟩
  have hfill : ∀ t : CdgSender, t.SameWindow t.fill := fun t => ⟨⟨rfl, rfl, rfl⟩, rfl⟩
  have hjudge : ∀ t : CdgSender, t.SameWindow (t.judgeGradient cfg) :=
    fun t => ⟨⟨rfl, rfl, rfl⟩, rfl⟩
  have hroll : ∀ t : CdgSender, t.SameWindow t.rollOver := fun t => ⟨⟨rfl, rfl, rfl⟩, rfl⟩
  exact ((hpush.trans (hfill _)).trans (hjudge _)).trans (hroll _)

theorem endOfRound_reducedIf (cfg : CdgConfig) (s : CdgSender) (key : Nat) :
    ReducedIf (RoundBackoff cfg s key) s (s.endOfRound cfg key) := by
  have hbefore := beforeBackoff_sameWindow cfg s
  have hroll : s.SameWindow s.rollOver := ⟨⟨rfl, rfl, rfl⟩, rfl⟩
  unfold endOfRound
  cases hprev : s.cdgRttPrev.v64 with
  | false =>
    simp only [Bool.false_eq_true, if_false, Int.lt_irrefl]
    refine hroll.reducedIf fun h => ?_
    rw [h.rttPrev] at hprev
    exact absurd hprev (by decide)
  | true =>
    simp only [if_true]
    change ReducedIf _ s (if 0 < roundGrad cfg s then
      (beforeBackoff cfg s).cdgBackoff cfg (roundGrad cfg s) key else beforeBackoff cfg s)
    split
    · rename_i hpos
      refine hbefore.trans_reducedIf ((cdgBackoff_reducedIf cfg _ _ key).congr ?_)
      exact ⟨fun h => ⟨hprev, hpos, h⟩, fun h => h.backsOff⟩
    · rename_i hpos
      exact hbefore.reducedIf fun h => hpos h.grad_pos

/-- What an event does to the window after the acks. -/
theorem onCongestionEvent_reducedIf (cfg : CdgConfig) (s : CdgSender) (ev : CongestionEvent) :
    ReducedIf (DelayBackoff cfg s ev) (s.ackLoop cfg ev).2 (s.onCongestionEvent cfg ev) := by
  have hshadow : ∀ (t : CdgSender) (prior : Nat), t.SameWindow (t.growShadow cfg prior) := by
    intro t prior
    unfold growShadow
    split
    · exact ⟨⟨rfl, rfl, rfl⟩, rfl⟩
    · exact SameWindow.refl t
  unfold onCongestionEvent
  simp only
  split
  · rename_i hstart
    obtain ⟨hround, hrtt⟩ := Bool.and_eq_true_iff.1 hstart
    refine ((endOfRound_reducedIf cfg _ ev.key).trans_sameWindow (hshadow _ _)).congr ?_
    exact ⟨fun h => ⟨hround, hrtt, h⟩, fun h => h.round⟩
  · rename_i hstart
    exact (hshadow _ _).reducedIf fun h => hstart (Bool.and_eq_true_iff.2 ⟨h.roundStart, h.rtt⟩)

end CdgSender

open CdgSender

/-! ## Whole runs -/

/-- A condition on the event of a call, if it is one. -/
instance decidableOnEvent {P : CongestionEvent → Prop} [DecidablePred P] :
    ∀ op : CdgOp, Decidable (∀ ev, op = .onCongestionEvent ev → P ev)
  | .onCongestionEvent ev =>
    decidable_of_iff (P ev) ⟨fun h _ hop => CdgOp.onCongestionEvent.inj hop ▸ h, fun h => h ev rfl⟩
  | .onPacketSent _ | .onRetransmissionTimeout _ | .adjustNetworkParameters _ _
  | .onConnectionMigration => isTrue fun _ => CdgOp.noConfusion

/-- No ack of the call grows the window past the end of its type. -/
def GrowthFits (cfg : CdgConfig) (s : CdgSender) (op : CdgOp) : Prop :=
  ∀ ev, op = .onCongestionEvent ev →
    acksFit ev.priorInFlight (s.beforeAcks cfg ev) ev.ackedPackets = true

instance (cfg : CdgConfig) (s : CdgSender) (op : CdgOp) : Decidable (GrowthFits cfg s op) :=
  decidableOnEvent op

/-- If the call takes a delay backoff, 0.707 of its window is at least the minimum. -/
def BackoffFits (cfg : CdgConfig) (s : CdgSender) (op : CdgOp) : Prop :=
  ∀ ev, op = .onCongestionEvent ev → DelayBackoff cfg s ev →
    kDefaultMinimumCongestionWindow ≤ (s.ackLoop cfg ev).2.congestionWindow * 707 / 1000

instance (cfg : CdgConfig) (s : CdgSender) (op : CdgOp) : Decidable (BackoffFits cfg s op) :=
  decidableOnEvent op

variable {cfg : CdgConfig} {s t : CdgSender}

/-- After an event the window is at least the minimum exactly if it is after the delay
backoff. -/
theorem onCongestionEvent_min_iff (hs : s.AtLeastMin) {ev : CongestionEvent}
    (hfit : acksFit ev.priorInFlight (s.beforeAcks cfg ev) ev.ackedPackets = true) :
    (s.onCongestionEvent cfg ev).Limits ∧
      ((s.onCongestionEvent cfg ev).minCongestionWindow ≤
          (s.onCongestionEvent cfg ev).congestionWindow ↔
        (DelayBackoff cfg s ev →
          kDefaultMinimumCongestionWindow ≤
            (s.ackLoop cfg ev).2.congestionWindow * 707 / 1000)) := by
  have hacks : (s.ackLoop cfg ev).2.AtLeastMin := (hs.beforeAcks cfg ev).ackLoop false hfit
  have hreduced := onCongestionEvent_reducedIf cfg s ev
  refine ⟨hacks.toLimits.of_sameLimits hreduced.toSameLimits, ?_⟩
  rw [hreduced.minCongestionWindow]
  by_cases hdelay : DelayBackoff cfg s ev
  · rw [hreduced.reduced hdelay, hacks.min_eq, forall_prop_of_true hdelay]
  · rw [hreduced.kept hdelay]
    exact iff_of_true hacks.min_le_window fun h => absurd h hdelay

/-- One call of a run keeps the minimum exactly if its delay backoff does. -/
theorem cdgStep_min_iff (hs : s.AtLeastMin) {op : CdgOp} (hfit : GrowthFits cfg s op)
    (h : cdgStep cfg s op = .ok t) :
    t.Limits ∧ (t.minCongestionWindow ≤ t.congestionWindow ↔ BackoffFits cfg s op) := by
  have hother : t.AtLeastMin → (∀ ev, op ≠ .onCongestionEvent ev) →
      t.Limits ∧ (t.minCongestionWindow ≤ t.congestionWindow ↔ BackoffFits cfg s op) :=
    fun ht hne => ⟨ht.toLimits, iff_of_true ht.min_le_window fun ev hop => absurd hop (hne ev)⟩
  cases op with
  | onCongestionEvent ev =>
    rw [← Except.ok.inj h]
    obtain ⟨hlimits, hiff⟩ := onCongestionEvent_min_iff hs (hfit ev rfl)
    refine ⟨hlimits, hiff.trans ⟨fun h ev' hop => ?_, fun h => h ev rfl⟩⟩
    rw [← CdgOp.onCongestionEvent.inj hop]
    exact h
  | onPacketSent p =>
    refine hother ?_ fun _ => CdgOp.noConfusion
    rw [← Except.ok.inj h]
    exact hs.of_sameWindow ⟨⟨rfl, rfl, rfl⟩, rfl⟩
  | onRetransmissionTimeout packetsRetransmitted =>
    refine hother ?_ fun _ => CdgOp.noConfusion
    rw [← Except.ok.inj h]
    unfold onRetransmissionTimeout
    cases packetsRetransmitted with
    | false => exact hs.of_sameWindow ⟨⟨rfl, rfl, rfl⟩, rfl⟩
    | true => exact hs.of_sameLimits ⟨rfl, rfl, rfl⟩ (Nat.le_refl _)
  | adjustNetworkParameters bandwidth rtt =>
    refine hother ?_ fun _ => CdgOp.noConfusion
    rw [← Except.ok.inj h]
    unfold adjustNetworkParameters
    split
    · exact hs
    · exact hs.of_sameLimits ⟨rfl, rfl, rfl⟩ (Nat.le_max_left _ _)
  | onConnectionMigration =>
    refine hother ?_ fun _ => CdgOp.noConfusion
    rw [← Except.ok.inj h]
    exact hs.of_sameLimits ⟨rfl, rfl, rfl⟩ hs.min_le_initial

/-- Nothing stops the sender. -/
theorem cdgStep_ok (cfg : CdgConfig) (s : CdgSender) (op : CdgOp) :
    ∃ t, cdgStep cfg s op = .ok t := by
  cases op
  all_goals exact ⟨_, rfl⟩

/-- From an initial window that is at least the minimum, and as long as the window grows
within its type, the window of a run is at least the minimum in every state exactly when
every delay backoff is taken from a window of which 0.707 is. -/
theorem window_atLeastMin_iff (cfg : CdgConfig) (shadow initial maximum : Nat)
    (hinitial : kDefaultMinimumCongestionWindow ≤ u64 (initial * kDefaultTCPMSS))
    (ops : List CdgOp)
    (hfits : Each (cdgStep cfg) (GrowthFits cfg) (new shadow initial maximum) ops) :
    Along (cdgStep cfg) (fun s => s.minCongestionWindow ≤ s.congestionWindow)
        (new shadow initial maximum) ops ↔
      Each (cdgStep cfg) (BackoffFits cfg) (new shadow initial maximum) ops := by
  have hnew : (new shadow initial maximum).AtLeastMin := ⟨⟨rfl, rfl, hinitial⟩, hinitial⟩
  rw [along_iff, and_iff_right hnew.min_le_window]
  apply each_iff_given (I := AtLeastMin) ?_ ?_ hnew hfits
  · intro s op hs hfit
    obtain ⟨t, ht⟩ := cdgStep_ok cfg s op
    have hiff := (cdgStep_min_iff hs hfit ht).2
    rw [← hiff]
    refine ⟨fun h => h t ht, fun h t' ht' => ?_⟩
    rwa [← Except.ok.inj (ht.symm.trans ht')]
  · intro s op t hs hfit hback ht
    obtain ⟨hlimits, hiff⟩ := cdgStep_min_iff hs hfit ht
    exact ⟨hlimits, hiff.2 hback⟩

/-- The acks of packets 2 and 3 end the second round, and its delay backoff leaves 10322
bytes of 14600. -/
theorem window_atLeastMin_iff_slowerAck :
    let ops := [.onPacketSent 1, .onPacketSent 2, .onCongestionEvent (ackEvent [1]),
      .onPacketSent 3, .onCongestionEvent slowerAck]
    DelayBackoff sampleConfig twoInFlight slowerAck ∧
      (twoInFlight.onCongestionEvent sampleConfig slowerAck).congestionWindow = 10322 ∧
      Along (cdgStep sampleConfig) (fun s => s.minCongestionWindow ≤ s.congestionWindow)
        (new 0 10 100) ops := by
  refine ⟨by decide +kernel, by decide +kernel, ?_⟩
  rw [window_atLeastMin_iff sampleConfig 0 10 100 (by decide +kernel) _ (by decide +kernel)]
  decide +kernel

/-- Two rounds of one packet, of which the second one has an RTT of 20 ms instead of 10. -/
def risingRtt : List CdgOp :=
  [.onPacketSent 1, .onCongestionEvent (ackEvent [1]), .onPacketSent 2,
    .onCongestionEvent { ackEvent [2] with latestRttMs := 20, key := 4294967295 }]

/-- The delay backoff of a sender with a window of two packets leaves less than two. -/
theorem risingRtt_below_minimum :
    kDefaultMinimumCongestionWindow = (new 0 2 2).congestionWindow ∧
      (risingRtt.foldlM (cdgStep sampleConfig) (new 0 2 2)).map
        (fun s => (s.minCongestionWindow, s.congestionWindow)) = .ok (2920, 2064) := by
  decide +kernel

end QuicOnNs3.CcAlgo.Cdg
