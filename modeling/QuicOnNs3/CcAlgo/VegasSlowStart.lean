import QuicOnNs3.CcAlgo.VegasSender

/-!
# Slow start of the Vegas sender

Slow start is the comparison `congestion_window_ < slowstart_threshold_`.  A
loss and the exit from slow start write both sides, and every growth raises the
window.  The Vegas decrease lowers the window alone, so it is the one branch
that may begin slow start again: `onPacketAcked_slow_start_iff` says when one
ack does, and `slow_start_not_resumed` is the consequence for whole runs.
-/

namespace QuicOnNs3.CcAlgo.Vegas

open QuicOnNs3.WindowedFilter QuicOnNs3.Execution

namespace VegasSender

variable {φ : Type} {F : MinFilter φ} {s t : VegasSender φ}

theorem not_inSlowStart_iff :
    s.inSlowStart = false ↔ s.slowstartThreshold ≤ s.congestionWindow := by
  simp [inSlowStart]

/-! ## Growth and losses -/

theorem beforeAcks_not_inSlowStart (h : s.inSlowStart = false) (ev : CongestionEvent) :
    (s.beforeAcks F ev).inSlowStart = false := by
  have hsample : (s.takeSample F ev).inSlowStart = false := by
    unfold takeSample
    split
    · exact h
    · exact h
  apply losses_keep (I := fun u => u.inSlowStart = false) hsample
  intro u _ p _ hcut
  -- A cut takes the window and the threshold to one value.
  rw [onPacketLost_of_cut hcut]
  simp [inSlowStart]

theorem switchMode_inSlowStart (before : Bool) :
    (s.switchMode before).inSlowStart = s.inSlowStart := by
  unfold switchMode
  split_ifs <;> rfl

/-- There is room for one more segment in a `uint64`. -/
def RoomToGrow (congestionWindow : Nat) : Prop := congestionWindow + kDefaultTCPMSS < 2 ^ 64

instance (congestionWindow : Nat) : Decidable (RoomToGrow congestionWindow) :=
  inferInstanceAs (Decidable (_ < _))

theorem le_u64_of_roomToGrow {w : Nat} (h : RoomToGrow w) : w ≤ u64 (w + kDefaultTCPMSS) := by
  unfold RoomToGrow at h
  rw [u64_of_lt h]
  omega

theorem grow_not_inSlowStart (hout : s.inSlowStart = false) (h : RoomToGrow s.congestionWindow) :
    s.grow.inSlowStart = false := by
  rw [not_inSlowStart_iff] at hout ⊢
  exact Nat.le_trans hout (le_u64_of_roomToGrow h)

/-- Outside of slow start, Reno grows the window for this ack. -/
def RenoGrows (s : VegasSender φ) : Prop :=
  s.congestionWindow ≤ u64 (u64 (s.numAckedPackets + 1) * kDefaultTCPMSS)

instance (s : VegasSender φ) : Decidable s.RenoGrows := inferInstanceAs (Decidable (_ ≤ _))

theorem reno_not_inSlowStart (hout : s.inSlowStart = false)
    (hroom : s.RenoGrows → RoomToGrow s.congestionWindow) :
    s.increaseCongestionWindowAsReno.inSlowStart = false := by
  unfold increaseCongestionWindowAsReno
  rw [if_neg (by simp [hout])]
  simp only
  split
  · rename_i hgrows
    exact grow_not_inSlowStart hout (hroom hgrows)
  · exact hout

theorem clampToMinimum_not_inSlowStart_iff :
    s.clampToMinimum.inSlowStart = false ↔
      s.slowstartThreshold ≤ max s.congestionWindow s.minCongestionWindow :=
  not_inSlowStart_iff

theorem clampToMinimum_not_inSlowStart (h : s.inSlowStart = false) :
    s.clampToMinimum.inSlowStart = false := by
  rw [not_inSlowStart_iff] at h
  rw [clampToMinimum_not_inSlowStart_iff]
  omega

/-! ## One ack -/

/-- Outside of slow start, the ack of `p` grows the window: as Reno, or at the end
of a round whose `diff` is below `alpha`. -/
def Grows (F : MinFilter φ) (s : VegasSender φ) (p : Nat) : Prop :=
  (s.vegasMode = false ∧ s.RenoGrows) ∨
    (s.EndsRound p ∧ s.rttCount ≤ 2 ∧ s.RenoGrows) ∨
    (s.EndsRound p ∧ 2 < s.rttCount ∧ s.diff (F.getBest s.baseRTTFilter) < kAlphaCongestionWindow)

/-- Outside of slow start, the ack of `p` takes the branch that lowers the window:
it ends a round of more than two samples whose `diff` is above `beta`. -/
def Decreases (F : MinFilter φ) (s : VegasSender φ) (p : Nat) : Prop :=
  s.EndsRound p ∧ 2 < s.rttCount ∧
    kBetaCongestionWindow < s.diff (F.getBest s.baseRTTFilter) ∧
    s.minCongestionWindow < s.congestionWindow

instance (F : MinFilter φ) (s : VegasSender φ) (p : Nat) : Decidable (s.Grows F p) :=
  inferInstanceAs (Decidable (_ ∨ (_ ∧ _ ∧ _ ≤ _) ∨ _))

instance (F : MinFilter φ) (s : VegasSender φ) (p : Nat) : Decidable (s.Decreases F p) :=
  inferInstanceAs (Decidable (_ ∧ _))

/-- The threshold is not above the window that the decrease leaves. -/
def DecreaseFits (F : MinFilter φ) (s : VegasSender φ) (p : Nat) : Prop :=
  s.Decreases F p →
    s.slowstartThreshold ≤ max (s.congestionWindow - kDefaultTCPMSS) s.minCongestionWindow

/-- The end of a round outside of slow start: after the clamp, the branch of the
decrease alone may begin slow start. -/
theorem endOfRound_slow_start_iff (hout : s.inSlowStart = false) {baseRtt : Int}
    (hroom : s.diff baseRtt < kAlphaCongestionWindow → RoomToGrow s.congestionWindow)
    (hs : s.endOfRound baseRtt = .ok t) :
    t.clampToMinimum.inSlowStart = false ↔
      (kBetaCongestionWindow < s.diff baseRtt → s.minCongestionWindow < s.congestionWindow →
        s.slowstartThreshold ≤
          max (s.congestionWindow - kDefaultTCPMSS) s.minCongestionWindow) := by
  have hstay := clampToMinimum_not_inSlowStart hout
  unfold endOfRound at hs
  simp only [hout, Bool.false_eq_true, and_false, if_false] at hs
  split_ifs at hs with h1 h2 h3 hbeta hmin halpha
  · obtain rfl := Except.ok.inj hs
    rw [clampToMinimum_not_inSlowStart_iff]
    exact ⟨fun h _ _ => h, fun h => h hbeta hmin⟩
  · obtain rfl := Except.ok.inj hs
    exact iff_of_true hstay fun _ h => absurd h hmin
  · obtain rfl := Except.ok.inj hs
    have hgrow := grow_not_inSlowStart hout (hroom halpha)
    exact iff_of_true (clampToMinimum_not_inSlowStart hgrow) fun h => absurd h hbeta
  · obtain rfl := Except.ok.inj hs
    exact iff_of_true hstay fun h => absurd h hbeta

/-- One ack outside of slow start leaves slow start over exactly when a Vegas
decrease, if it takes one, does not go below the threshold. -/
theorem onPacketAcked_slow_start_iff (hout : s.inSlowStart = false) {p : Nat}
    (hroom : s.Grows F p → RoomToGrow s.congestionWindow) (hs : s.onPacketAcked F p = .ok t) :
    t.inSlowStart = false ↔ s.DecreaseFits F p := by
  rcases onPacketAcked_ok hs with ⟨hmode, rfl⟩ | ⟨hends, u, hu, rfl⟩ | ⟨-, hends, rfl⟩
  · have hreno := reno_not_inSlowStart (s := s.recordAck p) hout
      fun h => hroom (Or.inl ⟨hmode, h⟩)
    refine iff_of_true hreno fun hd => ?_
    exact absurd hd.1.1 (by simp [hmode])
  · unfold adjustWindow at hu
    split at hu
    · rename_i hcount
      have hcount : s.rttCount ≤ 2 := hcount
      obtain rfl := Except.ok.inj hu
      have hreno := reno_not_inSlowStart (s := (s.recordAck p).nextRound) hout
        fun h => hroom (Or.inr (Or.inl ⟨hends, hcount, h⟩))
      exact iff_of_true (clampToMinimum_not_inSlowStart hreno)
        fun hd => absurd hd.2.1 (by omega)
    · rename_i hcount
      have hcount : ¬ s.rttCount ≤ 2 := hcount
      have hiff := endOfRound_slow_start_iff (s := (s.recordAck p).nextRound) hout
        (fun h => hroom (Or.inr (Or.inr ⟨hends, by omega, h⟩))) hu
      refine Iff.trans hiff ⟨fun h hd => h hd.2.2.1 hd.2.2.2, fun h hbeta hmin => ?_⟩
      exact h ⟨hends, by omega, hbeta, hmin⟩
  · rw [if_neg (by simp [hout])]
    exact iff_of_true (clampToMinimum_not_inSlowStart (s := s.recordAck p) hout)
      fun hd => absurd hd.1 hends

/-- What an ack handled outside of slow start must meet: there is room for the
segment that it grows the window by, and a Vegas decrease does not go below the
threshold. -/
def AckFits (F : MinFilter φ) (s : VegasSender φ) (p : Nat) : Prop :=
  s.inSlowStart = false →
    (s.Grows F p → RoomToGrow s.congestionWindow) ∧ s.DecreaseFits F p

instance (F : MinFilter φ) (s : VegasSender φ) (p : Nat) : Decidable (s.AckFits F p) :=
  inferInstanceAs (Decidable (_ → (_ → _) ∧ (_ → _ ≤ _)))

/-- The acks of an event, one after the other. -/
theorem acks_not_inSlowStart {ps : List Nat} (hout : s.inSlowStart = false)
    (hfits : Each (onPacketAcked F) (AckFits F) s ps)
    (hs : ps.foldlM (onPacketAcked F) s = .ok t) : t.inSlowStart = false := by
  apply hfits.run_keeps (I := fun u => u.inSlowStart = false) _ hout hs
  intro u p v hu hfit hp
  have ⟨hroom, hdec⟩ := hfit hu
  exact (onPacketAcked_slow_start_iff hu hroom hp).2 hdec

end VegasSender

open VegasSender

variable {φ : Type} {F : MinFilter φ}

/-! ## Whole runs -/

/-- Every ack of the step meets `AckFits`, in the state in which it is handled. -/
def StepFits (F : MinFilter φ) (s : VegasSender φ) (op : VegasOp) : Prop :=
  ∀ ev, op = .onCongestionEvent ev →
    Each (onPacketAcked F) (AckFits F) (s.beforeAcks F ev) ev.ackedPackets

instance (F : MinFilter φ) (s : VegasSender φ) : ∀ op, Decidable (StepFits F s op)
  | .onCongestionEvent ev =>
    decidable_of_iff (Each (onPacketAcked F) (AckFits F) (s.beforeAcks F ev) ev.ackedPackets)
      ⟨fun h _ hop => VegasOp.onCongestionEvent.inj hop ▸ h, fun h => h ev rfl⟩
  | .onPacketSent _ | .onRetransmissionTimeout | .setInitialCongestionWindowInPackets _ =>
    isTrue fun _ => VegasOp.noConfusion

theorem vegasStep_not_inSlowStart {s t : VegasSender φ} {op : VegasOp}
    (hout : s.inSlowStart = false) (hfits : StepFits F s op) (hs : vegasStep F s op = .ok t) :
    t.inSlowStart = false := by
  cases op with
  | onPacketSent p =>
    obtain rfl := Except.ok.inj hs
    exact hout
  | onRetransmissionTimeout =>
    obtain rfl := Except.ok.inj hs
    exact hout
  | setInitialCongestionWindowInPackets n =>
    obtain rfl := Except.ok.inj hs
    rw [setInitialCongestionWindowInPackets, if_neg (by simp [hout])]
    exact hout
  | onCongestionEvent ev =>
    obtain ⟨u, hu, rfl⟩ := onCongestionEvent_ok hs
    rw [switchMode_inSlowStart]
    exact acks_not_inSlowStart (beforeAcks_not_inSlowStart hout ev) (hfits ev rfl) hu

/-- Once slow start is over, it stays over in every later state of a run, as long
as every ack handled outside of slow start that grows the window has room to, and
none takes a Vegas decrease below the threshold. -/
theorem slow_start_not_resumed (F : MinFilter φ) {s t : VegasSender φ}
    (hout : s.inSlowStart = false) (hrun : Reach (vegasStep F) (StepFits F) s t) :
    t.inSlowStart = false :=
  hrun.invariant (I := fun u => u.inSlowStart = false) hout
    fun _ _ _ hi hc ht => vegasStep_not_inSlowStart hi hc ht

/-- Slow start ends with a round of queueing RTTs, at `slowstart_threshold_`. -/
def toAvoidance : List VegasOp :=
  [.onPacketSent 1, .onPacketSent 2, .onPacketSent 3, .onPacketSent 4,
    .onCongestionEvent ⟨10000, 10000, [1], []⟩,
    .onCongestionEvent ⟨20000, 20000, [2], []⟩,
    .onCongestionEvent ⟨20000, 21000, [3], []⟩,
    .onPacketSent 5, .onPacketSent 6, .onPacketSent 7,
    .onCongestionEvent ⟨20000, 22000, [4], []⟩]

/-- The sender after that round. -/
def avoiding : VegasSender SlidingMin :=
  ((toAvoidance.foldlM (vegasStep slidingMin) (new slidingMin 20 2000)).toOption).getD
    (new slidingMin 20 2000)

/-- A round without queueing, which grows the window, and then one that takes the Vegas
decrease. -/
def upAndDown : List VegasOp :=
  [.onPacketSent 8, .onPacketSent 9, .onPacketSent 10,
    .onCongestionEvent ⟨10000, 31000, [5], []⟩,
    .onCongestionEvent ⟨10000, 32000, [6], []⟩,
    .onCongestionEvent ⟨10000, 33000, [7], []⟩,
    .onCongestionEvent ⟨20000, 53000, [8], []⟩,
    .onCongestionEvent ⟨20000, 54000, [9], []⟩,
    .onCongestionEvent ⟨20000, 55000, [10], []⟩]

/-- The decrease takes back what the increase gave, and slow start stays over. -/
theorem slow_start_not_resumed_upAndDown :
    ∃ t, upAndDown.foldlM (vegasStep slidingMin) avoiding = .ok t ∧ t.inSlowStart = false := by
  have hok : (upAndDown.foldlM (vegasStep slidingMin) avoiding).isOk = true := by decide +kernel
  have hfits : Each (vegasStep slidingMin) (StepFits slidingMin) avoiding upAndDown := by
    decide +kernel
  cases ht : upAndDown.foldlM (vegasStep slidingMin) avoiding with
  | error f => simp [ht, Except.isOk, Except.toBool] at hok
  | ok t => exact ⟨t, rfl, slow_start_not_resumed slidingMin (by decide +kernel) (hfits.reach ht)⟩

/-- A round that takes the Vegas decrease at once. -/
def decreaseRound : List VegasOp :=
  [.onCongestionEvent ⟨20000, 41000, [5], []⟩,
    .onCongestionEvent ⟨20000, 42000, [6], []⟩,
    .onCongestionEvent ⟨20000, 43000, [7], []⟩]

/-- The decrease after the end of slow start begins slow start again. -/
theorem slow_start_resumed_by_decrease :
    (toAvoidance.foldlM (vegasStep slidingMin) (new slidingMin 20 2000)).toOption.map
        inSlowStart = some false ∧
      ((toAvoidance ++ decreaseRound).foldlM (vegasStep slidingMin)
        (new slidingMin 20 2000)).toOption.map inSlowStart = some true := by
  decide +kernel

end QuicOnNs3.CcAlgo.Vegas
