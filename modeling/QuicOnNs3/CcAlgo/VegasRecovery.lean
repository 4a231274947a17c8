import QuicOnNs3.CcAlgo.VegasCoherence
import QuicOnNs3.CcAlgo.VegasWindow
import QuicOnNs3.Lib.AdditiveIncrease

/-!
# The Vegas sender in recovery

While it recovers from a loss the sender is in the Reno mode, and each ack goes through
`IncreaseCongestionWindowAsReno`.  Outside of slow start this is the counter of an
additive increase, with `num_acked_packets_` as its acks (`Follows`).

`Counting` is what a run keeps so that the counter is below the window when recovery
begins.  `recovery_growth` says how far the window grows in recovery.
-/

namespace QuicOnNs3.CcAlgo.Vegas

open QuicOnNs3.WindowedFilter QuicOnNs3.Execution QuicOnNs3.AdditiveIncrease

namespace VegasSender

variable {φ : Type} {F : MinFilter φ} {s t u : VegasSender φ}

/-! ## One ack of the Reno mode -/

/-- The segments of a window, the last one perhaps not whole. -/
def segments (s : VegasSender φ) : Nat :=
  (s.congestionWindow + (kDefaultTCPMSS - 1)) / kDefaultTCPMSS

theorem congestionWindow_le_iff (s : VegasSender φ) (n : Nat) :
    s.congestionWindow ≤ n * kDefaultTCPMSS ↔ s.segments ≤ n := by
  unfold segments kDefaultTCPMSS
  omega

theorem segments_succ (h : t.congestionWindow = s.congestionWindow + kDefaultTCPMSS) :
    t.segments = s.segments + 1 := by
  unfold segments
  rw [h]
  unfold kDefaultTCPMSS
  omega

/-- The sender is out of slow start, and has fewer acks on the count than its window has
segments. -/
structure Counts (s : VegasSender φ) : Prop where
  inSlowStart : s.inSlowStart = false
  acked : s.numAckedPackets < s.segments

/-- The count is at 0, or the sender is out of slow start and counts. -/
def ReadyToCount (s : VegasSender φ) : Prop := s.numAckedPackets = 0 ∨ s.Counts

theorem Counts.of_le (h : s.Counts) (hw : s.congestionWindow ≤ t.congestionWindow)
    (hthreshold : t.slowstartThreshold = s.slowstartThreshold)
    (hacked : t.numAckedPackets = s.numAckedPackets) : t.Counts := by
  obtain ⟨hout, hlt⟩ := h
  constructor
  · rw [not_inSlowStart_iff] at hout ⊢
    omega
  · unfold segments kDefaultTCPMSS at hlt ⊢
    omega

theorem ReadyToCount.of_same (h : s.ReadyToCount) (hw : t.congestionWindow = s.congestionWindow)
    (hthreshold : t.slowstartThreshold = s.slowstartThreshold)
    (hacked : t.numAckedPackets = s.numAckedPackets) : t.ReadyToCount :=
  h.imp hacked.trans fun hcounts => hcounts.of_le (Nat.le_of_eq hw.symm) hthreshold hacked

/-- Out of slow start an ack is counted, or it completes a window of acks. -/
theorem reno_counted (hout : s.inSlowStart = false) (hready : s.ReadyToCount)
    (hroom : RoomToGrow s.congestionWindow) :
    (s.numAckedPackets + 1 < s.segments ∧
      s.increaseCongestionWindowAsReno = { s with numAckedPackets := s.numAckedPackets + 1 }) ∨
    (s.segments ≤ s.numAckedPackets + 1 ∧
      s.increaseCongestionWindowAsReno =
        { s with
          congestionWindow := s.congestionWindow + kDefaultTCPMSS, numAckedPackets := 0 }) := by
  have hfits : (s.numAckedPackets + 1) * kDefaultTCPMSS < 2 ^ 64 := by
    unfold RoomToGrow kDefaultTCPMSS at hroom
    rcases hready with hzero | hcounts
    · rw [hzero]
      decide
    · have hlt := hcounts.acked
      rw [← Nat.not_le, ← congestionWindow_le_iff] at hlt
      unfold kDefaultTCPMSS at hlt ⊢
      omega
  have hcount : u64 (s.numAckedPackets + 1) = s.numAckedPackets + 1 := by
    apply u64_of_lt
    unfold kDefaultTCPMSS at hfits
    omega
  unfold increaseCongestionWindowAsReno
  rw [if_neg (by simp [hout])]
  simp only [hcount, u64_of_lt hfits, congestionWindow_le_iff]
  split_ifs with hgrows
  · refine Or.inr ⟨hgrows, ?_⟩
    unfold grow
    rw [u64_of_lt hroom]
  · exact Or.inl ⟨Nat.not_le.1 hgrows, rfl⟩

theorem reno_readyToCount (hready : s.ReadyToCount) (hroom : RoomToGrow s.congestionWindow) :
    s.increaseCongestionWindowAsReno.ReadyToCount := by
  cases hslow : s.inSlowStart with
  | true =>
    have hcounts : ¬ s.Counts := fun h => absurd (h.inSlowStart.symm.trans hslow) (by decide)
    unfold increaseCongestionWindowAsReno
    rw [if_pos hslow]
    exact Or.inl (hready.resolve_right hcounts)
  | false =>
    rcases reno_counted hslow hready hroom with ⟨hlt, ht⟩ | ⟨-, ht⟩
    · rw [ht]
      exact Or.inr ⟨hslow, hlt⟩
    · rw [ht]
      exact Or.inl rfl

/-! ## The event that begins recovery -/

/-- The count is at 0, or a round has just ended and the sender counts. -/
def ReadyInRound (s : VegasSender φ) : Prop :=
  s.numAckedPackets = 0 ∨ (s.rttCount ≤ 2 ∧ s.Counts)

theorem ReadyInRound.ready (h : s.ReadyInRound) : s.ReadyToCount := h.imp_right And.right

/-- An ack of the Vegas mode keeps it so: it counts only at the end of a short round, and
a long round ends with the count at 0. -/
theorem onPacketAcked_readyInRound {p : Nat} (hmode : s.vegasMode = true) (hs : s.ReadyInRound)
    (hroom : RoomToGrow s.congestionWindow) (h : s.onPacketAcked F p = .ok t) :
    t.ReadyInRound := by
  rcases onPacketAcked_ok h with ⟨hreno, -⟩ | ⟨-, u, hu, ht⟩ | ⟨-, -, ht⟩
  · exact absurd (hreno.symm.trans hmode) (by decide)
  · have hready : u.ReadyToCount := by
      unfold adjustWindow at hu
      split at hu
      · rw [← Except.ok.inj hu]
        exact reno_readyToCount (s := (s.recordAck p).nextRound) (hs.ready.of_same rfl rfl rfl) hroom
      · rename_i hcount
        have hcount : ¬ s.rttCount ≤ 2 := hcount
        have ⟨_, w, threshold, hfields⟩ := endOfRound_fields hu
        rw [hfields]
        exact Or.inl (hs.resolve_right fun hshort => hcount hshort.1)
    rw [ht]
    exact hready.imp_right fun hcounts =>
      ⟨Nat.zero_le _, hcounts.of_le (Nat.le_max_left _ _) rfl rfl⟩
  · rw [ht]
    split
    · rename_i hslow
      refine Or.inl (hs.resolve_right fun hshort => ?_)
      exact absurd (hshort.2.inSlowStart.symm.trans hslow) (by decide)
    · exact hs.imp_right fun hshort => ⟨hshort.1, hshort.2.of_le (Nat.le_max_left _ _) rfl rfl⟩

/-! ## The parts of an event -/

/-- Losses change nothing, or they put the count to 0. -/
theorem losses_count (s : VegasSender φ) (ps : List Nat) :
    ps.foldl onPacketLost s = s ∨ (ps.foldl onPacketLost s).numAckedPackets = 0 := by
  apply losses_keep (I := fun u => u = s ∨ u.numAckedPackets = 0) (Or.inl rfl)
  intro u _ p _ hcut
  rw [onPacketLost_of_cut hcut]
  exact Or.inr rfl

theorem takeSample_count (s : VegasSender φ) (ev : CongestionEvent) :
    (s.takeSample F ev).slowstartThreshold = s.slowstartThreshold ∧
      (s.takeSample F ev).numAckedPackets = s.numAckedPackets ∧
      (s.takeSample F ev).largestAckedPacketNumber = s.largestAckedPacketNumber ∧
      (s.takeSample F ev).vegasMode = s.vegasMode := by
  unfold takeSample
  split <;> exact ⟨rfl, rfl, rfl, rfl⟩

theorem takeSample_inRecovery (s : VegasSender φ) (ev : CongestionEvent) :
    (s.takeSample F ev).inRecovery = s.inRecovery := by
  unfold takeSample
  split <;> rfl

theorem switchMode_count (before : Bool) (s : VegasSender φ) :
    (s.switchMode before).slowstartThreshold = s.slowstartThreshold ∧
      (s.switchMode before).numAckedPackets = s.numAckedPackets ∧
      (s.switchMode before).largestAckedPacketNumber = s.largestAckedPacketNumber := by
  unfold switchMode
  split_ifs <;> exact ⟨rfl, rfl, rfl⟩

theorem onPacketAcked_largestAcked {p : Nat} (h : s.onPacketAcked F p = .ok t) :
    t.largestAckedPacketNumber = updateMax s.largestAckedPacketNumber p ∧
      t.vegasMode = s.vegasMode := by
  rcases onPacketAcked_numbers h with hsame | ⟨-, hsame⟩
  · exact ⟨hsame.largestAcked, hsame.vegasMode⟩
  · exact ⟨hsame.largestAcked, hsame.vegasMode⟩

/-- Every ack of the event leaves room for a segment in a `uint64`. -/
def AcksHaveRoom (F : MinFilter φ) (s : VegasSender φ) (ps : List Nat) : Prop :=
  Each (onPacketAcked F) (fun u _ => RoomToGrow u.congestionWindow) s ps

theorem acks_readyInRound {ps : List Nat} (hroom : s.AcksHaveRoom F ps)
    (hmode : s.vegasMode = true) (hs : s.ReadyInRound)
    (h : ps.foldlM (onPacketAcked F) s = .ok t) : t.vegasMode = true ∧ t.ReadyInRound := by
  refine hroom.run_keeps (I := fun u => u.vegasMode = true ∧ u.ReadyInRound) ?_ ⟨hmode, hs⟩ h
  intro u p v hu hc hv
  exact ⟨(onPacketAcked_largestAcked hv).2.trans hu.1, onPacketAcked_readyInRound hu.1 hu.2 hc hv⟩

theorem onPacketAcked_reno {p : Nat} (hmode : s.vegasMode = false)
    (h : s.onPacketAcked F p = .ok t) :
    t = (s.recordAck p).increaseCongestionWindowAsReno := by
  rcases onPacketAcked_ok h with ⟨-, ht⟩ | ⟨hends, -⟩ | ⟨hvegas, -⟩
  · exact ht
  · exact absurd (hends.1.symm.trans hmode) (by decide)
  · exact absurd (hvegas.symm.trans hmode) (by decide)

theorem acks_readyToCount {ps : List Nat} (hroom : s.AcksHaveRoom F ps)
    (hmode : s.vegasMode = false) (hs : s.ReadyToCount)
    (h : ps.foldlM (onPacketAcked F) s = .ok t) : t.ReadyToCount := by
  refine (hroom.run_keeps (I := fun u => u.vegasMode = false ∧ u.ReadyToCount) ?_
    ⟨hmode, hs⟩ h).2
  intro u p v hu hc hv
  refine ⟨(onPacketAcked_largestAcked hv).2.trans hu.1, ?_⟩
  rw [onPacketAcked_reno hu.1 hv]
  exact reno_readyToCount (s := u.recordAck p) (hu.2.of_same rfl rfl rfl) hc

/-- Acks do not take the sender back below an ack that it has seen. -/
theorem acks_largestAcked {ps : List Nat} {a : Nat} (hs : s.largestAckedPacketNumber = some a)
    (h : ps.foldlM (onPacketAcked F) s = .ok t) :
    ∃ b, t.largestAckedPacketNumber = some b ∧ a ≤ b := by
  refine run_keeps (I := fun u => ∃ b, u.largestAckedPacketNumber = some b ∧ a ≤ b) ?_
    ⟨a, hs, Nat.le_refl a⟩ h
  rintro u p v ⟨b, hb, hle⟩ hv
  refine ⟨max b p, ?_, by omega⟩
  rw [(onPacketAcked_largestAcked hv).1, hb]
  rfl

/-! ## Whole runs -/

theorem inRecovery_iff : s.inRecovery = true ↔ ∃ a c, s.largestAckedPacketNumber = some a ∧
    s.largestSentAtLastCutback = some c ∧ a ≤ c := by
  unfold inRecovery
  cases s.largestAckedPacketNumber <;> cases s.largestSentAtLastCutback <;> simp

/-- What holds of the count between two calls. -/
structure Counting (s : VegasSender φ) : Prop where
  modeAgrees : s.ModeAgrees
  unacked : s.largestAckedPacketNumber = none → s.numAckedPackets = 0
  ready : s.vegasMode = false → s.ReadyToCount

/-- An event that begins recovery has put the count to 0 before its acks, or nothing was
acked before. -/
theorem beforeAcks_count_of_begins {ev : CongestionEvent} (hs : s.Counting)
    (hmode : s.vegasMode = true) (h : s.onCongestionEvent F ev = .ok t)
    (hreno : t.vegasMode = false) : (s.beforeAcks F ev).numAckedPackets = 0 := by
  rcases losses_count (s.takeSample F ev) ev.lostPackets with hnone | hzero
  · have ⟨_, hcount, hacked, hsampleMode⟩ := takeSample_count (F := F) s ev
    have hbefore : s.beforeAcks F ev = s.takeSample F ev := hnone
    rw [hbefore, hcount]
    apply hs.unacked
    obtain ⟨u, hu, ht⟩ := onCongestionEvent_ok h
    rw [hbefore] at hu
    have hmarkers : (s.takeSample F ev).SameMarkers u :=
      run_keeps (I := (s.takeSample F ev).SameMarkers)
        (fun _ _ _ hi hp => hi.trans (onPacketAcked_markers hp)) (SameMarkers.refl _) hu
    have hcutback := hmarkers.cutback.trans (takeSample_markers s ev).cutback
    have hvegas : u.vegasMode = true :=
      run_keeps (I := fun u => u.vegasMode = true)
        (fun _ _ _ hi hp => (onPacketAcked_largestAcked hp).2.trans hi) (hsampleMode.trans hmode) hu
    have hagrees := hs.modeAgrees
    unfold ModeAgrees at hagrees
    have hout : s.inRecovery = false := by simpa [hmode] using hagrees.symm
    have hin : u.inRecovery = true := by
      by_contra hnot
      have hsame : u.inRecovery = (s.takeSample F ev).inRecovery := by
        rw [Bool.not_eq_true] at hnot
        rw [hnot, ← hout, takeSample_inRecovery]
      rw [ht, switchMode, if_pos hsame] at hreno
      exact absurd (hreno.symm.trans hvegas) (by decide)
    -- A packet that was acked before is above the marker, and stays above it.
    by_contra hne
    obtain ⟨a, ha⟩ := Option.ne_none_iff_exists'.1 hne
    obtain ⟨b, c, hb, hc, hle⟩ := inRecovery_iff.1 hin
    obtain ⟨b', hb', hab⟩ := acks_largestAcked (hacked.trans ha) hu
    obtain rfl : b' = b := Option.some.inj (hb'.symm.trans hb)
    have hback : s.inRecovery = true :=
      inRecovery_iff.2 ⟨a, c, ha, hcutback.symm.trans hc, Nat.le_trans hab hle⟩
    exact absurd (hout.symm.trans hback) (by decide)
  · exact hzero

theorem onCongestionEvent_counting {ev : CongestionEvent} (hs : s.Counting)
    (hroom : (s.beforeAcks F ev).AcksHaveRoom F ev.ackedPackets)
    (h : s.onCongestionEvent F ev = .ok t) : t.Counting := by
  have ⟨hthreshold, hcount, hacked, hsampleMode⟩ := takeSample_count (F := F) s ev
  have hwindow := (takeSample_windows (F := F) s ev).2.1
  obtain ⟨u, hu, ht⟩ := onCongestionEvent_ok h
  have ⟨hthreshold', hcount', hacked'⟩ := switchMode_count (s.takeSample F ev).inRecovery u
  have hwindow' := (switchMode_windows (s.takeSample F ev).inRecovery u).2
  have hbeforeMode : (s.beforeAcks F ev).vegasMode = s.vegasMode :=
    (beforeAcks_sameRound s ev).vegasMode.trans hsampleMode
  refine ⟨onCongestionEvent_modeAgrees hs.modeAgrees h, ?_, fun hreno => ?_⟩
  · rw [ht, hacked', hcount']
    have hbefore : (s.beforeAcks F ev).largestAckedPacketNumber = none →
        (s.beforeAcks F ev).numAckedPackets = 0 := by
      rcases losses_count (s.takeSample F ev) ev.lostPackets with hnone | hzero
      · have hnone : s.beforeAcks F ev = s.takeSample F ev := hnone
        rw [hnone, hacked, hcount]
        exact hs.unacked
      · exact fun _ => hzero
    refine run_keeps (I := fun u => u.largestAckedPacketNumber = none → u.numAckedPackets = 0)
      (fun v p w _ hw hnone => ?_) hbefore hu
    rw [(onPacketAcked_largestAcked hw).1] at hnone
    cases hv : v.largestAckedPacketNumber <;> simp [hv, updateMax] at hnone
  · have hready : u.ReadyToCount := by
      cases hmode : s.vegasMode with
      | true =>
        have hzero := beforeAcks_count_of_begins hs hmode h hreno
        exact (acks_readyInRound hroom (hbeforeMode.trans hmode) (Or.inl hzero) hu).2.ready
      | false =>
        refine acks_readyToCount hroom (hbeforeMode.trans hmode) ?_ hu
        rcases losses_count (s.takeSample F ev) ev.lostPackets with hnone | hzero
        · have hnone : s.beforeAcks F ev = s.takeSample F ev := hnone
          rw [hnone]
          exact (hs.ready hmode).of_same hwindow hthreshold hcount
        · exact Or.inl hzero
    rw [ht]
    exact hready.of_same hwindow' hthreshold' hcount'

end VegasSender

open VegasSender

variable {φ : Type} {F : MinFilter φ}

/-- Every ack of the call leaves room for a segment in a `uint64`. -/
def StepLeavesRoom (F : MinFilter φ) (s : VegasSender φ) (op : VegasOp) : Prop :=
  ∀ ev, op = .onCongestionEvent ev → (s.beforeAcks F ev).AcksHaveRoom F ev.ackedPackets

instance (F : MinFilter φ) (s : VegasSender φ) : ∀ op, Decidable (StepLeavesRoom F s op)
  | .onCongestionEvent ev =>
    haveI : Decidable ((s.beforeAcks F ev).AcksHaveRoom F ev.ackedPackets) :=
      inferInstanceAs (Decidable (Each _ _ _ _))
    decidable_of_iff ((s.beforeAcks F ev).AcksHaveRoom F ev.ackedPackets)
      (by simp [StepLeavesRoom])
  | .onPacketSent _ => isTrue (by simp [StepLeavesRoom])
  | .onRetransmissionTimeout => isTrue (by simp [StepLeavesRoom])
  | .setInitialCongestionWindowInPackets _ => isTrue (by simp [StepLeavesRoom])

theorem new_counting (F : MinFilter φ) (initial maximum : Nat) :
    (new F initial maximum).Counting :=
  ⟨rfl, fun _ => rfl, fun h => absurd h (by simp [new])⟩

theorem vegasStep_counting {s t : VegasSender φ} {op : VegasOp} (hs : s.Counting)
    (hroom : StepLeavesRoom F s op) (h : vegasStep F s op = .ok t) : t.Counting := by
  cases op with
  | onPacketSent p =>
    rw [← Except.ok.inj h]
    exact ⟨hs.modeAgrees, hs.unacked, fun hmode => (hs.ready hmode).of_same rfl rfl rfl⟩
  | onRetransmissionTimeout =>
    rw [← Except.ok.inj h]
    exact hs
  | setInitialCongestionWindowInPackets n =>
    rw [← Except.ok.inj h]
    unfold setInitialCongestionWindowInPackets
    split
    · rename_i hslow
      refine ⟨hs.modeAgrees, hs.unacked, fun hmode => Or.inl ?_⟩
      refine (hs.ready hmode).resolve_right fun hcounts => ?_
      exact absurd (hcounts.inSlowStart.symm.trans hslow) (by decide)
    · exact hs
  | onCongestionEvent ev => exact onCongestionEvent_counting hs (hroom ev rfl) h

/-! ## The counter -/

/-- The counter has the segments of the window and the acks on the count. -/
structure Follows (s : VegasSender φ) (c : Counter) : Prop where
  inSlowStart : s.inSlowStart = false
  segments : c.segments = s.segments
  acked : c.acked = s.numAckedPackets

theorem Follows.of_same {s t : VegasSender φ} {c : Counter} (h : Follows s c)
    (hw : t.congestionWindow = s.congestionWindow)
    (hthreshold : t.slowstartThreshold = s.slowstartThreshold)
    (hacked : t.numAckedPackets = s.numAckedPackets) : Follows t c where
  inSlowStart := by
    unfold VegasSender.inSlowStart
    rw [hw, hthreshold]
    exact h.inSlowStart
  segments := by
    unfold VegasSender.segments
    rw [hw]
    exact h.segments
  acked := h.acked.trans hacked.symm

/-- The window of `t` is the one of `s`, with the segments that `d` has more than `c`. -/
def GrowsWith (s t : VegasSender φ) (c d : Counter) : Prop :=
  t.congestionWindow + c.segments * kDefaultTCPMSS =
    s.congestionWindow + d.segments * kDefaultTCPMSS

theorem reno_follows {s : VegasSender φ} {c : Counter} (hs : Follows s c)
    (hroom : RoomToGrow s.congestionWindow) :
    Follows s.increaseCongestionWindowAsReno c.ack ∧
      GrowsWith s s.increaseCongestionWindowAsReno c c.ack := by
  obtain ⟨hout, hsegments, hacked⟩ := hs
  have hcounts : s.Counts := ⟨hout, hsegments ▸ hacked ▸ c.acked_lt⟩
  unfold GrowsWith Counter.ack
  rcases reno_counted hout (Or.inr hcounts) hroom with ⟨hlt, ht⟩ | ⟨hle, ht⟩
  · rw [ht, dif_pos (by omega)]
    exact ⟨⟨hout, hsegments, congrArg (· + 1) hacked⟩, rfl⟩
  · rw [ht, dif_neg (by omega)]
    refine ⟨⟨?_, ?_, rfl⟩, ?_⟩
    · rw [not_inSlowStart_iff] at hout ⊢
      exact Nat.le_trans hout (Nat.le_add_right _ _)
    · rw [segments_succ (s := s) rfl, ← hsegments]
    · show s.congestionWindow + kDefaultTCPMSS + c.segments * kDefaultTCPMSS =
        s.congestionWindow + (c.segments + 1) * kDefaultTCPMSS
      rw [Nat.succ_mul]
      omega

theorem acks_follow {s t : VegasSender φ} {c : Counter} {ps : List Nat} (hs : Follows s c)
    (hmode : s.vegasMode = false) (hroom : s.AcksHaveRoom F ps)
    (h : ps.foldlM (onPacketAcked F) s = .ok t) :
    Follows t (Counter.ack^[ps.length] c) ∧ GrowsWith s t c (Counter.ack^[ps.length] c) := by
  induction ps generalizing s c with
  | nil =>
    obtain rfl := run_nil_ok_iff.1 h
    exact ⟨hs, rfl⟩
  | cons p ps ih =>
    obtain ⟨u, hu, h⟩ := run_cons_ok_iff.1 h
    have hrecorded : Follows (s.recordAck p) c := ⟨hs.inSlowStart, hs.segments, hs.acked⟩
    have hmode' := (onPacketAcked_largestAcked hu).2.trans hmode
    obtain ⟨hfollows, hgrows⟩ := reno_follows hrecorded hroom.1
    rw [← onPacketAcked_reno hmode hu] at hfollows hgrows
    obtain ⟨hfollows', hgrows'⟩ := ih hfollows hmode' (hroom.2 u hu) h
    refine ⟨hfollows', ?_⟩
    unfold GrowsWith at hgrows hgrows' ⊢
    have hsame : (s.recordAck p).congestionWindow = s.congestionWindow := rfl
    rw [List.length_cons, Function.iterate_succ_apply]
    omega

/-! ## Recovery -/

/-- The call comes in recovery, and its losses do not cut the window. -/
def StaysInRecovery (s : VegasSender φ) (op : VegasOp) : Prop :=
  s.inRecovery = true ∧ ∀ ev, op = .onCongestionEvent ev → ¬ s.Cuts ev.lostPackets

instance (s : VegasSender φ) : ∀ op, Decidable (StaysInRecovery s op)
  | .onCongestionEvent ev =>
    haveI : Decidable (s.Cuts ev.lostPackets) := inferInstanceAs (Decidable (∃ p ∈ _, _))
    decidable_of_iff (s.inRecovery = true ∧ ¬ s.Cuts ev.lostPackets) (by simp [StaysInRecovery])
  | .onPacketSent _ => decidable_of_iff (s.inRecovery = true) (by simp [StaysInRecovery])
  | .onRetransmissionTimeout => decidable_of_iff (s.inRecovery = true) (by simp [StaysInRecovery])
  | .setInitialCongestionWindowInPackets _ =>
    decidable_of_iff (s.inRecovery = true) (by simp [StaysInRecovery])

/-- The packets that a run acks. -/
def ackCount : List VegasOp → Nat
  | [] => 0
  | .onCongestionEvent ev :: ops => ev.ackedPackets.length + ackCount ops
  | _ :: ops => ackCount ops

theorem onCongestionEvent_follows {s t : VegasSender φ} {c : Counter} {ev : CongestionEvent}
    (hs : s.Counting) (hfollows : Follows s c)
    (hrecovery : StaysInRecovery s (.onCongestionEvent ev))
    (hroom : StepLeavesRoom F s (.onCongestionEvent ev)) (h : s.onCongestionEvent F ev = .ok t) :
    Follows t (Counter.ack^[ev.ackedPackets.length] c) ∧
      GrowsWith s t c (Counter.ack^[ev.ackedPackets.length] c) := by
  have ⟨hthreshold, hcount, _, hsampleMode⟩ := takeSample_count (F := F) s ev
  have hwindow := (takeSample_windows (F := F) s ev).2.1
  have hroom := hroom ev rfl
  obtain ⟨u, hu, ht⟩ := onCongestionEvent_ok h
  have hbefore : s.beforeAcks F ev = s.takeSample F ev := by
    apply losses_of_not_cuts
    rw [takeSample_cuts]
    exact hrecovery.2 ev rfl
  rw [hbefore] at hu hroom
  have hmode : (s.takeSample F ev).vegasMode = false := by
    rw [hsampleMode, hs.modeAgrees, hrecovery.1]
    rfl
  obtain ⟨hu, hgrows⟩ := acks_follow (hfollows.of_same hwindow hthreshold hcount) hmode hroom hu
  have ⟨hthreshold', hcount', _⟩ := switchMode_count (s.takeSample F ev).inRecovery u
  have hwindow' := (switchMode_windows (s.takeSample F ev).inRecovery u).2
  unfold GrowsWith at hgrows ⊢
  rw [ht, hwindow', ← hwindow]
  exact ⟨hu.of_same hwindow' hthreshold' hcount', hgrows⟩

theorem vegasStep_follows {s t : VegasSender φ} {c : Counter} {op : VegasOp}
    (hs : s.Counting) (hfollows : Follows s c) (hrecovery : StaysInRecovery s op)
    (hroom : StepLeavesRoom F s op) (h : vegasStep F s op = .ok t) :
    Follows t (Counter.ack^[ackCount [op]] c) ∧
      GrowsWith s t c (Counter.ack^[ackCount [op]] c) := by
  cases op with
  | onPacketSent p =>
    rw [← Except.ok.inj h]
    exact ⟨hfollows.of_same rfl rfl rfl, rfl⟩
  | onRetransmissionTimeout =>
    rw [← Except.ok.inj h]
    exact ⟨hfollows, rfl⟩
  | setInitialCongestionWindowInPackets n =>
    rw [← Except.ok.inj h, setInitialCongestionWindowInPackets, hfollows.inSlowStart,
      if_neg (by decide)]
    exact ⟨hfollows, rfl⟩
  | onCongestionEvent ev => exact onCongestionEvent_follows hs hfollows hrecovery hroom h

theorem run_follows {s t : VegasSender φ} {c : Counter} {ops : List VegasOp}
    (hs : s.Counting) (hfollows : Follows s c)
    (hrecovery : Each (vegasStep F) StaysInRecovery s ops)
    (hroom : Each (vegasStep F) (StepLeavesRoom F) s ops)
    (h : ops.foldlM (vegasStep F) s = .ok t) :
    Follows t (Counter.ack^[ackCount ops] c) ∧ GrowsWith s t c (Counter.ack^[ackCount ops] c) := by
  induction ops generalizing s c with
  | nil =>
    obtain rfl := run_nil_ok_iff.1 h
    exact ⟨hfollows, rfl⟩
  | cons op ops ih =>
    obtain ⟨u, hu, h⟩ := run_cons_ok_iff.1 h
    obtain ⟨hfollows, hgrows⟩ := vegasStep_follows hs hfollows hrecovery.1 hroom.1 hu
    obtain ⟨hfollows', hgrows'⟩ :=
      ih (vegasStep_counting hs hroom.1 hu) hfollows (hrecovery.2 u hu) (hroom.2 u hu) h
    have hcount : ackCount (op :: ops) = ackCount ops + ackCount [op] := by
      cases op <;> simp [ackCount, Nat.add_comm]
    rw [hcount, Function.iterate_add_apply]
    refine ⟨hfollows', ?_⟩
    unfold GrowsWith at hgrows hgrows' ⊢
    omega

theorem StepLeavesRoom.hasRoom {s : VegasSender φ} {op : VegasOp} (h : StepLeavesRoom F s op) :
    StepHasRoom F s op := by
  intro ev hop
  apply (h ev hop).imp
  intro u p hroom _
  exact hroom

theorem run_aboveMinimum {initial maximum : Nat} {ops : List VegasOp} {s : VegasSender φ}
    (hinitial : kDefaultMinimumCongestionWindow ≤ u64 (initial * kDefaultTCPMSS))
    (hset : ∀ op ∈ ops, SetsAtLeastMinimum op)
    (hroom : Each (vegasStep F) (StepLeavesRoom F) (new F initial maximum) ops)
    (hrun : ops.foldlM (vegasStep F) (new F initial maximum) = .ok s) : AboveMinimum s := by
  have hsteps := (each_and _ _).1 ⟨each_of_forall_mem hset, hroom⟩
  refine hsteps.run_keeps (I := AboveMinimum) ?_ ⟨rfl, hinitial⟩ hrun
  intro s op t hs hop h
  exact vegasStep_aboveMinimum hs hop.1 hop.2.hasRoom h

theorem segments_pos {s : VegasSender φ} (h : AboveMinimum s) : 0 < s.segments := by
  obtain ⟨hmin, hwindow⟩ := h
  unfold kDefaultMinimumCongestionWindow kDefaultTCPMSS at hmin
  unfold segments kDefaultTCPMSS
  omega

/-- In recovery, outside of slow start, the window grows by one segment for each window
of acks: the acks of the stretch are the cost of its growths and a rest below the
window. -/
theorem recovery_growth (F : MinFilter φ) (initial maximum : Nat) (pre ops : List VegasOp)
    {s t : VegasSender φ}
    (hinitial : kDefaultMinimumCongestionWindow ≤ u64 (initial * kDefaultTCPMSS))
    (hset : ∀ op ∈ pre, SetsAtLeastMinimum op)
    (hroom : Each (vegasStep F) (StepLeavesRoom F) (new F initial maximum) (pre ++ ops))
    (hpre : pre.foldlM (vegasStep F) (new F initial maximum) = .ok s)
    (hstart : s.inRecovery = true) (hout : s.inSlowStart = false)
    (hrecovery : Each (vegasStep F) StaysInRecovery s ops)
    (hrun : ops.foldlM (vegasStep F) s = .ok t) :
    ∃ growths, t.congestionWindow = s.congestionWindow + growths * kDefaultTCPMSS ∧
      t.numAckedPackets < t.segments ∧
      cost s.segments growths + t.numAckedPackets = s.numAckedPackets + ackCount ops := by
  obtain ⟨hroom, hroom'⟩ := (each_append hpre ops).1 hroom
  have hs : s.Counting := by
    refine hroom.run_keeps (I := Counting) (fun s op t => vegasStep_counting) ?_ hpre
    exact new_counting F initial maximum
  have hcounts : s.Counts := by
    have hmode : s.vegasMode = false := by
      rw [hs.modeAgrees, hstart]
      rfl
    rcases hs.ready hmode with hzero | hcounts
    · exact ⟨hout, hzero ▸ segments_pos (run_aboveMinimum hinitial hset hroom hpre)⟩
    · exact hcounts
  have hfollows : Follows s ⟨s.segments, s.numAckedPackets, hcounts.acked⟩ := ⟨hout, rfl, rfl⟩
  obtain ⟨hfollows, hgrows⟩ := run_follows hs hfollows hrecovery hroom' hrun
  obtain ⟨growths, hsegments, hacked⟩ := ack_iterate ⟨s.segments, s.numAckedPackets, hcounts.acked⟩
    (ackCount ops)
  refine ⟨growths, ?_, ?_, ?_⟩
  · unfold GrowsWith at hgrows
    rw [hsegments, Nat.add_mul] at hgrows
    omega
  · rw [← hfollows.acked, ← hfollows.segments]
    exact Counter.acked_lt _
  · rw [← hfollows.acked]
    exact hacked

/-- Five packets, of which the first is lost and the second acked. -/
def firstLost : List VegasOp :=
  [.onPacketSent 1, .onPacketSent 2, .onPacketSent 3, .onPacketSent 4, .onPacketSent 5,
    .onCongestionEvent ⟨10000, 10000, [2], [1]⟩]

/-- The other three are acked. -/
def othersAcked : List VegasOp := [.onCongestionEvent ⟨10000, 11000, [3, 4, 5], []⟩]

/-- The sender after these calls, which do not stop it. -/
def senderAfter (ops : List VegasOp) : VegasSender SlidingMin :=
  (ops.foldlM (vegasStep slidingMin) (new slidingMin 4 2000)).toOption.getD (new slidingMin 4 2000)

theorem recovery_growth_othersAcked :
    ∃ growths, (senderAfter (firstLost ++ othersAcked)).congestionWindow =
        (senderAfter firstLost).congestionWindow + growths * kDefaultTCPMSS ∧
      (senderAfter (firstLost ++ othersAcked)).numAckedPackets <
        (senderAfter (firstLost ++ othersAcked)).segments ∧
      cost (senderAfter firstLost).segments growths +
          (senderAfter (firstLost ++ othersAcked)).numAckedPackets =
        (senderAfter firstLost).numAckedPackets + ackCount othersAcked := by
  apply recovery_growth slidingMin 4 2000 firstLost
  · decide +kernel
  · simp [firstLost, SetsAtLeastMinimum]
  · decide +kernel
  · decide +kernel
  · decide +kernel
  · decide +kernel
  · decide +kernel
  · decide +kernel

end QuicOnNs3.CcAlgo.Vegas
