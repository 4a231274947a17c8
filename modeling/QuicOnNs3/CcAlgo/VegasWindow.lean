import QuicOnNs3.CcAlgo.VegasSlowStart

/-!
# The bounds of the Vegas window

An ack adds one segment to the window (`VegasSender.AddsSegment`) or leaves it at
most as large, and in the Vegas mode it raises the result to the minimum.
`onPacketAcked_window` says this for all paths of `OnPacketAcked` at once.

* No path compares the window with `max_congestion_window_`, so it stays below the
  maximum exactly as long as every added segment fits
  (`window_below_maximum_iff`).
* The minimum holds in every run, and an event adds at most one segment for each
  acked packet (`window_above_minimum`).
-/

namespace QuicOnNs3.CcAlgo.Vegas

open QuicOnNs3.WindowedFilter QuicOnNs3.Execution

namespace VegasSender

variable {φ : Type} {F : MinFilter φ} {s t u : VegasSender φ}

/-! ## The window after an ack -/

/-- `t` has the two limits of `s`. -/
structure SameLimits (s t : VegasSender φ) : Prop where
  maxCongestionWindow : t.maxCongestionWindow = s.maxCongestionWindow
  minCongestionWindow : t.minCongestionWindow = s.minCongestionWindow

theorem SameLimits.refl (s : VegasSender φ) : s.SameLimits s := ⟨rfl, rfl⟩

theorem SameLimits.trans (h : s.SameLimits t) (h' : t.SameLimits u) : s.SameLimits u :=
  ⟨h'.1.trans h.1, h'.2.trans h.2⟩

/-- Reno adds a segment for this ack. -/
def RenoAdds (s : VegasSender φ) : Prop := s.inSlowStart = true ∨ s.RenoGrows

/-- Vegas adds a segment at the end of a round of more than two samples. -/
def RoundAdds (s : VegasSender φ) (baseRtt : Int) : Prop :=
  if s.inSlowStart then s.diff baseRtt ≤ kGammaCongestionWindow
  else s.diff baseRtt < kAlphaCongestionWindow

/-- The ack of `p` adds a segment to the window: as Reno, at the end of a round, or
in slow start. -/
def AddsSegment (F : MinFilter φ) (s : VegasSender φ) (p : Nat) : Prop :=
  (s.vegasMode = false ∧ s.RenoAdds) ∨
    (s.EndsRound p ∧ s.rttCount ≤ 2 ∧ s.RenoAdds) ∨
    (s.EndsRound p ∧ 2 < s.rttCount ∧ s.RoundAdds (F.getBest s.baseRTTFilter)) ∨
    (s.vegasMode = true ∧ ¬ s.EndsRound p ∧ s.inSlowStart = true)

theorem reno_window (s : VegasSender φ) :
    s.SameLimits s.increaseCongestionWindowAsReno ∧
      (s.RenoAdds → s.increaseCongestionWindowAsReno.congestionWindow =
        u64 (s.congestionWindow + kDefaultTCPMSS)) ∧
      (¬ s.RenoAdds → s.increaseCongestionWindowAsReno.congestionWindow =
        s.congestionWindow) := by
  unfold increaseCongestionWindowAsReno RenoAdds
  by_cases hslow : s.inSlowStart = true
  · rw [if_pos hslow]
    exact ⟨⟨rfl, rfl⟩, fun _ => rfl, fun h => absurd (Or.inl hslow) h⟩
  · rw [if_neg hslow]
    simp only
    split
    · rename_i hgrows
      exact ⟨⟨rfl, rfl⟩, fun _ => rfl, fun h => absurd (Or.inr hgrows) h⟩
    · rename_i hgrows
      exact ⟨⟨rfl, rfl⟩, fun h => absurd h (not_or.2 ⟨hslow, hgrows⟩), fun _ => rfl⟩

theorem endOfRound_window {baseRtt : Int} (h : s.endOfRound baseRtt = .ok t) :
    s.SameLimits t ∧
      (s.RoundAdds baseRtt → t.congestionWindow = u64 (s.congestionWindow + kDefaultTCPMSS)) ∧
      (¬ s.RoundAdds baseRtt → t.congestionWindow ≤ s.congestionWindow) := by
  have hab : kAlphaCongestionWindow < kBetaCongestionWindow := by decide
  unfold endOfRound at h
  unfold RoundAdds
  split_ifs at h with h1 h2 h3 hexit hslow hbeta hmin halpha
  · rw [← Except.ok.inj h, if_pos hexit.2]
    refine ⟨⟨rfl, rfl⟩, fun hadds => ?_, fun _ => Nat.min_le_left _ _⟩
    have hgamma := hexit.1
    omega
  · rw [← Except.ok.inj h, if_pos hslow]
    refine ⟨⟨rfl, rfl⟩, fun _ => rfl, fun hadds => ?_⟩
    exact absurd ⟨Nat.not_le.1 hadds, hslow⟩ hexit
  · rw [← Except.ok.inj h, if_neg hslow]
    refine ⟨⟨rfl, rfl⟩, fun hadds => ?_, fun _ => Nat.sub_le _ _⟩
    omega
  · rw [← Except.ok.inj h, if_neg hslow]
    refine ⟨⟨rfl, rfl⟩, fun hadds => ?_, fun _ => Nat.le_refl _⟩
    omega
  · rw [← Except.ok.inj h, if_neg hslow]
    exact ⟨⟨rfl, rfl⟩, fun _ => rfl, fun hadds => absurd halpha hadds⟩
  · rw [← Except.ok.inj h, if_neg hslow]
    exact ⟨⟨rfl, rfl⟩, fun hadds => absurd hadds halpha, fun _ => Nat.le_refl _⟩

section AddsSegment

variable {p : Nat}

theorem addsSegment_iff_reno (hmode : s.vegasMode = false) :
    s.AddsSegment F p ↔ s.RenoAdds := by
  simp [AddsSegment, EndsRound, hmode]

theorem addsSegment_iff_short (hends : s.EndsRound p) (hcount : s.rttCount ≤ 2) :
    s.AddsSegment F p ↔ s.RenoAdds := by
  simp [AddsSegment, hends, hends.1, hcount, Nat.not_lt.2 hcount]

theorem addsSegment_iff_long (hends : s.EndsRound p) (hcount : 2 < s.rttCount) :
    s.AddsSegment F p ↔ s.RoundAdds (F.getBest s.baseRTTFilter) := by
  simp [AddsSegment, hends, hends.1, hcount, Nat.not_le.2 hcount]

theorem addsSegment_iff_within (hmode : s.vegasMode = true) (hends : ¬ s.EndsRound p) :
    s.AddsSegment F p ↔ s.inSlowStart = true := by
  simp [AddsSegment, hends, hmode]

end AddsSegment

/-- Every ack of the Vegas mode ends with the clamp to the minimum. -/
def clamped (s : VegasSender φ) (w : Nat) : Nat :=
  if s.vegasMode then max w s.minCongestionWindow else w

/-- What an ack does to the window: it adds a segment, or makes it no larger, and
outside of the Vegas mode it never makes it smaller. -/
theorem onPacketAcked_window {p : Nat} (h : s.onPacketAcked F p = .ok t) :
    s.SameLimits t ∧ ∃ w, t.congestionWindow = s.clamped w ∧
      (s.AddsSegment F p → w = u64 (s.congestionWindow + kDefaultTCPMSS)) ∧
      (¬ s.AddsSegment F p → w ≤ s.congestionWindow ∧
        (s.vegasMode = false → w = s.congestionWindow)) := by
  unfold clamped
  rcases onPacketAcked_ok h with ⟨hmode, ht⟩ | ⟨hends, u, hu, ht⟩ | ⟨hmode, hends, ht⟩
  · obtain ⟨hlimits, hadds, hholds⟩ := reno_window (s.recordAck p)
    rw [addsSegment_iff_reno hmode, ht, hmode]
    exact ⟨⟨hlimits.1, hlimits.2⟩, _, rfl, hadds,
      fun h => ⟨Nat.le_of_eq (hholds h), fun _ => hholds h⟩⟩
  · have hmode := hends.1
    -- The state in which the window is adjusted differs from `s` in the packet numbers.
    have hmoved : s.SameLimits u ∧
        (s.AddsSegment F p → u.congestionWindow = u64 (s.congestionWindow + kDefaultTCPMSS)) ∧
        (¬ s.AddsSegment F p → u.congestionWindow ≤ s.congestionWindow) := by
      unfold adjustWindow at hu
      split at hu
      · rename_i hcount
        obtain ⟨hlimits, hadds, hholds⟩ := reno_window (s.recordAck p).nextRound
        rw [addsSegment_iff_short hends hcount, ← Except.ok.inj hu]
        exact ⟨⟨hlimits.1, hlimits.2⟩, hadds, fun h => Nat.le_of_eq (hholds h)⟩
      · rename_i hcount
        obtain ⟨hlimits, hadds, hholds⟩ := endOfRound_window hu
        rw [addsSegment_iff_long hends (Nat.not_le.1 hcount)]
        exact ⟨⟨hlimits.1, hlimits.2⟩, hadds, hholds⟩
    have ⟨hlimits, hadds, hholds⟩ := hmoved
    rw [ht, hmode]
    refine ⟨⟨hlimits.1, hlimits.2⟩, u.congestionWindow, ?_, hadds, fun h => ⟨hholds h, by simp⟩⟩
    show max u.congestionWindow u.minCongestionWindow = max u.congestionWindow _
    rw [hlimits.minCongestionWindow]
  · rw [addsSegment_iff_within hmode hends, ht, hmode]
    by_cases hslow : s.inSlowStart = true
    · rw [if_pos hslow]
      exact ⟨⟨rfl, rfl⟩, _, rfl, fun _ => rfl, fun h => absurd hslow h⟩
    · rw [if_neg hslow]
      exact ⟨⟨rfl, rfl⟩, s.congestionWindow, rfl, fun h => absurd h hslow,
        fun _ => ⟨Nat.le_refl _, fun _ => rfl⟩⟩

/-! ## The window after the losses -/

theorem onPacketLost_limits (s : VegasSender φ) (p : Nat) : s.SameLimits (s.onPacketLost p) := by
  unfold onPacketLost
  split <;> exact ⟨rfl, rfl⟩

theorem onPacketLost_window {p : Nat} (h : s.beforeCutback p = false) :
    (s.onPacketLost p).congestionWindow = max (s.congestionWindow / 2) s.minCongestionWindow := by
  rw [onPacketLost_of_cut h]

theorem losses_limits (s : VegasSender φ) (ps : List Nat) :
    s.SameLimits (ps.foldl onPacketLost s) := by
  apply losses_keep (I := s.SameLimits) (SameLimits.refl s)
  intro u hu p _ _
  exact hu.trans (onPacketLost_limits u p)

/-- Losses never take a window below the minimum, and never raise one that is not
below it. -/
theorem losses_window (hmin : s.minCongestionWindow ≤ s.congestionWindow) (ps : List Nat) :
    s.minCongestionWindow ≤ (ps.foldl onPacketLost s).congestionWindow ∧
      (ps.foldl onPacketLost s).congestionWindow ≤ s.congestionWindow := by
  suffices hkeep : s.SameLimits (ps.foldl onPacketLost s) ∧
      s.minCongestionWindow ≤ (ps.foldl onPacketLost s).congestionWindow ∧
      (ps.foldl onPacketLost s).congestionWindow ≤ s.congestionWindow from hkeep.2
  apply losses_keep (I := fun u => s.SameLimits u ∧ s.minCongestionWindow ≤ u.congestionWindow ∧
    u.congestionWindow ≤ s.congestionWindow) ⟨SameLimits.refl s, hmin, Nat.le_refl _⟩
  intro u hu p _ hcut
  have ⟨hlimits, hlow, hhigh⟩ := hu
  have hw := onPacketLost_window hcut
  have hsame := hlimits.minCongestionWindow
  exact ⟨hlimits.trans (onPacketLost_limits u p), by omega, by omega⟩

/-- Some loss of the list cuts the window. -/
def Cuts (s : VegasSender φ) (ps : List Nat) : Prop := ∃ p ∈ ps, s.beforeCutback p = false

theorem losses_of_not_cuts {ps : List Nat} (h : ¬ s.Cuts ps) : ps.foldl onPacketLost s = s := by
  apply losses_of_beforeCutback
  intro p hp
  by_contra hcut
  exact h ⟨p, hp, by simpa using hcut⟩

/-- After a cut the window is at least the minimum. -/
theorem losses_of_cuts {ps : List Nat} (h : s.Cuts ps) :
    s.minCongestionWindow ≤ (ps.foldl onPacketLost s).congestionWindow := by
  induction ps with
  | nil => exact absurd h (by simp [Cuts])
  | cons p ps ih =>
    show _ ≤ (ps.foldl onPacketLost (s.onPacketLost p)).congestionWindow
    cases hp : s.beforeCutback p with
    | true =>
      rw [onPacketLost_of_beforeCutback hp]
      have ⟨q, hq, hcut⟩ := h
      rcases List.mem_cons.1 hq with hpq | hq
      · rw [hpq, hp] at hcut
        exact absurd hcut (by simp)
      · exact ih ⟨q, hq, hcut⟩
    | false =>
      have hw := onPacketLost_window hp
      have hlimits := (onPacketLost_limits s p).minCongestionWindow
      have hrest := losses_window (s := s.onPacketLost p) (by omega) ps
      omega

/-- Losses keep the window below a bound that is not below the minimum. -/
theorem losses_below {bound : Nat} (hw : s.congestionWindow ≤ bound)
    (hmin : s.minCongestionWindow ≤ bound) (ps : List Nat) :
    (ps.foldl onPacketLost s).congestionWindow ≤ bound := by
  suffices hkeep : s.SameLimits (ps.foldl onPacketLost s) ∧
      (ps.foldl onPacketLost s).congestionWindow ≤ bound from hkeep.2
  apply losses_keep (I := fun u => s.SameLimits u ∧ u.congestionWindow ≤ bound)
    ⟨SameLimits.refl s, hw⟩
  intro u hu p _ hcut
  have ⟨hlimits, hle⟩ := hu
  have hw := onPacketLost_window hcut
  have hsame := hlimits.minCongestionWindow
  exact ⟨hlimits.trans (onPacketLost_limits u p), by omega⟩

theorem takeSample_windows (s : VegasSender φ) (ev : CongestionEvent) :
    s.SameLimits (s.takeSample F ev) ∧
      (s.takeSample F ev).congestionWindow = s.congestionWindow ∧
      (s.takeSample F ev).largestSentAtLastCutback = s.largestSentAtLastCutback := by
  unfold takeSample
  split <;> exact ⟨⟨rfl, rfl⟩, rfl, rfl⟩

theorem beforeAcks_limits (s : VegasSender φ) (ev : CongestionEvent) :
    s.SameLimits (s.beforeAcks F ev) :=
  (takeSample_windows s ev).1.trans (losses_limits _ _)

theorem takeSample_cuts (s : VegasSender φ) (ev : CongestionEvent) (ps : List Nat) :
    (s.takeSample F ev).Cuts ps ↔ s.Cuts ps := by
  unfold Cuts beforeCutback
  rw [(takeSample_windows s ev).2.2]

theorem switchMode_windows (before : Bool) (s : VegasSender φ) :
    s.SameLimits (s.switchMode before) ∧
      (s.switchMode before).congestionWindow = s.congestionWindow := by
  unfold switchMode
  split_ifs <;> exact ⟨⟨rfl, rfl⟩, rfl⟩

/-! ## The maximum -/

/-- After the losses of the event and after each of its acks, the window is at most
the maximum. -/
def EventBelowMaximum (F : MinFilter φ) (s : VegasSender φ) (ev : CongestionEvent) : Prop :=
  Along (onPacketAcked F) (fun u => u.congestionWindow ≤ u.maxCongestionWindow)
    (s.beforeAcks F ev) ev.ackedPackets

/-- What an ack that goes through must meet: a segment that it adds fits below the
maximum, and so does the minimum window of the Vegas mode. -/
def AckBelowMaximum (F : MinFilter φ) (s : VegasSender φ) (p : Nat) : Prop :=
  (∃ t, s.onPacketAcked F p = .ok t) →
    (s.AddsSegment F p → u64 (s.congestionWindow + kDefaultTCPMSS) ≤ s.maxCongestionWindow) ∧
    (s.vegasMode = true → s.minCongestionWindow ≤ s.maxCongestionWindow)

/-- What an event must meet to keep the window below the maximum. -/
def EventFits (F : MinFilter φ) (s : VegasSender φ) (ev : CongestionEvent) : Prop :=
  (s.Cuts ev.lostPackets → s.minCongestionWindow ≤ s.maxCongestionWindow) ∧
    Each (onPacketAcked F) (AckBelowMaximum F) (s.beforeAcks F ev) ev.ackedPackets

theorem onPacketAcked_below_iff {p : Nat} (hw : s.congestionWindow ≤ s.maxCongestionWindow) :
    (∀ t, s.onPacketAcked F p = .ok t → t.congestionWindow ≤ t.maxCongestionWindow) ↔
      s.AckBelowMaximum F p := by
  cases hp : s.onPacketAcked F p with
  | error f => simp [AckBelowMaximum, hp]
  | ok t =>
    obtain ⟨hlimits, w, ht, hadds, hholds⟩ := onPacketAcked_window hp
    have hiff : t.congestionWindow ≤ t.maxCongestionWindow ↔
        w ≤ s.maxCongestionWindow ∧
          (s.vegasMode = true → s.minCongestionWindow ≤ s.maxCongestionWindow) := by
      rw [hlimits.maxCongestionWindow, ht, clamped]
      cases s.vegasMode with
      | true => simp
      | false => simp
    have hw' : w ≤ s.maxCongestionWindow ↔
        (s.AddsSegment F p →
          u64 (s.congestionWindow + kDefaultTCPMSS) ≤ s.maxCongestionWindow) := by
      by_cases hadd : s.AddsSegment F p
      · rw [hadds hadd]
        exact ⟨fun h _ => h, fun h => h hadd⟩
      · have hle := (hholds hadd).1
        exact iff_of_true (by omega) fun h => absurd h hadd
    unfold AckBelowMaximum
    simp only [hp, Except.ok.injEq, exists_eq', true_implies, forall_eq', hiff, hw']

theorem eventBelowMaximum_iff {ev : CongestionEvent}
    (hw : s.congestionWindow ≤ s.maxCongestionWindow) :
    s.EventBelowMaximum F ev ↔ s.EventFits F ev := by
  have hlimits := beforeAcks_limits (F := F) s ev
  have ⟨hsample, hsamplew, _⟩ := takeSample_windows (F := F) s ev
  have hlost : (s.beforeAcks F ev).congestionWindow ≤ (s.beforeAcks F ev).maxCongestionWindow ↔
      (s.Cuts ev.lostPackets → s.minCongestionWindow ≤ s.maxCongestionWindow) := by
    rw [hlimits.maxCongestionWindow]
    by_cases hcuts : s.Cuts ev.lostPackets
    · have hge := losses_of_cuts ((takeSample_cuts (F := F) s ev ev.lostPackets).2 hcuts)
      rw [hsample.minCongestionWindow] at hge
      constructor
      · intro h _
        exact Nat.le_trans hge h
      · intro h
        apply losses_below
        · rw [hsamplew]
          exact hw
        · rw [hsample.minCongestionWindow]
          exact h hcuts
    · have hnot := mt (takeSample_cuts (F := F) s ev ev.lostPackets).1 hcuts
      refine iff_of_true ?_ fun h => absurd h hcuts
      unfold beforeAcks
      rw [losses_of_not_cuts hnot, hsamplew]
      exact hw
  unfold EventBelowMaximum EventFits
  rw [along_iff, ← hlost]
  refine and_congr_right fun hstart => ?_
  apply each_iff (I := fun u => u.congestionWindow ≤ u.maxCongestionWindow) ?_ ?_ hstart
  · intro u p hu
    exact onPacketAcked_below_iff hu
  · intro u p t hu hfits ht
    exact (onPacketAcked_below_iff hu).2 hfits t ht

end VegasSender

open VegasSender

variable {φ : Type} {F : MinFilter φ}

/-- The call keeps the window below the maximum at every point, and leaves it there. -/
def StaysBelowMaximum (F : MinFilter φ) (s : VegasSender φ) (op : VegasOp) : Prop :=
  (∀ ev, op = .onCongestionEvent ev → s.EventBelowMaximum F ev) ∧
    ∀ t, vegasStep F s op = .ok t → t.congestionWindow ≤ t.maxCongestionWindow

/-- The losses and the acks of the call fit below the maximum. -/
def GrowthFits (F : MinFilter φ) (s : VegasSender φ) (op : VegasOp) : Prop :=
  ∀ ev, op = .onCongestionEvent ev → s.EventFits F ev

/-- The call sets no initial window above the maximum. -/
def SetsWithin (maximum : Nat) : VegasOp → Prop
  | .setInitialCongestionWindowInPackets n => u64 (n * kDefaultTCPMSS) ≤ maximum
  | _ => True

/-- The maximum is the one of the constructor, and the window is not above it. -/
structure Bounded (maximum : Nat) (s : VegasSender φ) : Prop where
  maxCongestionWindow : s.maxCongestionWindow = maximum
  window : s.congestionWindow ≤ maximum

theorem onCongestionEvent_limits {s t : VegasSender φ} {ev : CongestionEvent}
    (h : s.onCongestionEvent F ev = .ok t) : s.SameLimits t := by
  have ⟨u, hu, ht⟩ := onCongestionEvent_ok h
  have hacks : (s.beforeAcks F ev).SameLimits u :=
    run_keeps (I := (s.beforeAcks F ev).SameLimits)
      (fun _ _ _ hi hp => hi.trans (onPacketAcked_window hp).1) (SameLimits.refl _) hu
  rw [ht]
  exact ((beforeAcks_limits s ev).trans hacks).trans (switchMode_windows _ u).1

theorem vegasStep_limits {s t : VegasSender φ} {op : VegasOp} (h : vegasStep F s op = .ok t) :
    s.SameLimits t := by
  cases op with
  | onPacketSent p => exact Except.ok.inj h ▸ ⟨rfl, rfl⟩
  | onRetransmissionTimeout => exact Except.ok.inj h ▸ ⟨rfl, rfl⟩
  | setInitialCongestionWindowInPackets n =>
    rw [← Except.ok.inj h, setInitialCongestionWindowInPackets]
    split <;> exact ⟨rfl, rfl⟩
  | onCongestionEvent ev => exact onCongestionEvent_limits h

theorem vegasStep_below_iff {s : VegasSender φ} {op : VegasOp} {maximum : Nat}
    (hs : Bounded maximum s) (hset : SetsWithin maximum op) :
    StaysBelowMaximum F s op ↔ GrowthFits F s op := by
  have hw : s.congestionWindow ≤ s.maxCongestionWindow := hs.maxCongestionWindow ▸ hs.window
  unfold StaysBelowMaximum GrowthFits
  cases op with
  | onPacketSent p =>
    refine iff_of_true ⟨by simp, fun t h => ?_⟩ (by simp)
    rw [← Except.ok.inj h]
    exact hw
  | onRetransmissionTimeout =>
    refine iff_of_true ⟨by simp, fun t h => ?_⟩ (by simp)
    rw [← Except.ok.inj h]
    exact hw
  | setInitialCongestionWindowInPackets n =>
    refine iff_of_true ⟨by simp, fun t h => ?_⟩ (by simp)
    rw [← Except.ok.inj h, setInitialCongestionWindowInPackets]
    split
    · show u64 (n * kDefaultTCPMSS) ≤ s.maxCongestionWindow
      rw [hs.maxCongestionWindow]
      exact hset
    · exact hw
  | onCongestionEvent ev =>
    simp only [VegasOp.onCongestionEvent.injEq, forall_eq', eventBelowMaximum_iff hw]
    refine and_iff_left_of_imp fun hfits t h => ?_
    have halong := (eventBelowMaximum_iff hw).2 hfits
    obtain ⟨u, hu, ht⟩ := onCongestionEvent_ok h
    have hlast := halong.last hu
    obtain ⟨hlimits, hwindow⟩ := switchMode_windows (s.takeSample F ev).inRecovery u
    rw [ht, hwindow, hlimits.maxCongestionWindow]
    exact hlast

/-- The window is at most the maximum in every state of the run, and at every point
of its events. -/
def KeepsMaximum (F : MinFilter φ) (s : VegasSender φ) (ops : List VegasOp) : Prop :=
  Along (vegasStep F) (fun s => s.congestionWindow ≤ s.maxCongestionWindow) s ops ∧
    Each (vegasStep F) (fun s op => ∀ ev, op = .onCongestionEvent ev → s.EventBelowMaximum F ev)
      s ops

/-- A run whose initial windows are at most the maximum stays below it exactly when
each cut and each ack of the Vegas mode leaves room for the minimum window, and each
ack that adds a segment leaves room for that segment. -/
theorem window_below_maximum_iff (F : MinFilter φ) (initial maximum : Nat) (ops : List VegasOp)
    (hinitial : u64 (initial * kDefaultTCPMSS) ≤ u64 (maximum * kDefaultTCPMSS))
    (hset : ∀ op ∈ ops, SetsWithin (u64 (maximum * kDefaultTCPMSS)) op) :
    KeepsMaximum F (new F initial maximum) ops ↔
      Each (vegasStep F) (GrowthFits F) (new F initial maximum) ops := by
  have hnew : Bounded (u64 (maximum * kDefaultTCPMSS)) (new F initial maximum) := ⟨rfl, hinitial⟩
  have hwindow : (new F initial maximum).congestionWindow ≤
      (new F initial maximum).maxCongestionWindow := hinitial
  unfold KeepsMaximum
  rw [along_iff, and_assoc, and_iff_right hwindow, each_and]
  apply each_iff_given (I := Bounded (u64 (maximum * kDefaultTCPMSS))) ?_ ?_ hnew
    (each_of_forall_mem hset)
  · intro s op hs hop
    rw [and_comm]
    exact vegasStep_below_iff hs hop
  · intro s op t hs hop hfits h
    have hmax := (vegasStep_limits h).maxCongestionWindow.trans hs.maxCongestionWindow
    have hbelow := ((vegasStep_below_iff hs hop).2 hfits).2 t h
    exact ⟨hmax, hmax ▸ hbelow⟩

/-- Four packets over an empty queue, with one RTT for all of them. -/
def emptyQueue : List VegasOp :=
  [.onPacketSent 1, .onPacketSent 2, .onPacketSent 3, .onPacketSent 4,
    .onCongestionEvent ⟨10000, 10000, [1], []⟩,
    .onCongestionEvent ⟨10000, 11000, [2], []⟩,
    .onCongestionEvent ⟨10000, 12000, [3], []⟩,
    .onCongestionEvent ⟨10000, 13000, [4], []⟩]

theorem window_below_maximum_iff_emptyQueue :
    KeepsMaximum slidingMin (new slidingMin 10 10) emptyQueue ↔
      Each (vegasStep slidingMin) (GrowthFits slidingMin) (new slidingMin 10 10) emptyQueue := by
  apply window_below_maximum_iff
  · decide +kernel
  · simp [emptyQueue, SetsWithin]

/-- The end of the second round adds a segment to a window that is at its maximum. -/
theorem emptyQueue_exceeds_maximum_window :
    (emptyQueue.foldlM (vegasStep slidingMin) (new slidingMin 10 10)).toOption.map
        (fun s => (s.congestionWindow, s.maxCongestionWindow)) =
      some (11 * kDefaultTCPMSS, 10 * kDefaultTCPMSS) := by
  decide +kernel

/-! ## The minimum, and the growth of one event -/

namespace VegasSender

variable {s t : VegasSender φ}

/-- There is room in a `uint64` for the segment that an ack adds. -/
def AckHasRoom (F : MinFilter φ) (s : VegasSender φ) (p : Nat) : Prop :=
  s.AddsSegment F p → RoomToGrow s.congestionWindow

/-- An ack keeps a window that is at least the minimum so, and raises it by at most
one segment. -/
theorem onPacketAcked_aboveMinimum {p : Nat} (hmin : s.minCongestionWindow ≤ s.congestionWindow)
    (hroom : s.AckHasRoom F p) (h : s.onPacketAcked F p = .ok t) :
    t.minCongestionWindow ≤ t.congestionWindow ∧
      t.congestionWindow ≤ s.congestionWindow + kDefaultTCPMSS := by
  have ⟨hlimits, w, ht, hadds, hholds⟩ := onPacketAcked_window h
  have hlimits := hlimits.minCongestionWindow
  have hw : w ≤ s.congestionWindow + kDefaultTCPMSS ∧
      (s.vegasMode = false → s.congestionWindow ≤ w) := by
    by_cases hadd : s.AddsSegment F p
    · have hgrown := hadds hadd
      rw [u64_of_lt (hroom hadd)] at hgrown
      exact ⟨by omega, fun _ => by omega⟩
    · obtain ⟨hle, hreno⟩ := hholds hadd
      exact ⟨by omega, fun hmode => by rw [hreno hmode]⟩
  unfold clamped at ht
  cases hmode : s.vegasMode with
  | true =>
    rw [hmode, if_pos rfl] at ht
    omega
  | false =>
    have hle := hw.2 hmode
    rw [hmode, if_neg (by simp)] at ht
    omega

/-- The acks of an event, one after the other. -/
theorem acks_aboveMinimum {ps : List Nat} (hmin : s.minCongestionWindow ≤ s.congestionWindow)
    (hroom : Each (onPacketAcked F) (AckHasRoom F) s ps) :
    Along (onPacketAcked F) (fun u => u.minCongestionWindow ≤ u.congestionWindow) s ps ∧
      ∀ t, ps.foldlM (onPacketAcked F) s = .ok t →
        t.congestionWindow ≤ s.congestionWindow + ps.length * kDefaultTCPMSS := by
  induction ps generalizing s with
  | nil =>
    refine ⟨hmin, fun t h => ?_⟩
    rw [← run_nil_ok_iff.1 h]
    omega
  | cons p ps ih =>
    constructor
    · refine ⟨hmin, fun u hu => ?_⟩
      obtain ⟨hmin', _⟩ := onPacketAcked_aboveMinimum hmin hroom.1 hu
      exact (ih hmin' (hroom.2 u hu)).1
    · intro t h
      obtain ⟨u, hu, h⟩ := run_cons_ok_iff.1 h
      obtain ⟨hmin', hle⟩ := onPacketAcked_aboveMinimum hmin hroom.1 hu
      have hrest := (ih hmin' (hroom.2 u hu)).2 t h
      rw [List.length_cons, Nat.succ_mul]
      omega

end VegasSender

/-- No ack of the call overflows the window. -/
def StepHasRoom (F : MinFilter φ) (s : VegasSender φ) (op : VegasOp) : Prop :=
  ∀ ev, op = .onCongestionEvent ev →
    Each (onPacketAcked F) (AckHasRoom F) (s.beforeAcks F ev) ev.ackedPackets

/-- The call sets no initial window below the minimum. -/
def SetsAtLeastMinimum : VegasOp → Prop
  | .setInitialCongestionWindowInPackets n =>
    kDefaultMinimumCongestionWindow ≤ u64 (n * kDefaultTCPMSS)
  | _ => True

/-- The event keeps the window at the minimum or above at every point, and raises it
by at most one segment for each acked packet. -/
def GrowsByAcks (F : MinFilter φ) (s : VegasSender φ) (op : VegasOp) : Prop :=
  ∀ ev, op = .onCongestionEvent ev →
    Along (onPacketAcked F) (fun u => u.minCongestionWindow ≤ u.congestionWindow)
      (s.beforeAcks F ev) ev.ackedPackets ∧
    ∀ t, s.onCongestionEvent F ev = .ok t →
      t.congestionWindow ≤ s.congestionWindow + ev.ackedPackets.length * kDefaultTCPMSS

/-- The minimum is the constant, and the window is not below it. -/
structure AboveMinimum (s : VegasSender φ) : Prop where
  minCongestionWindow : s.minCongestionWindow = kDefaultMinimumCongestionWindow
  window : s.minCongestionWindow ≤ s.congestionWindow

theorem beforeAcks_aboveMinimum {s : VegasSender φ} (hs : AboveMinimum s) (ev : CongestionEvent) :
    (s.beforeAcks F ev).minCongestionWindow ≤ (s.beforeAcks F ev).congestionWindow ∧
      (s.beforeAcks F ev).congestionWindow ≤ s.congestionWindow := by
  have ⟨hsample, hw, _⟩ := takeSample_windows (F := F) s ev
  have hmin := hsample.minCongestionWindow
  have hwindow := hs.window
  have hlost := losses_window (s := s.takeSample F ev) (by omega) ev.lostPackets
  have hlimits := (losses_limits (s.takeSample F ev) ev.lostPackets).minCongestionWindow
  show (ev.lostPackets.foldl onPacketLost (s.takeSample F ev)).minCongestionWindow ≤
      (ev.lostPackets.foldl onPacketLost (s.takeSample F ev)).congestionWindow ∧
    (ev.lostPackets.foldl onPacketLost (s.takeSample F ev)).congestionWindow ≤ s.congestionWindow
  omega

theorem vegasStep_growsByAcks {s : VegasSender φ} {op : VegasOp} (hs : AboveMinimum s)
    (hroom : StepHasRoom F s op) : GrowsByAcks F s op := by
  intro ev hop
  have ⟨hmin, hle⟩ := beforeAcks_aboveMinimum (F := F) hs ev
  have ⟨halong, hgrowth⟩ := acks_aboveMinimum hmin (hroom ev hop)
  refine ⟨halong, fun t h => ?_⟩
  have ⟨u, hu, ht⟩ := onCongestionEvent_ok h
  have hu := hgrowth u hu
  rw [ht, (switchMode_windows _ u).2]
  omega

theorem vegasStep_aboveMinimum {s t : VegasSender φ} {op : VegasOp} (hs : AboveMinimum s)
    (hset : SetsAtLeastMinimum op) (hroom : StepHasRoom F s op) (h : vegasStep F s op = .ok t) :
    AboveMinimum t := by
  refine ⟨(vegasStep_limits h).minCongestionWindow.trans hs.minCongestionWindow, ?_⟩
  cases op with
  | onPacketSent p =>
    rw [← Except.ok.inj h]
    exact hs.window
  | onRetransmissionTimeout =>
    rw [← Except.ok.inj h]
    exact hs.window
  | setInitialCongestionWindowInPackets n =>
    rw [← Except.ok.inj h, setInitialCongestionWindowInPackets]
    split
    · show s.minCongestionWindow ≤ u64 (n * kDefaultTCPMSS)
      rw [hs.minCongestionWindow]
      exact hset
    · exact hs.window
  | onCongestionEvent ev =>
    obtain ⟨u, hu, ht⟩ := onCongestionEvent_ok h
    have hlast := (vegasStep_growsByAcks hs hroom ev rfl).1.last hu
    obtain ⟨hlimits, hwindow⟩ := switchMode_windows (s.takeSample F ev).inRecovery u
    rw [ht, hwindow, hlimits.minCongestionWindow]
    exact hlast

/-- In a run whose initial windows are at least 4 packets and whose windows fit a
`uint64`, the window is never below the minimum, and an event raises it by at most one
segment for each acked packet. -/
theorem window_above_minimum (F : MinFilter φ) (initial maximum : Nat) (ops : List VegasOp)
    (hinitial : kDefaultMinimumCongestionWindow ≤ u64 (initial * kDefaultTCPMSS))
    (hset : ∀ op ∈ ops, SetsAtLeastMinimum op)
    (hroom : Each (vegasStep F) (StepHasRoom F) (new F initial maximum) ops) :
    Along (vegasStep F) (fun s => s.minCongestionWindow ≤ s.congestionWindow)
        (new F initial maximum) ops ∧
      Each (vegasStep F) (GrowsByAcks F) (new F initial maximum) ops := by
  have hnew : AboveMinimum (new F initial maximum) := ⟨rfl, hinitial⟩
  have hsteps := (each_and _ _).1 ⟨each_of_forall_mem hset, hroom⟩
  rw [along_iff, and_assoc, and_iff_right hnew.window, each_and]
  apply each_of_each (I := AboveMinimum) ?_ ?_ hnew hsteps
  · intro s op hs hop
    exact ⟨fun t h => (vegasStep_aboveMinimum hs hop.1 hop.2 h).window,
      vegasStep_growsByAcks hs hop.2⟩
  · intro s op t hs hop h
    exact vegasStep_aboveMinimum hs hop.1 hop.2 h

/-- One packet, acked after another one was lost. -/
def lossAndAck : List VegasOp :=
  [.onPacketSent 1, .onPacketSent 2, .onCongestionEvent ⟨10000, 10000, [2], [1]⟩]

theorem window_above_minimum_lossAndAck :
    Along (vegasStep slidingMin) (fun s => s.minCongestionWindow ≤ s.congestionWindow)
        (new slidingMin 10 2000) lossAndAck ∧
      Each (vegasStep slidingMin) (GrowsByAcks slidingMin) (new slidingMin 10 2000)
        lossAndAck := by
  apply window_above_minimum
  · decide +kernel
  · simp [lossAndAck, SetsAtLeastMinimum]
  · refine ⟨by simp [StepHasRoom], fun s hs => ⟨by simp [StepHasRoom], fun t ht => ?_⟩⟩
    rw [← Except.ok.inj ht, ← Except.ok.inj hs]
    refine ⟨fun ev hev => ?_, fun _ _ => trivial⟩
    rw [← VegasOp.onCongestionEvent.inj hev]
    exact ⟨fun _ => by decide +kernel, fun _ _ => trivial⟩

end QuicOnNs3.CcAlgo.Vegas
