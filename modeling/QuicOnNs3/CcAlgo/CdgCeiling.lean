import QuicOnNs3.CcAlgo.CdgWindow

/-!
# The maximum window of the CDG sender

`MaybeIncreaseCwnd` is the only part of an event that makes the window larger, by one
segment and only from below `max_congestion_window_`.  Everything else leaves a window
that is at most the old one or the minimum (`NoHigher`), apart from two calls that do not
look at the maximum: `AdjustNetworkParameters`, which sets up to
`kMaxResumptionCongestionWindow` segments, and `SetInitialCongestionWindowInPackets`, which
sets any number of them.

So the window is below the maximum and one segment more exactly as long as the windows
that are set are (`window_below_iff`).
-/

namespace QuicOnNs3.CcAlgo.Cdg

open QuicOnNs3.Execution

namespace CdgSender

variable {cfg : CdgConfig} {s t u : CdgSender} {c : Nat}

/-! ## Steps that do not raise the window -/

/-- `t` has the limits of `s`, and no larger window, or the minimum. -/
structure NoHigher (s t : CdgSender) : Prop extends SameLimits s t where
  maxCongestionWindow : t.maxCongestionWindow = s.maxCongestionWindow
  initialMaxTcpCongestionWindow :
    t.initialMaxTcpCongestionWindow = s.initialMaxTcpCongestionWindow
  congestionWindow : t.congestionWindow ≤ max s.congestionWindow s.minCongestionWindow

theorem NoHigher.refl (s : CdgSender) : s.NoHigher s :=
  ⟨⟨rfl, rfl, rfl⟩, rfl, rfl, Nat.le_max_left _ _⟩

theorem NoHigher.trans (h : s.NoHigher t) (h' : t.NoHigher u) : s.NoHigher u where
  toSameLimits := h.toSameLimits.trans h'.toSameLimits
  maxCongestionWindow := h'.maxCongestionWindow.trans h.maxCongestionWindow
  initialMaxTcpCongestionWindow :=
    h'.initialMaxTcpCongestionWindow.trans h.initialMaxTcpCongestionWindow
  congestionWindow := by
    have hst := h.congestionWindow
    have htu := h'.congestionWindow
    rw [h.minCongestionWindow] at htu
    omega

/-- The shadow window that `CdgGetSlowThreshold` uses is at most the window. -/
theorem applySlowThreshold_noHigher (cfg : CdgConfig) (s : CdgSender) :
    s.NoHigher (s.applySlowThreshold cfg) := by
  unfold applySlowThreshold cdgGetSlowThreshold
  split_ifs
  · refine ⟨⟨rfl, rfl, rfl⟩, rfl, rfl, ?_⟩
    show s.congestionWindow * 707 / 1000 ≤ max s.congestionWindow s.minCongestionWindow
    omega
  · exact NoHigher.refl s
  · refine ⟨⟨rfl, rfl, rfl⟩, rfl, rfl, ?_⟩
    show max (max s.minCongestionWindow (min s.congestionWindow (s.shadowCongestionWindow / 2)))
      (s.congestionWindow / 2) ≤ max s.congestionWindow s.minCongestionWindow
    omega
  · refine ⟨⟨rfl, rfl, rfl⟩, rfl, rfl, ?_⟩
    show max s.minCongestionWindow (s.congestionWindow / 2) ≤
      max s.congestionWindow s.minCongestionWindow
    omega

theorem onPacketLost_noHigher (hs : s.slowStartLargeReduction = false) (lost : LostPacket) :
    s.NoHigher (s.onPacketLost cfg lost) := by
  unfold onPacketLost
  split
  · unfold reduceByLostBytes
    rw [hs, Bool.and_false, if_neg (by decide)]
    exact NoHigher.refl s
  · have hnote : s.NoHigher s.noteSlowStart :=
      ⟨⟨rfl, rfl, rfl⟩, rfl, rfl, Nat.le_max_left _ _⟩
    have hreduce : s.noteSlowStart.reduceOnLoss cfg = s.noteSlowStart.applySlowThreshold cfg := by
      unfold reduceOnLoss
      rw [show s.noteSlowStart.slowStartLargeReduction = false from hs, Bool.false_and,
        if_neg (by decide)]
    have hrecover : ∀ t : CdgSender, t.NoHigher t.startRecovery.cutback := fun t =>
      ⟨⟨rfl, rfl, rfl⟩, rfl, rfl, Nat.le_refl _⟩
    rw [hreduce]
    exact (hnote.trans (applySlowThreshold_noHigher cfg _)).trans (hrecover _)

/-- What comes before the acked packets of an event. -/
theorem beforeAcks_noHigher (cfg : CdgConfig) (hs : s.slowStartLargeReduction = false)
    (ev : CongestionEvent) : s.NoHigher (s.beforeAcks cfg ev) := by
  have hrtt : s.NoHigher (s.updateRtt ev) := by
    unfold updateRtt
    split
    · exact ⟨⟨rfl, rfl, rfl⟩, rfl, rfl, Nat.le_max_left _ _⟩
    · exact NoHigher.refl s
  have hstart : (s.updateRtt ev).NoHigher ((s.updateRtt ev).checkSlowStart ev) := by
    unfold checkSlowStart
    split
    · exact ⟨⟨rfl, rfl, rfl⟩, rfl, rfl, Nat.le_max_left _ _⟩
    · exact NoHigher.refl _
  refine List.foldlRecOn ev.lostPackets _ (hrtt.trans hstart) fun t ht lost _ => ?_
  exact ht.trans (onPacketLost_noHigher (ht.slowStartLargeReduction.trans hs) lost)

theorem cdgBackoff_noHigher (cfg : CdgConfig) (s : CdgSender) (grad : Int) (key : Nat) :
    s.NoHigher (s.cdgBackoff cfg grad key) := by
  have hcount : s.NoHigher (s.countBackoff cfg) := by
    unfold countBackoff
    split
    · exact ⟨⟨rfl, rfl, rfl⟩, rfl, rfl, Nat.le_max_left _ _⟩
    · exact NoHigher.refl s
  have henter : ∀ t : CdgSender, t.NoHigher (t.enterBackoff.enterCongestionWindowReduction cfg) := by
    intro t
    have hbackoff : t.NoHigher { t.enterBackoff with congState := .cwr } :=
      ⟨⟨rfl, rfl, rfl⟩, rfl, rfl, Nat.le_max_left _ _⟩
    have hcutback : ∀ u : CdgSender, u.NoHigher u.cutback := fun u =>
      ⟨⟨rfl, rfl, rfl⟩, rfl, rfl, Nat.le_max_left _ _⟩
    exact (hbackoff.trans (applySlowThreshold_noHigher cfg _)).trans (hcutback _)
  unfold cdgBackoff
  simp only
  split_ifs
  · exact NoHigher.refl s
  · exact hcount
  · exact hcount.trans (henter _)

/-- What comes after the acked packets of an event. -/
theorem endOfRound_noHigher (cfg : CdgConfig) (s : CdgSender) (key : Nat) :
    s.NoHigher (s.endOfRound cfg key) := by
  have hgrad : s.NoHigher (s.calculateGrad cfg).2 :=
    ⟨⟨rfl, rfl, rfl⟩, rfl, rfl, Nat.le_max_left _ _⟩
  have hroll : ∀ t : CdgSender, t.NoHigher t.rollOver := fun t =>
    ⟨⟨rfl, rfl, rfl⟩, rfl, rfl, Nat.le_max_left _ _⟩
  unfold endOfRound
  cases s.cdgRttPrev.v64 with
  | false =>
    simp only [Bool.false_eq_true, if_false, Int.lt_irrefl]
    exact hroll s
  | true =>
    simp only [if_true]
    split
    · exact (hgrad.trans (hroll _)).trans (cdgBackoff_noHigher cfg _ _ key)
    · exact hgrad.trans (hroll _)

theorem growShadow_noHigher (cfg : CdgConfig) (s : CdgSender) (prior : Nat) :
    s.NoHigher (s.growShadow cfg prior) := by
  unfold growShadow
  split
  · exact ⟨⟨rfl, rfl, rfl⟩, rfl, rfl, Nat.le_max_left _ _⟩
  · exact NoHigher.refl s

/-! ## The bound -/

/-- The window and what it is set to are below `c`, and so is the maximum with one
segment more. -/
structure BelowCap (c : Nat) (s : CdgSender) : Prop where
  noLargeReduction : s.slowStartLargeReduction = false
  max_le : s.maxCongestionWindow + kDefaultTCPMSS ≤ c
  initialMax_eq : s.initialMaxTcpCongestionWindow = s.maxCongestionWindow
  initial_lt : s.initialTcpCongestionWindow < c
  min_lt : s.minCongestionWindow < c
  window_lt : s.congestionWindow < c

theorem BelowCap.of_noHigher (hs : s.BelowCap c) (h : s.NoHigher t) : t.BelowCap c where
  noLargeReduction := h.slowStartLargeReduction.trans hs.noLargeReduction
  max_le := by
    rw [h.maxCongestionWindow]
    exact hs.max_le
  initialMax_eq := by
    rw [h.initialMaxTcpCongestionWindow, h.maxCongestionWindow]
    exact hs.initialMax_eq
  initial_lt := by
    rw [h.initialTcpCongestionWindow]
    exact hs.initial_lt
  min_lt := by
    rw [h.minCongestionWindow]
    exact hs.min_lt
  window_lt := Nat.lt_of_le_of_lt h.congestionWindow (Nat.max_lt.2 ⟨hs.window_lt, hs.min_lt⟩)

/-- The window grows from below the maximum, by one segment. -/
theorem BelowCap.maybeIncreaseCwnd (hs : s.BelowCap c) (priorInFlight : Nat) :
    (s.maybeIncreaseCwnd priorInFlight).BelowCap c := by
  have hgrow : s.congestionWindow < s.maxCongestionWindow →
      u64 (s.congestionWindow + kDefaultTCPMSS) < c := by
    intro hlt
    have hle := u64_le (s.congestionWindow + kDefaultTCPMSS)
    have hmax := hs.max_le
    omega
  unfold CdgSender.maybeIncreaseCwnd
  simp only
  split_ifs with _ hmax
  · exact hs
  · exact hs
  · exact { hs with window_lt := hgrow (Nat.lt_of_not_le hmax) }
  · exact { hs with window_lt := hgrow (Nat.lt_of_not_le hmax) }
  · exact { hs with }

theorem BelowCap.ackStep (hs : s.BelowCap c) (b : Bool) (priorInFlight p : Nat) :
    (CdgSender.ackStep priorInFlight (b, s) p).2.BelowCap c := by
  have hcount : s.NoHigher (s.updateRoundTripCounter p).2 := by
    unfold updateRoundTripCounter
    split
    · exact ⟨⟨rfl, rfl, rfl⟩, rfl, rfl, Nat.le_max_left _ _⟩
    · exact NoHigher.refl s
  have hrecord : ∀ t : CdgSender, t.NoHigher (t.recordAck p) := fun t =>
    ⟨⟨rfl, rfl, rfl⟩, rfl, rfl, Nat.le_max_left _ _⟩
  have hleave : ∀ t : CdgSender, t.NoHigher t.leaveReduction := by
    intro t
    unfold leaveReduction restartRound
    simp only
    split_ifs
    · exact ⟨⟨rfl, rfl, rfl⟩, rfl, rfl, Nat.le_max_left _ _⟩
    · exact ⟨⟨rfl, rfl, rfl⟩, rfl, rfl, Nat.le_max_left _ _⟩
    · exact ⟨⟨rfl, rfl, rfl⟩, rfl, rfl, Nat.le_max_left _ _⟩
    · exact NoHigher.refl t
  show ((s.updateRoundTripCounter p).2.onPacketAcked p priorInFlight).BelowCap c
  unfold onPacketAcked
  simp only
  split
  · exact hs.of_noHigher (hcount.trans (hrecord _))
  · exact (hs.of_noHigher ((hcount.trans (hrecord _)).trans (hleave _))).maybeIncreaseCwnd _

theorem BelowCap.onCongestionEvent (hs : s.BelowCap c) (cfg : CdgConfig) (ev : CongestionEvent) :
    (s.onCongestionEvent cfg ev).BelowCap c := by
  have hbefore := hs.of_noHigher (beforeAcks_noHigher cfg hs.noLargeReduction ev)
  have hacks : (s.ackLoop cfg ev).2.BelowCap c := by
    refine List.foldlRecOn (motive := fun r : Bool × CdgSender => r.2.BelowCap c)
      ev.ackedPackets _ hbefore fun r hr p _ => ?_
    exact BelowCap.ackStep hr r.1 ev.priorInFlight p
  unfold CdgSender.onCongestionEvent
  simp only
  split
  · exact hacks.of_noHigher ((endOfRound_noHigher cfg _ ev.key).trans (growShadow_noHigher cfg _ _))
  · exact hacks.of_noHigher (growShadow_noHigher cfg _ _)

end CdgSender

open CdgSender

/-! ## Whole runs -/

/-- If the call sets the window, what it sets is below `c`. -/
def AdjustsBelow (cfg : CdgConfig) (c : Nat) : CdgOp → Prop
  | .adjustNetworkParameters bandwidth rtt => bandwidth ≠ 0 → rtt ≠ 0 →
    min (cfg.toBytesPerPeriod bandwidth rtt)
      (kMaxResumptionCongestionWindow * kDefaultTCPMSS) < c
  | _ => True

variable {cfg : CdgConfig} {s t : CdgSender} {c : Nat}

/-- `AdjustNetworkParameters` leaves the window below `c` exactly if what it sets is. -/
theorem adjustNetworkParameters_below_iff (hs : s.BelowCap c) (bandwidth rtt : Nat) :
    (s.adjustNetworkParameters cfg bandwidth rtt).congestionWindow < c ↔
      AdjustsBelow cfg c (.adjustNetworkParameters bandwidth rtt) := by
  have hmin := hs.min_lt
  unfold CdgSender.adjustNetworkParameters AdjustsBelow
  by_cases hunknown : bandwidth = 0 ∨ rtt = 0
  · rw [if_pos hunknown]
    refine iff_of_true hs.window_lt fun hbandwidth hrtt => ?_
    exact absurd hunknown (not_or.2 ⟨hbandwidth, hrtt⟩)
  · have ⟨hbandwidth, hrtt⟩ := not_or.1 hunknown
    rw [if_neg hunknown]
    show max s.minCongestionWindow (min (cfg.toBytesPerPeriod bandwidth rtt)
      (kMaxResumptionCongestionWindow * kDefaultTCPMSS)) < c ↔ _
    constructor
    · intro hlt _ _
      exact (Nat.max_lt.1 hlt).2
    · intro hlt
      exact Nat.max_lt.2 ⟨hmin, hlt hbandwidth hrtt⟩

/-- One call keeps the window below `c` exactly if what it sets is, and then it keeps the
bound. -/
theorem cdgStep_below_iff (hs : s.BelowCap c) {op : CdgOp} (h : cdgStep cfg s op = .ok t) :
    (t.congestionWindow < c ↔ AdjustsBelow cfg c op) ∧ (t.congestionWindow < c → t.BelowCap c) := by
  have hother : ∀ u : CdgSender, u.BelowCap c → AdjustsBelow cfg c op →
      (u.congestionWindow < c ↔ AdjustsBelow cfg c op) ∧
        (u.congestionWindow < c → u.BelowCap c) :=
    fun _ hu hop => ⟨iff_of_true hu.window_lt hop, fun _ => hu⟩
  cases op with
  | onPacketSent p =>
    rw [← Except.ok.inj h]
    exact hother _ (hs.of_noHigher ⟨⟨rfl, rfl, rfl⟩, rfl, rfl, Nat.le_max_left _ _⟩) trivial
  | onCongestionEvent ev =>
    rw [← Except.ok.inj h]
    exact hother _ (hs.onCongestionEvent cfg ev) trivial
  | onRetransmissionTimeout packetsRetransmitted =>
    rw [← Except.ok.inj h]
    refine hother _ (hs.of_noHigher ?_) trivial
    unfold CdgSender.onRetransmissionTimeout
    cases packetsRetransmitted with
    | false => exact ⟨⟨rfl, rfl, rfl⟩, rfl, rfl, Nat.le_max_left _ _⟩
    | true => exact ⟨⟨rfl, rfl, rfl⟩, rfl, rfl, Nat.le_max_right _ _⟩
  | adjustNetworkParameters bandwidth rtt =>
    rw [← Except.ok.inj h]
    refine ⟨adjustNetworkParameters_below_iff hs bandwidth rtt, fun hlt => ?_⟩
    unfold CdgSender.adjustNetworkParameters at hlt ⊢
    split
    · exact hs
    · rename_i hknown
      rw [if_neg hknown] at hlt
      exact { hs with window_lt := hlt }
  | onConnectionMigration =>
    rw [← Except.ok.inj h]
    refine hother _ { hs with window_lt := hs.initial_lt, max_le := ?_, initialMax_eq := rfl } trivial
    show s.initialMaxTcpCongestionWindow + kDefaultTCPMSS ≤ c
    rw [hs.initialMax_eq]
    exact hs.max_le

/-- A call of the connection on the sender: an operation of `cdgStep`, or
`SetInitialCongestionWindowInPackets`, which takes any window. -/
inductive CdgCall where
  | op (op : CdgOp)
  | setInitialCongestionWindowInPackets (congestionWindow : Nat)
  deriving DecidableEq, Repr

/-- One call. -/
def cdgCall (cfg : CdgConfig) (s : CdgSender) : CdgCall → Except Empty CdgSender
  | .op op => cdgStep cfg s op
  | .setInitialCongestionWindowInPackets congestionWindow =>
    .ok (s.setInitialCongestionWindowInPackets congestionWindow)

/-- If the call sets the window, what it sets is below `c`. -/
def SetsBelow (cfg : CdgConfig) (c : Nat) : CdgCall → Prop
  | .op op => AdjustsBelow cfg c op
  | .setInitialCongestionWindowInPackets congestionWindow =>
    u64 (congestionWindow * kDefaultTCPMSS) < c

/-- One call keeps the window below `c` exactly if what it sets is, and then it keeps the
bound. -/
theorem cdgCall_below_iff (cfg : CdgConfig) (hs : s.BelowCap c) (call : CdgCall) :
    ∃ t, cdgCall cfg s call = .ok t ∧ (t.congestionWindow < c ↔ SetsBelow cfg c call) ∧
      (t.congestionWindow < c → t.BelowCap c) := by
  cases call with
  | op op =>
    obtain ⟨t, ht⟩ := cdgStep_ok cfg s op
    exact ⟨t, ht, cdgStep_below_iff hs ht⟩
  | setInitialCongestionWindowInPackets n =>
    exact ⟨_, rfl, Iff.rfl, fun hlt => { hs with window_lt := hlt }⟩

/-- For every bound that leaves room for the initial window, the minimum, and one segment
over the maximum, the window of a run is below it in every state exactly when all the
windows that `AdjustNetworkParameters` and `SetInitialCongestionWindowInPackets` set are.
Nothing else goes past the maximum by a whole segment. -/
theorem window_below_iff (cfg : CdgConfig) (shadow initial maximum c : Nat)
    (hmin : kDefaultMinimumCongestionWindow < c)
    (hinitial : u64 (initial * kDefaultTCPMSS) < c)
    (hmax : u64 (maximum * kDefaultTCPMSS) + kDefaultTCPMSS ≤ c) (calls : List CdgCall) :
    Along (cdgCall cfg) (fun s => s.congestionWindow < c) (new shadow initial maximum) calls ↔
      ∀ call ∈ calls, SetsBelow cfg c call := by
  have hnew : (new shadow initial maximum).BelowCap c :=
    ⟨rfl, hmax, rfl, hinitial, hmin, hinitial⟩
  generalize new shadow initial maximum = s at hnew
  induction calls generalizing s with
  | nil => exact iff_of_true hnew.window_lt (by simp)
  | cons call calls ih =>
    obtain ⟨t, ht, hiff, hkeeps⟩ := cdgCall_below_iff cfg hnew call
    rw [List.forall_mem_cons, ← hiff]
    constructor
    · rintro ⟨-, hrest⟩
      have hlt : t.congestionWindow < c := by
        cases calls with
        | nil => exact hrest t ht
        | cons => exact (hrest t ht).1
      exact ⟨hlt, (ih t (hkeeps hlt)).1 (hrest t ht)⟩
    · rintro ⟨hlt, hrest⟩
      refine ⟨hnew.window_lt, fun t' ht' => ?_⟩
      rw [← Except.ok.inj (ht.symm.trans ht')]
      exact (ih t (hkeeps hlt)).2 hrest

/-- A connection that is resumed with 8 Mbit/s and an RTT of one second, and is given a
window of 50 packets later, has a window past the maximum of 100 packets, and within the
one of a resumption. -/
theorem window_below_iff_resumed :
    let calls := [.op (.onCongestionEvent (ackEvent [1])),
      .op (.adjustNetworkParameters 8000000 1000000), .setInitialCongestionWindowInPackets 50]
    ¬ Along (cdgCall sampleConfig) (fun s => s.congestionWindow < 147460) (new 0 10 100) calls ∧
      Along (cdgCall sampleConfig) (fun s => s.congestionWindow < 292001) (new 0 10 100) calls := by
  constructor
  · rw [window_below_iff sampleConfig 0 10 100 147460 (by decide +kernel) (by decide +kernel)
      (by decide +kernel)]
    intro h
    exact absurd (h (.op (.adjustNetworkParameters 8000000 1000000)) (by simp) (by decide)
      (by decide)) (by decide +kernel)
  · rw [window_below_iff sampleConfig 0 10 100 292001 (by decide +kernel) (by decide +kernel)
      (by decide +kernel)]
    intro call hcall
    simp only [List.mem_cons, List.not_mem_nil, or_false] at hcall
    rcases hcall with rfl | rfl | rfl
    · trivial
    · exact fun _ _ => by decide +kernel
    · show u64 (50 * kDefaultTCPMSS) < 292001
      decide +kernel

end QuicOnNs3.CcAlgo.Cdg
