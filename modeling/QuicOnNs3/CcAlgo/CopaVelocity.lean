import QuicOnNs3.CcAlgo.CopaSender

/-!
# The velocity of the Copa sender

The velocity is 1 until the window has moved in one direction for three RTTs, and
doubles with every further one, so it should be `2^(n-2)` for the counter `n`
(`VelocityState.Law`).  Nothing bounds it, and the doubling that counts to 66
leaves 0 in the `uint64` (`VelocityState.checkAndUpdateDirection_overrun`).

The arithmetic of the rates and of the increase is `exact` here.
-/

namespace QuicOnNs3.CcAlgo.Copa

open QuicOnNs3.WindowedFilter QuicOnNs3.Execution QuicOnNs3.FloatingPoint

/-! ## The law of the velocity -/

namespace VelocityState

variable {v : VelocityState}

/-- The velocity is the power of two that the counter of the direction gives. -/
def Law (v : VelocityState) : Prop :=
  1 ≤ v.velocity ∧ v.velocity = 2 ^ (v.numTimesDirectionSame - 2)

/-- The window is recorded, and it moved in the same direction again. -/
def CountsOn (v : VelocityState) (congestionWindow : Nat) (smoothedRtt : Int)
    (ackTime : Nat) : Prop :=
  v.lastCwndRecordTime ≠ 0 ∧ smoothedRtt ≤ (ackTime : Int) - v.lastCwndRecordTime ∧
    v.newDirection congestionWindow = v.direction

/-- The last counter whose velocity a `uint64` holds. -/
def lastCount : Nat := 65

theorem turn_law (v : VelocityState) (direction : Direction) : (v.turn direction).Law :=
  ⟨Nat.le_refl 1, rfl⟩

theorem countOn_law (h : v.Law) (hcount : v.numTimesDirectionSame < lastCount) :
    v.countOn.Law ∧ v.countOn.numTimesDirectionSame = v.numTimesDirectionSame + 1 := by
  obtain ⟨-, hvel⟩ := h
  unfold lastCount at hcount
  have hnum : u64 (v.numTimesDirectionSame + 1) = v.numTimesDirectionSame + 1 :=
    u64_of_lt (by omega)
  refine ⟨?_, hnum⟩
  unfold Law countOn
  simp only [hnum]
  by_cases h3 : 3 ≤ v.numTimesDirectionSame + 1
  · have hexp : v.numTimesDirectionSame + 1 - 2 = v.numTimesDirectionSame - 2 + 1 := by omega
    have hdouble : 2 * v.velocity = 2 ^ (v.numTimesDirectionSame + 1 - 2) := by
      rw [hvel, hexp, Nat.pow_succ, Nat.mul_comm]
    have hlt : 2 ^ (v.numTimesDirectionSame + 1 - 2) < 2 ^ 64 :=
      Nat.pow_lt_pow_right (by omega) (by omega)
    rw [if_pos h3, hdouble, u64_of_lt hlt]
    exact ⟨Nat.one_le_two_pow, rfl⟩
  · have hexp : v.numTimesDirectionSame - 2 = v.numTimesDirectionSame + 1 - 2 := by omega
    rw [if_neg h3, hvel, hexp]
    exact ⟨Nat.one_le_two_pow, rfl⟩

/-- The doubling after the last counter leaves nothing of the velocity. -/
theorem countOn_overrun (h : v.Law) (hcount : v.numTimesDirectionSame = lastCount) :
    v.countOn.velocity = 0 := by
  obtain ⟨-, hvel⟩ := h
  unfold lastCount at hcount
  have hnum : u64 (v.numTimesDirectionSame + 1) = 66 := by rw [hcount]; decide +kernel
  unfold countOn
  simp only [hnum]
  rw [if_pos (by omega), hvel, hcount]
  decide +kernel

/-- The direction is the same once more, or it is not counted: nothing happens, the
window is recorded for the first time, or the direction turns. -/
theorem checkAndUpdateDirection_cases (v : VelocityState) (w : Nat) (rtt : Int) (now : Nat) :
    (v.CountsOn w rtt now ∧ v.checkAndUpdateDirection w rtt now = v.countOn.recordWindow w now) ∨
      (¬ v.CountsOn w rtt now ∧
        (v.checkAndUpdateDirection w rtt now = v ∨
          v.checkAndUpdateDirection w rtt now = v.recordWindow w now ∨
          v.checkAndUpdateDirection w rtt now =
            (v.turn (v.newDirection w)).recordWindow w now)) := by
  unfold checkAndUpdateDirection CountsOn
  by_cases hinit : v.lastCwndRecordTime = 0
  · simp [hinit]
  · by_cases hlater : rtt ≤ (now : Int) - v.lastCwndRecordTime
    · by_cases hsame : v.newDirection w = v.direction
      · simp [hinit, hlater, hsame]
      · simp [hinit, hlater, hsame]
    · simp [hinit, hlater]

/-- The law holds, with a counter whose velocity a `uint64` holds. -/
structure Good (v : VelocityState) : Prop where
  law : v.Law
  count : v.numTimesDirectionSame ≤ lastCount

theorem recordWindow_good (h : v.Good) (w now : Nat) : (v.recordWindow w now).Good :=
  ⟨h.law, h.count⟩

theorem turn_good (v : VelocityState) (direction : Direction) : (v.turn direction).Good :=
  ⟨turn_law v direction, Nat.zero_le _⟩

theorem checkAndUpdateDirection_good (h : v.Good) {w : Nat} {rtt : Int} {now : Nat}
    (hcount : v.CountsOn w rtt now → v.numTimesDirectionSame ≠ lastCount) :
    (v.checkAndUpdateDirection w rtt now).Good := by
  rcases checkAndUpdateDirection_cases v w rtt now with ⟨hc, heq⟩ | ⟨-, heq | heq | heq⟩
  · have hlt : v.numTimesDirectionSame < lastCount := Nat.lt_of_le_of_ne h.count (hcount hc)
    obtain ⟨hlaw, hnum⟩ := countOn_law h.law hlt
    have hgood : v.countOn.Good := ⟨hlaw, by rw [hnum]; exact hlt⟩
    rw [heq]
    exact recordWindow_good hgood w now
  · rw [heq]
    exact h
  · rw [heq]
    exact recordWindow_good h w now
  · rw [heq]
    exact recordWindow_good (turn_good v _) w now

theorem checkAndUpdateDirection_overrun (h : v.Good) {w : Nat} {rtt : Int} {now : Nat}
    (hc : v.CountsOn w rtt now) (hcount : v.numTimesDirectionSame = lastCount) :
    (v.checkAndUpdateDirection w rtt now).velocity = 0 := by
  rcases checkAndUpdateDirection_cases v w rtt now with ⟨-, heq⟩ | ⟨hnot, -⟩
  · rw [heq]
    exact countOn_overrun h.law hcount
  · exact absurd hc hnot

theorem face_cases (v : VelocityState) (direction : Direction) (w now : Nat) :
    (v.face direction w now = v ∧ (v.direction = direction ∨ v.velocity ≤ 1)) ∨
      v.face direction w now = (v.turn direction).recordWindow w now := by
  unfold face changeDirection
  by_cases hdir : v.direction = direction
  · simp [hdir]
  · by_cases hvel : 1 < v.velocity
    · simp [hdir, hvel]
    · simp [hvel, Nat.not_lt.1 hvel]

theorem face_good (h : v.Good) (direction : Direction) (w now : Nat) :
    (v.face direction w now).Good := by
  rcases face_cases v direction w now with ⟨heq, -⟩ | heq
  · rw [heq]
    exact h
  · rw [heq]
    exact recordWindow_good (turn_good v direction) w now

theorem face_of_velocity_zero (h : v.velocity = 0) (direction : Direction) (w now : Nat) :
    v.face direction w now = v := by
  unfold face
  rw [h, if_neg (by simp)]

end VelocityState

/-! ## One event -/

open VelocityState

namespace CopaSender

variable {φ : Type} {F : MinFilter φ} {s t : CopaSender φ}

/-- The law holds, and the window is a `uint64`. -/
structure Good (s : CopaSender φ) : Prop where
  velocity : s.velocityState.Good
  window : s.congestionWindow < 2 ^ 64

theorem facing_good (hg : s.Good) {ev : CongestionEvent} (direction : Direction)
    (hcount : s.velocityState.CountsOn s.congestionWindow ev.smoothedRtt ev.eventTime →
      s.velocityState.numTimesDirectionSame ≠ lastCount) :
    (s.facing direction ev).Good :=
  ⟨face_good (checkAndUpdateDirection_good hg.velocity hcount) direction _ _, hg.window⟩

theorem moveWindow_good (hg : s.Good) {b : Bool} {ev : CongestionEvent}
    (hcount : s.congestionWindow ≠ 0 → ¬ (b = true ∧ s.isSlowStart = true) →
      s.velocityState.CountsOn s.congestionWindow ev.smoothedRtt ev.eventTime →
      s.velocityState.numTimesDirectionSame ≠ lastCount)
    (h : s.moveWindow exact b ev = .ok t) : t.Good := by
  unfold moveWindow at h
  split_ifs at h with hb hslow
  · rcases slowStart_ok_iff.1 h with ⟨-, rfl⟩ | ⟨-, hfits, rfl⟩
    · exact ⟨hg.velocity, hg.window⟩
    · refine ⟨hg.velocity, ?_⟩
      show s.congestionWindow + s.congestionWindow < 2 ^ 64
      unfold maxUint64 at hfits
      omega
  · obtain ⟨a, hchange, hfits, rfl⟩ := increase_ok_iff.1 h
    obtain ⟨hw, ha, -⟩ := change_exact_ok_iff.1 hchange
    have hfacing := facing_good hg .up (hcount hw fun h => hslow h.2)
    refine ⟨hfacing.velocity, ?_⟩
    show (s.facing .up ev).congestionWindow + a < 2 ^ 64
    unfold maxUint64 at hfits
    omega
  · obtain ⟨hzero, w, hw, rfl⟩ := reduce_ok h
    have hfacing := facing_good hg .down (hcount hzero fun h => hb h.1)
    exact ⟨hfacing.velocity, Nat.lt_of_le_of_lt hw hfacing.window⟩

/-- Without a velocity the window does not move. -/
theorem change_of_velocity_zero (h : s.velocityState.velocity = 0) (hw : s.congestionWindow ≠ 0)
    (n : Nat) : s.change exact n = .ok 0 := by
  rw [change_exact_ok_iff, h, Nat.mul_zero, u64_of_lt (by omega), Nat.mul_zero, Nat.zero_div]
  exact ⟨hw, by omega, rfl⟩

theorem moveWindow_overrun (hg : s.Good) {b : Bool} {ev : CongestionEvent}
    (hout : ¬ (b = true ∧ s.isSlowStart = true)) (hw : s.congestionWindow ≠ 0)
    (hc : s.velocityState.CountsOn s.congestionWindow ev.smoothedRtt ev.eventTime)
    (hcount : s.velocityState.numTimesDirectionSame = lastCount) :
    ∃ t, s.moveWindow exact b ev = .ok t ∧ t.velocityState.velocity = 0 := by
  have hzero : ∀ direction, (s.facing direction ev).velocityState.velocity = 0 := by
    intro direction
    have hcheck := checkAndUpdateDirection_overrun hg.velocity hc hcount
    show ((s.velocityState.checkAndUpdateDirection _ _ _).face direction _ _).velocity = 0
    rw [face_of_velocity_zero hcheck]
    exact hcheck
  have hwindow := hg.window
  cases b with
  | true =>
    have hslow : s.isSlowStart = false := by simpa using hout
    refine ⟨_, ?_, hzero .up⟩
    rw [moveWindow, if_pos rfl, if_neg (by simp [hslow]), increase_ok_iff]
    exact ⟨0, change_of_velocity_zero (hzero .up) hw _, Nat.le_sub_one_of_lt hwindow, rfl⟩
  | false =>
    refine ⟨{ s.facing .down ev with isSlowStart := false }, ?_, hzero .down⟩
    rw [moveWindow, if_neg (by simp)]
    refine bind_ok_iff.2 ⟨0, change_of_velocity_zero (hzero .down) hw _,
      bind_ok_iff.2 ⟨s.congestionWindow, ?_, rfl⟩⟩
    simp [subtractAndCheckUnderflow, facing, face, checkAndUpdateDirection]

end CopaSender

open CopaSender

variable {φ : Type} {F : MinFilter φ}

/-- The call counts the direction once more, past the last velocity that a `uint64`
holds. -/
def Overruns (F : MinFilter φ) (s : CopaSender φ) : CopaOp → Prop
  | .onCongestionEvent ev =>
    s.congestionWindow ≠ 0 ∧ lastCount ≤ s.velocityState.numTimesDirectionSame ∧
      s.velocityState.CountsOn s.congestionWindow ev.smoothedRtt ev.eventTime ∧
      ∃ b, s.increases exact F ev = .ok b ∧ ¬ (b = true ∧ s.isSlowStart = true)
  | _ => False

theorem beforeRates_good {s : CopaSender φ} (hg : s.Good) (ev : CongestionEvent) :
    (s.beforeRates F ev).Good := by
  have hsame := beforeRates_sameWindow F s ev
  exact ⟨hsame.velocityState ▸ hg.velocity, hsame.congestionWindow ▸ hg.window⟩

theorem copaStep_good {s t : CopaSender φ} {op : CopaOp} (hg : s.Good)
    (hover : ¬ Overruns F s op) (h : copaStep exact F s op = .ok t) : t.Good := by
  cases op with
  | onPacketSent p =>
    obtain rfl := Except.ok.inj h
    exact ⟨hg.velocity, hg.window⟩
  | setInitialCongestionWindowInPackets n =>
    obtain rfl := Except.ok.inj h
    unfold setInitialCongestionWindowInPackets
    split
    · exact ⟨hg.velocity, u64_lt _⟩
    · exact hg
  | onCongestionEvent ev =>
    have hsame := beforeRates_sameWindow F s ev
    obtain ⟨b, hb, hmove⟩ := onCongestionEvent_ok_iff.1 h
    refine moveWindow_good (beforeRates_good hg ev) ?_ hmove
    rw [hsame.isSlowStart, hsame.velocityState, hsame.congestionWindow]
    exact fun hw hout hc hcount => hover ⟨hw, Nat.le_of_eq hcount.symm, hc, b, hb, hout⟩

theorem copaStep_overrun {s : CopaSender φ} {op : CopaOp} (hg : s.Good)
    (hover : Overruns F s op) :
    ∃ t, copaStep exact F s op = .ok t ∧ t.velocityState.velocity = 0 := by
  cases op with
  | onPacketSent p => exact hover.elim
  | setInitialCongestionWindowInPackets n => exact hover.elim
  | onCongestionEvent ev =>
    obtain ⟨hw, hcount, hc, b, hb, hout⟩ := hover
    have hcount := Nat.le_antisymm hg.velocity.count hcount
    have hsame := beforeRates_sameWindow F s ev
    rw [← hsame.congestionWindow, ← hsame.velocityState] at hc
    rw [← hsame.congestionWindow] at hw
    rw [← hsame.isSlowStart] at hout
    rw [← hsame.velocityState] at hcount
    obtain ⟨t, hmove, hzero⟩ := moveWindow_overrun (beforeRates_good hg ev) hout hw hc hcount
    exact ⟨t, onCongestionEvent_ok_iff.2 ⟨b, hb, hmove⟩, hzero⟩

/-- The law holds after a step exactly when the step does not count past the last
velocity. -/
theorem copaStep_law_iff {s : CopaSender φ} (hg : s.Good) (op : CopaOp) :
    (∀ t, copaStep exact F s op = .ok t → t.velocityState.Law) ↔ ¬ Overruns F s op := by
  constructor
  · intro hlaw hover
    obtain ⟨t, ht, hzero⟩ := copaStep_overrun hg hover
    have hpos := (hlaw t ht).1
    omega
  · intro hover t ht
    exact (copaStep_good hg hover ht).velocity.law

/-! ## Events that should increase the window -/

/-- Outside of slow start, the event acks a packet with a target rate that is not
below the current rate, and the window is between 4 and 2000 packets. -/
def Qualifies (F : MinFilter φ) (s : CopaSender φ) : CopaOp → Prop
  | .onCongestionEvent ev =>
    s.isSlowStart = false ∧ ev.ackedPackets ≠ [] ∧ s.increases exact F ev = .ok true ∧
      4 * kDefaultTCPMSS ≤ s.congestionWindow ∧ s.congestionWindow ≤ 2000 * kDefaultTCPMSS
  | _ => False

/-- The call strictly increases the window if it should. -/
def Increases (F : MinFilter φ) (s : CopaSender φ) (op : CopaOp) : Prop :=
  Qualifies F s op →
    ∃ t, copaStep exact F s op = .ok t ∧ s.congestionWindow < t.congestionWindow

/-- The product of the increase, as the `uint64` has it, is at least half of the
window. -/
def ProductSuffices (s : CopaSender φ) : CopaOp → Prop
  | .onCongestionEvent ev =>
    s.congestionWindow ≤ 2 * u64 (ev.ackedPackets.length * kDefaultTCPMSS * kDefaultTCPMSS *
      (s.facing .up ev).velocityState.velocity)
  | _ => True

theorem copaStep_increases_iff {s : CopaSender φ} {op : CopaOp} :
    Increases F s op ↔ (Qualifies F s op → ProductSuffices s op) := by
  cases op with
  | onPacketSent p => simp [Increases, Qualifies]
  | setInitialCongestionWindowInPackets n => simp [Increases, Qualifies]
  | onCongestionEvent ev =>
    unfold Increases
    refine imp_congr_right fun hq => ?_
    obtain ⟨hslow, -, hincreases, hmin, hmax⟩ := hq
    have hsame := (beforeRates_sameWindow F s ev).facing .up ev
    have hwindow : ((s.beforeRates F ev).facing .up ev).congestionWindow = s.congestionWindow :=
      hsame.congestionWindow
    unfold ProductSuffices
    generalize hP : u64 (ev.ackedPackets.length * kDefaultTCPMSS * kDefaultTCPMSS *
      (s.facing .up ev).velocityState.velocity) = P
    have hPlt : P < 2 ^ 64 := hP ▸ u64_lt _
    have hdiv : 2 * P / s.congestionWindow ≤ 2 * P / (4 * kDefaultTCPMSS) :=
      Nat.div_le_div_left hmin (by decide)
    unfold kDefaultTCPMSS at hdiv hmin hmax
    have hchange : ((s.beforeRates F ev).facing .up ev).change exact ev.ackedPackets.length =
        .ok (2 * P / s.congestionWindow) := by
      rw [change_exact_ok_iff, hwindow, hsame.velocityState, hP]
      exact ⟨by omega, by omega, rfl⟩
    have hstep : copaStep exact F s (.onCongestionEvent ev) =
        .ok { (s.beforeRates F ev).facing .up ev with
          congestionWindow := s.congestionWindow + 2 * P / s.congestionWindow } := by
      refine onCongestionEvent_ok_iff.2 ⟨true, hincreases, ?_⟩
      have hslow : (s.beforeRates F ev).isSlowStart = false :=
        (beforeRates_sameWindow F s ev).isSlowStart.trans hslow
      rw [moveWindow, if_pos rfl, if_neg (by simp [hslow]), increase_ok_iff]
      refine ⟨_, hchange, ?_, by rw [hwindow]⟩
      rw [hwindow]
      unfold maxUint64
      omega
    rw [hstep]
    have hpos : 0 < 2 * P / s.congestionWindow ↔ s.congestionWindow ≤ 2 * P := by
      rw [Nat.div_pos_iff]
      omega
    simp only [Except.ok.injEq, exists_eq_left']
    omega

/-! ## The window that a velocity has earned -/

namespace VelocityState

variable {v : VelocityState}

/-- With direction Up, the window is large for the velocity: `earned` bounds it at
any time, and `earning` is the bound once the window is above the recorded one,
which allows one more doubling. -/
structure Paced (v : VelocityState) (w : Nat) : Prop where
  earned : v.direction = .up → v.velocity ≤ 2 ∨ 2000 * kDefaultTCPMSS < w ∨
    4 * (kDefaultTCPMSS * kDefaultTCPMSS * v.velocity) ≤ (w + 1) * (w + 1)
  earning : v.direction = .up → 2 ≤ v.velocity → w ≤ v.lastRecordedCwndBytes ∨
    2000 * kDefaultTCPMSS < w ∨
    8 * (kDefaultTCPMSS * kDefaultTCPMSS * v.velocity) ≤ (w + 1) * (w + 1)

theorem recordWindow_paced {w : Nat} (h : v.Paced w) (now : Nat) :
    (v.recordWindow w now).Paced w :=
  ⟨h.earned, fun _ _ => Or.inl (Nat.le_refl w)⟩

/-- Velocity 1 is always earned. -/
theorem paced_of_velocity_le_one (h : v.direction = .up → v.velocity ≤ 1) (w : Nat) :
    v.Paced w := by
  refine ⟨fun hup => ?_, fun hup hvel => ?_⟩
  · have hone := h hup
    exact Or.inl (by omega)
  · have hone := h hup
    omega

theorem turn_paced (v : VelocityState) (direction : Direction) (w : Nat) :
    (v.turn direction).Paced w :=
  paced_of_velocity_le_one (fun _ => Nat.le_refl 1) w

theorem countOn_paced {w : Nat} (h : v.Paced w) (hsame : v.newDirection w = v.direction)
    (now : Nat) : (v.countOn.recordWindow w now).Paced w := by
  refine ⟨fun hup => ?_, fun _ _ => Or.inl (Nat.le_refl w)⟩
  have hup : v.direction = .up := hup
  have hgrown : v.lastRecordedCwndBytes < w := by
    rw [hup] at hsame
    unfold newDirection at hsame
    by_cases hlt : v.lastRecordedCwndBytes < w
    · exact hlt
    · simp [hlt] at hsame
  have hle : v.countOn.velocity ≤ v.velocity ∨ v.countOn.velocity ≤ 2 * v.velocity := by
    unfold countOn
    simp only
    split
    · exact Or.inr (u64_le _)
    · exact Or.inl (Nat.le_refl _)
  show v.countOn.velocity ≤ 2 ∨ _ ∨ 4 * (_ * v.countOn.velocity) ≤ _
  by_cases htwo : 2 ≤ v.velocity
  · rcases h.earning hup htwo with hrec | hlarge | hearned
    · omega
    · exact Or.inr (Or.inl hlarge)
    · refine Or.inr (Or.inr (Nat.le_trans ?_ hearned))
      unfold kDefaultTCPMSS
      omega
  · exact Or.inl (by omega)

theorem checkAndUpdateDirection_paced {w : Nat} (h : v.Paced w) (rtt : Int) (now : Nat) :
    (v.checkAndUpdateDirection w rtt now).Paced w := by
  rcases checkAndUpdateDirection_cases v w rtt now with ⟨hc, heq⟩ | ⟨-, heq | heq | heq⟩
  · rw [heq]
    exact countOn_paced h hc.2.2 now
  · rw [heq]
    exact h
  · rw [heq]
    exact recordWindow_paced h now
  · rw [heq]
    exact recordWindow_paced (turn_paced v _ w) now

theorem face_paced {w : Nat} (h : v.Paced w) (direction : Direction) (now : Nat) :
    (v.face direction w now).Paced w := by
  rcases face_cases v direction w now with ⟨heq, -⟩ | heq
  · rw [heq]
    exact h
  · rw [heq]
    exact recordWindow_paced (turn_paced v direction w) now

/-- After the sudden change, another direction has velocity 1. -/
theorem face_velocity (v : VelocityState) (direction : Direction) (w now : Nat) :
    (v.face direction w now).direction = direction ∨
      (v.face direction w now).velocity ≤ 1 := by
  rcases face_cases v direction w now with ⟨heq, hdir⟩ | heq
  · rw [heq]
    exact hdir
  · rw [heq]
    exact Or.inl rfl

/-- At most `2^22` packets times an earned velocity fit in a `uint64`. -/
theorem product_fits {w n : Nat} (h : v.Paced w)
    (hfacing : v.direction = .up ∨ v.velocity ≤ 1) (hw : w ≤ 2000 * kDefaultTCPMSS)
    (hn : n ≤ 2 ^ 22) : n * kDefaultTCPMSS * kDefaultTCPMSS * v.velocity < 2 ^ 64 := by
  have hbound : kDefaultTCPMSS * kDefaultTCPMSS * v.velocity ≤ 2 ^ 41 := by
    have hsquare : (w + 1) * (w + 1) ≤ (2000 * kDefaultTCPMSS + 1) * (2000 * kDefaultTCPMSS + 1) :=
      Nat.mul_le_mul (by omega) (by omega)
    have hsmall : v.velocity ≤ 2 ∨
        4 * (kDefaultTCPMSS * kDefaultTCPMSS * v.velocity) ≤ (w + 1) * (w + 1) := by
      rcases hfacing with hup | hone
      · rcases h.earned hup with htwo | hlarge | hearned
        · exact Or.inl htwo
        · omega
        · exact Or.inr hearned
      · exact Or.inl (by omega)
    unfold kDefaultTCPMSS at hsmall hsquare ⊢
    omega
  calc n * kDefaultTCPMSS * kDefaultTCPMSS * v.velocity
      = n * (kDefaultTCPMSS * kDefaultTCPMSS * v.velocity) := by
        rw [Nat.mul_assoc, Nat.mul_assoc, Nat.mul_assoc]
    _ ≤ 2 ^ 22 * 2 ^ 41 := Nat.mul_le_mul hn hbound
    _ < 2 ^ 64 := by decide

/-- The square of the window grows by what one increase adds. -/
theorem increase_earns {w P a : Nat} (hw : w ≠ 0) (ha : a = 2 * P / w) :
    8 * P ≤ (w + a + 1) * (w + a + 1) := by
  have hlt : 2 * P < w * (a + 1) := by
    rw [ha]
    exact Nat.lt_mul_div_succ _ (Nat.pos_of_ne_zero hw)
  calc 8 * P ≤ 4 * (w * (a + 1)) := by omega
    _ = 4 * w * (a + 1) := (Nat.mul_assoc ..).symm
    _ ≤ (w + (a + 1)) ^ 2 := four_mul_le_sq_add w (a + 1)
    _ = (w + a + 1) * (w + a + 1) := by rw [← Nat.add_assoc, Nat.pow_two]

/-- An increase keeps the pace. -/
theorem increase_paced {w n a : Nat} (h : v.Paced w)
    (hfacing : v.direction = .up ∨ v.velocity ≤ 1) (hn : n ≤ 2 ^ 22) (hw : w ≠ 0)
    (ha : a = 2 * u64 (n * kDefaultTCPMSS * kDefaultTCPMSS * v.velocity) / w) :
    v.Paced (w + a) := by
  have hsquare : (w + 1) * (w + 1) ≤ (w + a + 1) * (w + a + 1) :=
    Nat.mul_le_mul (by omega) (by omega)
  refine ⟨fun hup => ?_, fun hup htwo => ?_⟩
  · rcases h.earned hup with hvel | hlarge | hearned
    · exact Or.inl hvel
    · exact Or.inr (Or.inl (by omega))
    · exact Or.inr (Or.inr (Nat.le_trans hearned hsquare))
  · by_cases hlarge : 2000 * kDefaultTCPMSS < w + a
    · exact Or.inr (Or.inl hlarge)
    · by_cases hnone : n = 0
      · have hzero : a = 0 := by
          rw [ha, hnone, Nat.zero_mul, Nat.zero_mul, Nat.zero_mul, u64_of_lt (by omega),
            Nat.mul_zero, Nat.zero_div]
        rw [hzero]
        exact h.earning hup htwo
      · have hfits := product_fits h hfacing (by omega) hn
        rw [u64_of_lt hfits] at ha
        have hone : kDefaultTCPMSS * kDefaultTCPMSS * v.velocity ≤
            n * kDefaultTCPMSS * kDefaultTCPMSS * v.velocity := by
          rw [Nat.mul_assoc n]
          exact Nat.mul_le_mul_right _ (Nat.le_mul_of_pos_left _ (Nat.pos_of_ne_zero hnone))
        refine Or.inr (Or.inr (Nat.le_trans ?_ (increase_earns hw ha)))
        exact Nat.mul_le_mul_left 8 hone

end VelocityState

/-! ## Runs with events of at most `2^22` packets -/

/-- The event acks at most `2^22` packets. -/
def SmallAcks : CopaOp → Prop
  | .onCongestionEvent ev => ev.ackedPackets.length ≤ 2 ^ 22
  | _ => True

/-- The law holds, slow start has no direction, and the window has earned the
velocity. -/
structure Steady (s : CopaSender φ) : Prop where
  good : s.Good
  slow : s.isSlowStart = true → s.velocityState.direction = .none
  paced : s.velocityState.Paced s.congestionWindow

theorem paced_of_slow {s : CopaSender φ} (h : s.velocityState.direction = .none) (w : Nat) :
    s.velocityState.Paced w :=
  VelocityState.paced_of_velocity_le_one (fun hup => by simp [h] at hup) w

theorem facing_paced {s : CopaSender φ} (h : s.velocityState.Paced s.congestionWindow)
    (direction : Direction) (ev : CongestionEvent) :
    (s.facing direction ev).velocityState.Paced s.congestionWindow :=
  VelocityState.face_paced (VelocityState.checkAndUpdateDirection_paced h _ _) direction _

theorem moveWindow_paced {s t : CopaSender φ} {b : Bool} {ev : CongestionEvent} (hs : Steady s)
    (hacks : ev.ackedPackets.length ≤ 2 ^ 22) (h : s.moveWindow exact b ev = .ok t) :
    (t.isSlowStart = true → t.velocityState.direction = .none) ∧
      t.velocityState.Paced t.congestionWindow := by
  unfold moveWindow at h
  split_ifs at h with hb hslow
  · have hnone := hs.slow hslow
    rcases slowStart_ok_iff.1 h with ⟨-, rfl⟩ | ⟨-, -, rfl⟩
    · exact ⟨fun _ => hnone, paced_of_slow hnone _⟩
    · exact ⟨fun _ => hnone, paced_of_slow hnone _⟩
  · obtain ⟨a, hchange, -, rfl⟩ := increase_ok_iff.1 h
    obtain ⟨hw, -, ha⟩ := change_exact_ok_iff.1 hchange
    refine ⟨fun h => absurd h hslow, ?_⟩
    exact VelocityState.increase_paced (facing_paced hs.paced .up ev)
      (VelocityState.face_velocity _ .up _ _) hacks hw ha
  · obtain ⟨-, w, -, rfl⟩ := reduce_ok h
    refine ⟨fun h => by simp at h, VelocityState.paced_of_velocity_le_one (fun hup => ?_) w⟩
    rcases VelocityState.face_velocity (s.checkAndUpdateDirection ev).velocityState .down
      s.congestionWindow ev.eventTime with hdown | hone
    · rw [show (s.facing .down ev).velocityState.direction = .down from hdown] at hup
      simp at hup
    · exact hone

theorem copaStep_steady {s t : CopaSender φ} {op : CopaOp} (hs : Steady s)
    (hover : ¬ Overruns F s op) (hacks : SmallAcks op) (h : copaStep exact F s op = .ok t) :
    Steady t := by
  have hgood := copaStep_good hs.good hover h
  cases op with
  | onPacketSent p =>
    obtain rfl := Except.ok.inj h
    exact ⟨hgood, hs.slow, hs.paced⟩
  | setInitialCongestionWindowInPackets n =>
    obtain rfl := Except.ok.inj h
    by_cases hslow : s.isSlowStart = true
    · simp only [setInitialCongestionWindowInPackets, if_pos hslow] at hgood ⊢
      exact ⟨hgood, hs.slow, paced_of_slow (hs.slow hslow) _⟩
    · simp only [setInitialCongestionWindowInPackets, if_neg hslow]
      exact hs
  | onCongestionEvent ev =>
    obtain ⟨b, -, hmove⟩ := onCongestionEvent_ok_iff.1 h
    have hsame := beforeRates_sameWindow F s ev
    have hu : Steady (s.beforeRates F ev) := by
      refine ⟨beforeRates_good hs.good ev, ?_, ?_⟩
      · rw [hsame.isSlowStart, hsame.velocityState]
        exact hs.slow
      · rw [hsame.velocityState, hsame.congestionWindow]
        exact hs.paced
    exact ⟨hgood, (moveWindow_paced hu hacks hmove).1, (moveWindow_paced hu hacks hmove).2⟩

/-- In these runs the product of an increase is never too small. -/
theorem productSuffices_of_steady {s : CopaSender φ} {op : CopaOp} (hs : Steady s)
    (hover : ¬ Overruns F s op) (hacks : SmallAcks op) (hq : Qualifies F s op) :
    ProductSuffices s op := by
  cases op with
  | onPacketSent p => trivial
  | setInitialCongestionWindowInPackets n => trivial
  | onCongestionEvent ev =>
    obtain ⟨hslow, hacked, hincreases, hmin, hmax⟩ := hq
    have hcwnd : s.congestionWindow ≠ 0 := by
      unfold kDefaultTCPMSS at hmin
      omega
    have hgood : (s.facing .up ev).Good := by
      refine facing_good hs.good .up fun hc hcount => ?_
      exact hover ⟨hcwnd, Nat.le_of_eq hcount.symm, hc, true, hincreases, by simp [hslow]⟩
    have hfits := VelocityState.product_fits (facing_paced hs.paced .up ev)
      (VelocityState.face_velocity _ .up _ _) hmax hacks
    have hvel := hgood.velocity.law.1
    have hlen : 1 ≤ ev.ackedPackets.length := List.length_pos_iff.2 hacked
    have hproduct : 1 * kDefaultTCPMSS * kDefaultTCPMSS * 1 ≤
        ev.ackedPackets.length * kDefaultTCPMSS * kDefaultTCPMSS *
          (s.facing .up ev).velocityState.velocity :=
      Nat.mul_le_mul (Nat.mul_le_mul_right _ (Nat.mul_le_mul_right _ hlen)) hvel
    simp only [ProductSuffices, u64_of_lt hfits]
    refine Nat.le_trans hmax (Nat.le_trans ?_ (Nat.mul_le_mul_left 2 hproduct))
    decide

/-! ## Whole runs -/

/-- In every state of the run the velocity is the power of two that the counter
gives, and every event that should increase the window strictly does. -/
def KeepsVelocity (F : MinFilter φ) (s : CopaSender φ) (ops : List CopaOp) : Prop :=
  Along (copaStep exact F) (fun s => s.velocityState.Law) s ops ∧
    Each (copaStep exact F) (Increases F) s ops

theorem new_steady (F : MinFilter φ) (initial maximum : Nat) :
    Steady (new F initial maximum) where
  good := ⟨⟨⟨Nat.le_refl 1, rfl⟩, Nat.zero_le _⟩, u64_lt _⟩
  slow _ := rfl
  paced := paced_of_slow (s := new F initial maximum) rfl _

/-- A run keeps the law of the velocity, and increases the window where it should,
exactly when no step counts a direction past the last velocity that a `uint64`
holds and no increase has a product too small for the window.  With at most `2^22`
packets acked at once, the first condition alone decides it. -/
theorem keepsVelocity_iff (F : MinFilter φ) (initial maximum : Nat) (ops : List CopaOp) :
    (KeepsVelocity F (new F initial maximum) ops ↔
      Each (copaStep exact F)
        (fun s op => ¬ Overruns F s op ∧ (Qualifies F s op → ProductSuffices s op))
        (new F initial maximum) ops) ∧
    ((∀ op ∈ ops, SmallAcks op) →
      (KeepsVelocity F (new F initial maximum) ops ↔
        Each (copaStep exact F) (fun s op => ¬ Overruns F s op) (new F initial maximum) ops)) := by
  have hnew := new_steady F initial maximum
  have hexact : KeepsVelocity F (new F initial maximum) ops ↔
      Each (copaStep exact F)
        (fun s op => ¬ Overruns F s op ∧ (Qualifies F s op → ProductSuffices s op))
        (new F initial maximum) ops := by
    unfold KeepsVelocity
    rw [along_iff, and_iff_right hnew.good.velocity.law, each_and]
    refine each_iff (I := CopaSender.Good) ?_ ?_ hnew.good ops
    · intro s op hg
      exact and_congr (copaStep_law_iff hg op) copaStep_increases_iff
    · intro s op t hg hc h
      exact copaStep_good hg hc.1 h
  refine ⟨hexact, fun hacks => hexact.trans ⟨fun h => h.imp fun _ _ hc => hc.1, fun h => ?_⟩⟩
  have hboth := (each_and _ _).1 ⟨h, each_of_forall_mem hacks⟩
  refine each_of_each (I := Steady) ?_ ?_ hnew hboth
  · intro s op hs hc
    exact ⟨hc.1, productSuffices_of_steady hs hc.1 hc.2⟩
  · intro s op t hs hc h
    exact copaStep_steady hs hc.1 hc.2 h

/-- A packet over an empty queue, and then 68 RTTs of a persistent queue. -/
def persistentQueue : List CopaOp :=
  [.onPacketSent 1, .onCongestionEvent ⟨10000, 10000, 10000, [1], []⟩] ++
    (List.range 68).flatMap fun i =>
      [.onPacketSent (i + 2),
        .onCongestionEvent ⟨110000, 110000, 120000 * (i + 1) + 10000, [i + 2], []⟩]

/-- The ack over an empty queue after it. -/
def drained : List CopaOp :=
  [.onPacketSent 70, .onCongestionEvent ⟨10000, 110000, 8300000, [70], []⟩]

/-- The velocity is lost in the persistent queue, and the sender stays at its
minimum window when the queue has drained. -/
theorem persistentQueue_loses_velocity :
    (persistentQueue.foldlM (copaStep exact slidingMin) (new slidingMin 10 2000)).toOption.map
        (fun s => (s.velocityState.velocity, s.congestionWindow, s.isSlowStart)) =
      some (0, 4 * kDefaultTCPMSS, false) ∧
    ((persistentQueue ++ drained).foldlM (copaStep exact slidingMin)
        (new slidingMin 10 2000)).toOption.map (fun s => s.congestionWindow) =
      some (4 * kDefaultTCPMSS) := by
  decide +kernel

end QuicOnNs3.CcAlgo.Copa
