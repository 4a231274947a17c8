import Mathlib.Algebra.Ring.Int.Defs
import QuicOnNs3.CcAlgo.CdgSender
import QuicOnNs3.Lib.RingBuffer

/-!
# The gradients of the CDG sender

`CalculateGrad` writes the gradient of the last two rounds over the oldest one in
`gradients_` and follows the sums of the minima and of the maxima in `cdg_gsum_`.  Until
the ring has come round for the first time it scales the sum of the gradients so far to
that of a full ring.

No other function writes these fields (`GradientFields`).  So they are the ones that the
gradients of the calls leave, one after another (`recorded`), and what they hold follows
from the laws of a ring buffer (`holdsLast_of_recorded`): for any calls with any RTTs
(`calculateGrad_calls`), and in every run of the sender (`run_holdsLast`).
-/

namespace QuicOnNs3.CcAlgo.Cdg

open QuicOnNs3.RingBuffer QuicOnNs3.Execution

/-! ## The fields that only `CalculateGrad` writes -/

/-- The ring with its tail, the sums and the flag. -/
structure GradientFields where
  ring : Buffer MinMax kRttWin
  cdgGsum : MinMax
  gfilled : Bool
  deriving DecidableEq, Repr

namespace GradientFields

theorem kRttWin_pos : 0 < kRttWin := by decide

/-- The fields of a new sender. -/
def start : GradientFields := ⟨.replicate kRttWin_pos {}, {}, false⟩

/-- The fields after one more gradient. -/
def record (r : GradientFields) (g : MinMax) : GradientFields where
  ring := r.ring.push g
  cdgGsum :=
    { min := r.cdgGsum.min + (g.min - r.ring.oldest.min)
      max := r.cdgGsum.max + (g.max - r.ring.oldest.max) }
  gfilled := r.gfilled || (next r.ring.tail).val = 0

/-- The fields after a sequence of gradients. -/
def recorded (grads : List MinMax) : GradientFields := grads.foldl record start

variable {grads : List MinMax}

theorem recorded_concat (grads : List MinMax) (g : MinMax) :
    recorded (grads ++ [g]) = (recorded grads).record g := by
  simp [recorded]

theorem recorded_ring (grads : List MinMax) : (recorded grads).ring = start.ring.pushAll grads := by
  induction grads using List.reverseRecOn with
  | nil => rfl
  | append_singleton grads g ih =>
    rw [recorded_concat, Buffer.pushAll_concat, ← ih]
    rfl

theorem recorded_tail (grads : List MinMax) :
    (recorded grads).ring.tail.val = grads.length % kRttWin := by
  rw [recorded_ring, Buffer.tail_pushAll]
  show (0 + grads.length) % kRttWin = _
  rw [Nat.zero_add]

/-- The sums are those over the ring, whatever was in it. -/
theorem recorded_sums (grads : List MinMax) :
    (recorded grads).cdgGsum.min = (recorded grads).ring.total MinMax.min ∧
      (recorded grads).cdgGsum.max = (recorded grads).ring.total MinMax.max := by
  induction grads using List.reverseRecOn with
  | nil => exact ⟨by decide, by decide⟩
  | append_singleton grads g ih =>
    rw [recorded_concat]
    constructor
    · show (recorded grads).cdgGsum.min + _ = ((recorded grads).ring.push g).total MinMax.min
      rw [Buffer.total_push, ih.1]
    · show (recorded grads).cdgGsum.max + _ = ((recorded grads).ring.push g).total MinMax.max
      rw [Buffer.total_push, ih.2]

/-- The tail is back at its start for the first time after `kRttWin` gradients. -/
theorem recorded_gfilled (grads : List MinMax) :
    (recorded grads).gfilled = true ↔ kRttWin ≤ grads.length := by
  induction grads using List.reverseRecOn with
  | nil => decide
  | append_singleton grads g ih =>
    have htail : (next (recorded grads).ring.tail).val = (grads.length + 1) % kRttWin := by
      show ((recorded grads).ring.tail.val + 1) % kRttWin = _
      rw [recorded_tail, Nat.mod_add_mod]
    rw [recorded_concat, record, Bool.or_eq_true, ih, htail, decide_eq_true_iff,
      List.length_append, List.length_singleton]
    unfold kRttWin
    omega

end GradientFields

open GradientFields

namespace CdgSender

variable {cfg : CdgConfig} {s t : CdgSender}

/-- The fields of the sender that only `CalculateGrad` writes. -/
def gradientFields (s : CdgSender) : GradientFields := ⟨⟨s.gradients, s.tail⟩, s.cdgGsum, s.gfilled⟩

theorem nextTail_eq_next (tail : Fin kRttWin) : nextTail tail = next tail := by
  revert tail
  decide

theorem calculateGrad_gradientFields (cfg : CdgConfig) (s : CdgSender) :
    (s.calculateGrad cfg).2.gradientFields = s.gradientFields.record s.gradient := by
  have htail := nextTail_eq_next s.tail
  unfold calculateGrad judgeGradient fill pushGradient gradientFields record Buffer.push
  simp only [htail]
  rfl

/-! ## What the fields hold -/

/-- The fields are the ones that the gradients `grads` leave, the first one first: the
last ones fill the ring, and `cdg_gsum_` has their sums. -/
structure HoldsLast (s : CdgSender) (grads : List MinMax) : Prop where
  tail : s.tail.val = grads.length % kRttWin
  ring : s.gradients.toList.rotate s.tail =
    List.replicate (kRttWin - grads.length) ⟨0, 0⟩ ++ grads.rtake kRttWin
  sumMin : s.cdgGsum.min =
    ((grads.rtake (min grads.length kRttWin)).map MinMax.min).sum
  sumMax : s.cdgGsum.max =
    ((grads.rtake (min grads.length kRttWin)).map MinMax.max).sum
  ringMin : (s.gradients.toList.map MinMax.min).sum = s.cdgGsum.min
  ringMax : (s.gradients.toList.map MinMax.max).sum = s.cdgGsum.max
  gfilled : s.gfilled = true ↔ kRttWin ≤ grads.length

theorem holdsLast_of_recorded {grads : List MinMax} (h : s.gradientFields = recorded grads) :
    s.HoldsLast grads := by
  have hring : s.gradientFields.ring = Buffer.pushAll (.replicate kRttWin_pos {}) grads := by
    rw [h]
    exact recorded_ring grads
  have hmin : s.cdgGsum.min = s.gradientFields.ring.total MinMax.min := by
    have hsum := (recorded_sums grads).1
    rwa [← h] at hsum
  have hmax : s.cdgGsum.max = s.gradientFields.ring.total MinMax.max := by
    have hsum := (recorded_sums grads).2
    rwa [← h] at hsum
  have hlast : grads.rtake (min grads.length kRttWin) = grads.rtake kRttWin := by
    rw [List.rtake, List.rtake]
    congr 1
    omega
  refine ⟨?_, ?_, ?_, ?_, hmin.symm, hmax.symm, ?_⟩
  · have htail := recorded_tail grads
    rwa [← h] at htail
  · show s.gradientFields.ring.ordered = _
    rw [hring, Buffer.ordered_pushAll_replicate]
  · rw [hmin, hring, hlast]
    exact Buffer.total_pushAll_replicate _ (by rfl : MinMax.min {} = 0) grads
  · rw [hmax, hring, hlast]
    exact Buffer.total_pushAll_replicate _ (by rfl : MinMax.max {} = 0) grads
  · have hfilled := recorded_gfilled grads
    rwa [← h] at hfilled

/-! ## The division -/

/-- What a call of `CalculateGrad` divides by, where it divides. -/
def divisor (s : CdgSender) : Option Nat :=
  let s := s.pushGradient s.gradient
  if s.gfilled then none
  else if s.tail.val = 0 then none
  else some s.tail.val

/-- The sum that counts as the gradient. -/
def sumGrad (s : CdgSender) : Int := if 0 < s.cdgGsum.min then s.cdgGsum.min else s.cdgGsum.max

/-- A call returns the sum that it leaves in `cdg_gsum_`, scaled where it divides. -/
theorem calculateGrad_grad (cfg : CdgConfig) (s : CdgSender) :
    (s.calculateGrad cfg).1 =
      match s.divisor with
      | none => (s.calculateGrad cfg).2.sumGrad
      | some d => ((s.calculateGrad cfg).2.sumGrad * kRttWin).tdiv d := by
  have hsum : (s.calculateGrad cfg).2.sumGrad = (s.pushGradient s.gradient).sumGrad := rfl
  have hscaled (u : CdgSender) : u.scaledGrad =
      if u.gfilled then u.sumGrad
      else if u.tail.val = 0 then u.sumGrad
      else (u.sumGrad * kRttWin).tdiv u.tail.val := rfl
  rw [hsum]
  show (s.pushGradient s.gradient).scaledGrad = _
  rw [hscaled]
  unfold divisor
  by_cases hfilled : (s.pushGradient s.gradient).gfilled = true
  · simp only [if_pos hfilled]
  · by_cases htail : (s.pushGradient s.gradient).tail.val = 0
    · simp only [if_neg hfilled, if_pos htail]
    · simp only [if_neg hfilled, if_neg htail]

section Recorded

variable {grads : List MinMax}

theorem pushGradient_tail (h : s.gradientFields = recorded grads) :
    (s.pushGradient s.gradient).tail.val = (grads.length + 1) % kRttWin := by
  show (nextTail s.tail).val = _
  rw [nextTail_eq_next]
  show (s.tail.val + 1) % kRttWin = _
  rw [(holdsLast_of_recorded h).tail, Nat.mod_add_mod]

/-- The call that fills the ring brings the tail back to 0 before the flag is set, so it
does not divide either. -/
theorem divisor_of_recorded (h : s.gradientFields = recorded grads) :
    s.divisor = if grads.length + 1 < kRttWin then some (grads.length + 1) else none := by
  have hfilled : (s.pushGradient s.gradient).gfilled = true ↔ kRttWin ≤ grads.length :=
    (holdsLast_of_recorded h).gfilled
  unfold divisor
  simp only [hfilled, pushGradient_tail h]
  unfold kRttWin
  split_ifs with hfull hzero hlt hlt hlt
  · omega
  · rfl
  · omega
  · rfl
  · rw [Nat.mod_eq_of_lt hlt]
  · omega

/-- The call `n`, from the sender `s`: it divides while fewer than `kRttWin` gradients
are there, by their number, and returns the sum of a window, a full one or a part that is
scaled to one. -/
structure ScalesCall (cfg : CdgConfig) (s : CdgSender) (n : Nat) : Prop where
  divisor : ∀ d, s.divisor = some d ↔ d = n ∧ n < kRttWin
  tail : ∀ d, s.divisor = some d → (s.calculateGrad cfg).2.tail.val = n ∧ 0 < n
  grad : (s.calculateGrad cfg).1 =
    if n < kRttWin then ((s.calculateGrad cfg).2.sumGrad * kRttWin).tdiv n
    else (s.calculateGrad cfg).2.sumGrad

theorem scalesCall_of_recorded (cfg : CdgConfig) (h : s.gradientFields = recorded grads) :
    ScalesCall cfg s (grads.length + 1) := by
  have hdivisor := divisor_of_recorded h
  refine ⟨fun d => ?_, fun d hd => ?_, ?_⟩
  · rw [hdivisor]
    split_ifs with hlt
    · rw [Option.some_inj]
      omega
    · simp [hlt]
  · rw [hdivisor] at hd
    split_ifs at hd with hlt
    exact ⟨(pushGradient_tail h).trans (Nat.mod_eq_of_lt hlt), Nat.succ_pos _⟩
  · rw [calculateGrad_grad, hdivisor]
    split_ifs with hlt
    · rfl
    · rfl

end Recorded

/-! ## Any calls -/

/-- `t` with the fields of `s` that only `CalculateGrad` writes. -/
def withGradients (t s : CdgSender) : CdgSender :=
  { t with cdgGsum := s.cdgGsum, gradients := s.gradients, gfilled := s.gfilled, tail := s.tail }

/-- The sender after calls of `CalculateGrad`.  Before each call all other fields, the RTTs
among them, become those of a sender in `others`. -/
def afterCalls (cfg : CdgConfig) (s : CdgSender) (others : List CdgSender) : CdgSender :=
  others.foldl (fun s other => ((other.withGradients s).calculateGrad cfg).2) s

theorem afterCalls_concat (cfg : CdgConfig) (s : CdgSender) (others : List CdgSender)
    (other : CdgSender) :
    s.afterCalls cfg (others ++ [other]) =
      ((other.withGradients (s.afterCalls cfg others)).calculateGrad cfg).2 := by
  simp [afterCalls]

theorem afterCalls_gradientFields (hs : s.gradientFields = start) (others : List CdgSender) :
    (s.afterCalls cfg others).gradientFields = recorded (others.map gradient) := by
  induction others using List.reverseRecOn with
  | nil => exact hs
  | append_singleton others other ih =>
    rw [afterCalls_concat, calculateGrad_gradientFields, List.map_append, List.map_singleton,
      recorded_concat, ← ih]
    rfl

end CdgSender

open CdgSender

/-- After any calls since the construction the fields hold the last gradients and their
sums, and each call returns the sum of a full window, or of a part scaled to one. -/
theorem calculateGrad_calls (cfg : CdgConfig) (shadow initial maximum : Nat)
    (others : List CdgSender) :
    ((new shadow initial maximum).afterCalls cfg others).HoldsLast (others.map gradient) ∧
      ∀ (earlier : List CdgSender) (last : CdgSender), others = earlier ++ [last] →
        ScalesCall cfg (last.withGradients ((new shadow initial maximum).afterCalls cfg earlier))
          others.length := by
  have hnew : (new shadow initial maximum).gradientFields = start := rfl
  refine ⟨holdsLast_of_recorded (afterCalls_gradientFields hnew others), ?_⟩
  intro earlier last hothers
  have hfields : (last.withGradients
      ((new shadow initial maximum).afterCalls cfg earlier)).gradientFields =
        recorded (earlier.map gradient) := afterCalls_gradientFields hnew earlier
  have hscales := scalesCall_of_recorded cfg hfields
  rw [List.length_map] at hscales
  rw [hothers, List.length_append, List.length_singleton]
  exact hscales

/-! ## Runs of the sender -/

namespace CdgSender

variable {cfg : CdgConfig} {s t : CdgSender}

theorem applySlowThreshold_gradientFields (cfg : CdgConfig) (s : CdgSender) :
    (s.applySlowThreshold cfg).gradientFields = s.gradientFields := by
  unfold applySlowThreshold cdgGetSlowThreshold
  split_ifs <;> rfl

theorem onPacketLost_gradientFields (cfg : CdgConfig) (s : CdgSender) (lost : LostPacket) :
    (s.onPacketLost cfg lost).gradientFields = s.gradientFields := by
  unfold onPacketLost
  split
  · unfold reduceByLostBytes
    split <;> rfl
  · show (s.noteSlowStart.reduceOnLoss cfg).gradientFields = _
    unfold reduceOnLoss
    split
    · rfl
    · rw [applySlowThreshold_gradientFields]
      rfl

/-- The RTTs, the hybrid slow start and the losses of an event. -/
theorem beforeAcks_gradientFields (cfg : CdgConfig) (s : CdgSender) (ev : CongestionEvent) :
    (s.beforeAcks cfg ev).gradientFields = s.gradientFields := by
  have hrtt : (s.updateRtt ev).gradientFields = s.gradientFields := by
    unfold updateRtt
    split <;> rfl
  have hstart : ((s.updateRtt ev).checkSlowStart ev).gradientFields = s.gradientFields := by
    unfold checkSlowStart
    split
    · exact hrtt
    · exact hrtt
  exact List.foldlRecOn (motive := fun u => u.gradientFields = s.gradientFields) ev.lostPackets _
    hstart fun u hu lost _ => (onPacketLost_gradientFields cfg u lost).trans hu

theorem maybeIncreaseCwnd_gradientFields (s : CdgSender) (priorInFlight : Nat) :
    (s.maybeIncreaseCwnd priorInFlight).gradientFields = s.gradientFields := by
  unfold maybeIncreaseCwnd
  simp only
  split_ifs <;> rfl

theorem leaveReduction_gradientFields (s : CdgSender) :
    s.leaveReduction.gradientFields = s.gradientFields := by
  unfold leaveReduction
  simp only
  split_ifs <;> rfl

theorem ackStep_gradientFields (priorInFlight : Nat) (r : Bool × CdgSender) (packetNumber : Nat) :
    (ackStep priorInFlight r packetNumber).2.gradientFields = r.2.gradientFields := by
  have hround : (r.2.updateRoundTripCounter packetNumber).2.gradientFields =
      r.2.gradientFields := by
    unfold updateRoundTripCounter
    split <;> rfl
  unfold ackStep onPacketAcked
  simp only
  split
  · exact hround
  · rw [maybeIncreaseCwnd_gradientFields, leaveReduction_gradientFields]
    exact hround

theorem ackLoop_gradientFields (cfg : CdgConfig) (s : CdgSender) (ev : CongestionEvent) :
    (s.ackLoop cfg ev).2.gradientFields = s.gradientFields :=
  List.foldlRecOn (motive := fun r => r.2.gradientFields = s.gradientFields) ev.ackedPackets _
    (beforeAcks_gradientFields cfg s ev)
    fun r hr packetNumber _ => (ackStep_gradientFields _ r packetNumber).trans hr

theorem cdgBackoff_gradientFields (cfg : CdgConfig) (s : CdgSender) (grad : Int) (key : Nat) :
    (s.cdgBackoff cfg grad key).gradientFields = s.gradientFields := by
  have hcount : (s.countBackoff cfg).gradientFields = s.gradientFields := by
    unfold countBackoff
    split <;> rfl
  unfold cdgBackoff
  simp only
  split_ifs
  · rfl
  · exact hcount
  · exact (applySlowThreshold_gradientFields cfg
      { (s.countBackoff cfg).enterBackoff with congState := .cwr }).trans hcount

theorem growShadow_gradientFields (cfg : CdgConfig) (s : CdgSender) (prior : Nat) :
    (s.growShadow cfg prior).gradientFields = s.gradientFields := by
  unfold growShadow
  split <;> rfl

/-- The end of a round calls `CalculateGrad` when there are RTTs of two rounds. -/
theorem endOfRound_gradientFields (cfg : CdgConfig) (s : CdgSender) (key : Nat) :
    (s.endOfRound cfg key).gradientFields =
      if s.cdgRttPrev.v64 then s.gradientFields.record s.gradient else s.gradientFields := by
  have hbackoff : ∀ (u : CdgSender) (grad : Int),
      (if 0 < grad then u.rollOver.cdgBackoff cfg grad key else u.rollOver).gradientFields =
        u.gradientFields := by
    intro u grad
    split
    · exact cdgBackoff_gradientFields cfg u.rollOver grad key
    · rfl
  unfold endOfRound
  cases hprev : s.cdgRttPrev.v64 with
  | false => exact hbackoff s 0
  | true => exact (hbackoff _ _).trans (calculateGrad_gradientFields cfg s)

/-- The gradient that an event adds to the ring, if it does. -/
def eventGradients (cfg : CdgConfig) (s : CdgSender) (ev : CongestionEvent) : List MinMax :=
  let (roundStart, s) := s.ackLoop cfg ev
  if roundStart && s.cdgRtt.v64 && s.cdgRttPrev.v64 then [s.gradient] else []

theorem onCongestionEvent_gradientFields (cfg : CdgConfig) (s : CdgSender)
    (ev : CongestionEvent) :
    (s.onCongestionEvent cfg ev).gradientFields =
      (s.eventGradients cfg ev).foldl record s.gradientFields := by
  have hloop := ackLoop_gradientFields cfg s ev
  unfold onCongestionEvent eventGradients
  simp only
  rw [growShadow_gradientFields]
  by_cases hround : ((s.ackLoop cfg ev).1 && (s.ackLoop cfg ev).2.cdgRtt.v64) = true
  · rw [if_pos hround, endOfRound_gradientFields, hround, Bool.true_and, hloop]
    split <;> rfl
  · rw [if_neg hround, Bool.eq_false_iff.2 hround, Bool.false_and]
    exact hloop

end CdgSender

/-- The gradient that a call on the sender adds to the ring, if it does. -/
def stepGradients (cfg : CdgConfig) (s : CdgSender) : CdgOp → List MinMax
  | .onCongestionEvent ev => s.eventGradients cfg ev
  | _ => []

/-- The gradients that a run adds to the ring, the first one first. -/
def runGradients (cfg : CdgConfig) : CdgSender → List CdgOp → List MinMax
  | _, [] => []
  | s, op :: ops =>
    match cdgStep cfg s op with
    | .ok t => stepGradients cfg s op ++ runGradients cfg t ops
    | .error e => nomatch e

theorem cdgStep_gradientFields {cfg : CdgConfig} {s t : CdgSender} {op : CdgOp}
    (h : cdgStep cfg s op = .ok t) :
    t.gradientFields = (stepGradients cfg s op).foldl record s.gradientFields := by
  cases op with
  | onPacketSent packetNumber =>
    rw [← Except.ok.inj h]
    rfl
  | onCongestionEvent ev =>
    rw [← Except.ok.inj h]
    exact onCongestionEvent_gradientFields cfg s ev
  | onRetransmissionTimeout packetsRetransmitted =>
    rw [← Except.ok.inj h, onRetransmissionTimeout]
    cases packetsRetransmitted <;> rfl
  | adjustNetworkParameters bandwidth rtt =>
    rw [← Except.ok.inj h, adjustNetworkParameters]
    split <;> rfl
  | onConnectionMigration =>
    rw [← Except.ok.inj h]
    rfl

theorem run_gradientFields {cfg : CdgConfig} {s t : CdgSender} {ops : List CdgOp}
    (h : ops.foldlM (cdgStep cfg) s = .ok t) :
    t.gradientFields = (runGradients cfg s ops).foldl record s.gradientFields := by
  induction ops generalizing s with
  | nil =>
    rw [← run_nil_ok_iff.1 h]
    rfl
  | cons op ops ih =>
    obtain ⟨u, hu, hrest⟩ := run_cons_ok_iff.1 h
    rw [runGradients, hu]
    show _ = (stepGradients cfg s op ++ runGradients cfg u ops).foldl record _
    rw [List.foldl_append, ← cdgStep_gradientFields hu]
    exact ih hrest

/-- In every run of the sender the fields hold the last gradients of the run and their
sums. -/
theorem run_holdsLast {cfg : CdgConfig} {shadow initial maximum : Nat} {ops : List CdgOp}
    {t : CdgSender} (h : ops.foldlM (cdgStep cfg) (new shadow initial maximum) = .ok t) :
    t.HoldsLast (runGradients cfg (new shadow initial maximum) ops) :=
  holdsLast_of_recorded (run_gradientFields h)

end QuicOnNs3.CcAlgo.Cdg
