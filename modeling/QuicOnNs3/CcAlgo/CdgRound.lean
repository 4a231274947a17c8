import QuicOnNs3.CcAlgo.CdgSender

/-!
# The rounds of the CDG sender

`OnCongestionEvent` keeps in `round_start` what `UpdateRoundTripCounter` answers for an
acked packet, and every packet overwrites the answer for the one before it.  A packet
that ends a round also moves the end of the next one to the largest packet sent, so
the packets that are acked after it in the same event end no round, and its answer is
lost (`endOfRound_runs_iff`).
-/

namespace QuicOnNs3.CcAlgo.Cdg

namespace CdgSender

variable {cfg : CdgConfig} {s t u : CdgSender}

/-! ## What the packets of an event keep -/

/-- `t` has the RTTs of `s`, and the gradients with their sums. -/
structure SameRtts (s t : CdgSender) : Prop where
  cdgRtt : t.cdgRtt = s.cdgRtt
  cdgRttPrev : t.cdgRttPrev = s.cdgRttPrev
  cdgGsum : t.cdgGsum = s.cdgGsum
  gradients : t.gradients = s.gradients
  tail : t.tail = s.tail

theorem SameRtts.trans (h : s.SameRtts t) (h' : t.SameRtts u) : s.SameRtts u where
  cdgRtt := h'.cdgRtt.trans h.cdgRtt
  cdgRttPrev := h'.cdgRttPrev.trans h.cdgRttPrev
  cdgGsum := h'.cdgGsum.trans h.cdgGsum
  gradients := h'.gradients.trans h.gradients
  tail := h'.tail.trans h.tail

/-- `t` is in the round of `s`, which ends with the same packet, and in no reduction by
the gradient unless `s` is. -/
structure SameRound (s t : CdgSender) : Prop extends SameRtts s t where
  currentRoundTripEnd : t.currentRoundTripEnd = s.currentRoundTripEnd
  largestSentPacketNumber : t.largestSentPacketNumber = s.largestSentPacketNumber
  congState : s.congState ≠ .cwr → t.congState ≠ .cwr

theorem SameRound.refl (s : CdgSender) : s.SameRound s :=
  ⟨⟨rfl, rfl, rfl, rfl, rfl⟩, rfl, rfl, id⟩

theorem SameRound.trans (h : s.SameRound t) (h' : t.SameRound u) : s.SameRound u where
  toSameRtts := h.toSameRtts.trans h'.toSameRtts
  currentRoundTripEnd := h'.currentRoundTripEnd.trans h.currentRoundTripEnd
  largestSentPacketNumber := h'.largestSentPacketNumber.trans h.largestSentPacketNumber
  congState := fun hs => h'.congState (h.congState hs)

theorem applySlowThreshold_sameRound (cfg : CdgConfig) (s : CdgSender) :
    s.SameRound (s.applySlowThreshold cfg) := by
  unfold applySlowThreshold cdgGetSlowThreshold
  split_ifs
  · exact ⟨⟨rfl, rfl, rfl, rfl, rfl⟩, rfl, rfl, id⟩
  · exact ⟨⟨rfl, rfl, rfl, rfl, rfl⟩, rfl, rfl, id⟩
  · exact ⟨⟨rfl, rfl, rfl, rfl, rfl⟩, rfl, rfl, id⟩
  · exact ⟨⟨rfl, rfl, rfl, rfl, rfl⟩, rfl, rfl, id⟩

theorem reduceOnLoss_sameRound (cfg : CdgConfig) (s : CdgSender) :
    s.SameRound (s.reduceOnLoss cfg) := by
  unfold reduceOnLoss
  split
  · exact ⟨⟨rfl, rfl, rfl, rfl, rfl⟩, rfl, rfl, id⟩
  · exact applySlowThreshold_sameRound cfg s

/-- A loss changes the windows and starts a recovery. -/
theorem onPacketLost_sameRound (cfg : CdgConfig) (s : CdgSender) (lost : LostPacket) :
    s.SameRound (s.onPacketLost cfg lost) := by
  unfold onPacketLost
  split
  · unfold reduceByLostBytes
    split
    · exact ⟨⟨rfl, rfl, rfl, rfl, rfl⟩, rfl, rfl, id⟩
    · exact SameRound.refl s
  · have hnote : s.SameRound s.noteSlowStart := ⟨⟨rfl, rfl, rfl, rfl, rfl⟩, rfl, rfl, id⟩
    have hrecover : ∀ t : CdgSender, t.SameRound t.startRecovery.cutback := fun t =>
      ⟨⟨rfl, rfl, rfl, rfl, rfl⟩, rfl, rfl, fun _ => TcpCaState.noConfusion⟩
    exact (hnote.trans (reduceOnLoss_sameRound cfg _)).trans (hrecover _)

theorem losses_sameRound (cfg : CdgConfig) (s : CdgSender) (lost : List LostPacket) :
    s.SameRound (lost.foldl (onPacketLost cfg) s) :=
  List.foldlRecOn lost _ (SameRound.refl s)
    fun t ht p _ => ht.trans (onPacketLost_sameRound cfg t p)

/-- What an event does before the acked packets leaves the end of the round alone. -/
theorem beforeAcks_keeps (cfg : CdgConfig) (s : CdgSender) (ev : CongestionEvent) :
    (s.beforeAcks cfg ev).currentRoundTripEnd = s.currentRoundTripEnd ∧
      (s.beforeAcks cfg ev).largestSentPacketNumber = s.largestSentPacketNumber ∧
      (s.congState ≠ .cwr → (s.beforeAcks cfg ev).congState ≠ .cwr) := by
  have hlost := losses_sameRound cfg ((s.updateRtt ev).checkSlowStart ev) ev.lostPackets
  have hstart : (s.updateRtt ev).SameRound ((s.updateRtt ev).checkSlowStart ev) := by
    unfold checkSlowStart
    split
    · exact ⟨⟨rfl, rfl, rfl, rfl, rfl⟩, rfl, rfl, id⟩
    · exact SameRound.refl _
  have hsame := hstart.trans hlost
  have hrtt : (s.updateRtt ev).currentRoundTripEnd = s.currentRoundTripEnd ∧
      (s.updateRtt ev).largestSentPacketNumber = s.largestSentPacketNumber ∧
      (s.updateRtt ev).congState = s.congState := by
    unfold updateRtt
    split
    · exact ⟨rfl, rfl, rfl⟩
    · exact ⟨rfl, rfl, rfl⟩
  exact ⟨hsame.currentRoundTripEnd.trans hrtt.1, hsame.largestSentPacketNumber.trans hrtt.2.1,
    fun hs => hsame.congState (hrtt.2.2 ▸ hs)⟩

theorem maybeIncreaseCwnd_sameRound (s : CdgSender) (priorInFlight : Nat) :
    s.SameRound (s.maybeIncreaseCwnd priorInFlight) := by
  unfold maybeIncreaseCwnd
  simp only
  split_ifs
  · exact SameRound.refl s
  · exact SameRound.refl s
  · exact ⟨⟨rfl, rfl, rfl, rfl, rfl⟩, rfl, rfl, id⟩
  · exact ⟨⟨rfl, rfl, rfl, rfl, rfl⟩, rfl, rfl, id⟩
  · exact ⟨⟨rfl, rfl, rfl, rfl, rfl⟩, rfl, rfl, id⟩

/-- Outside of a reduction by the gradient, an acked packet does not touch the round. -/
theorem onPacketAcked_sameRound (hs : s.congState ≠ .cwr) (p priorInFlight : Nat) :
    s.SameRound (s.onPacketAcked p priorInFlight) := by
  have hrecord : s.SameRound (s.recordAck p) := ⟨⟨rfl, rfl, rfl, rfl, rfl⟩, rfl, rfl, id⟩
  have hcwr : (s.recordAck p).congState ≠ .cwr := hrecord.congState hs
  have hleave : (s.recordAck p).SameRound (s.recordAck p).leaveReduction := by
    unfold leaveReduction
    simp only [if_neg hcwr]
    split
    · exact ⟨⟨rfl, rfl, rfl, rfl, rfl⟩, rfl, rfl, fun _ => TcpCaState.noConfusion⟩
    · exact SameRound.refl _
  unfold onPacketAcked
  simp only
  split
  · exact hrecord
  · exact (hrecord.trans hleave).trans (maybeIncreaseCwnd_sameRound _ _)

/-! ## The loop over the acked packets -/

/-- The answers of `UpdateRoundTripCounter` for the acked packets. -/
def counterReturns (priorInFlight : Nat) : CdgSender → List Nat → List Bool
  | _, [] => []
  | s, p :: ps =>
    (s.updateRoundTripCounter p).1 ::
      counterReturns priorInFlight (ackStep priorInFlight (false, s) p).2 ps

/-- The sender in a round with another end. -/
def withRoundEnd (s : CdgSender) (roundEnd : Option Nat) : CdgSender :=
  { s with currentRoundTripEnd := roundEnd }

theorem SameRound.withRoundEnd (h : s.SameRound t) (roundEnd : Option Nat) :
    (s.withRoundEnd roundEnd).SameRound (t.withRoundEnd roundEnd) :=
  ⟨⟨h.cdgRtt, h.cdgRttPrev, h.cdgGsum, h.gradients, h.tail⟩, rfl, h.largestSentPacketNumber,
    h.congState⟩

/-- The end of the round after an acked packet. -/
def nextRoundEnd (largestSent roundEnd : Option Nat) (p : Nat) : Option Nat :=
  if endsRound roundEnd p then largestSent else roundEnd

/-- One packet of the loop. -/
theorem ackStep_spec (hs : s.congState ≠ .cwr) (priorInFlight : Nat) (b : Bool) (p : Nat) :
    (ackStep priorInFlight (b, s) p).1 = endsRound s.currentRoundTripEnd p ∧
      (s.withRoundEnd (nextRoundEnd s.largestSentPacketNumber s.currentRoundTripEnd p)).SameRound
        (ackStep priorInFlight (b, s) p).2 := by
  unfold ackStep updateRoundTripCounter nextRoundEnd
  by_cases hends : endsRound s.currentRoundTripEnd p = true
  · simp only [if_pos hends]
    refine ⟨hends.symm, ?_⟩
    exact onPacketAcked_sameRound (s := s.withRoundEnd s.largestSentPacketNumber) hs p priorInFlight
  · simp only [if_neg hends]
    exact ⟨(Bool.not_eq_true _ ▸ hends).symm, onPacketAcked_sameRound hs p priorInFlight⟩

theorem ackStep_keeps (hs : s.congState ≠ .cwr) (priorInFlight : Nat) (b : Bool) (p : Nat) :
    (ackStep priorInFlight (b, s) p).2.currentRoundTripEnd =
        nextRoundEnd s.largestSentPacketNumber s.currentRoundTripEnd p ∧
      (ackStep priorInFlight (b, s) p).2.largestSentPacketNumber = s.largestSentPacketNumber ∧
      (ackStep priorInFlight (b, s) p).2.congState ≠ .cwr :=
  have h := (ackStep_spec hs priorInFlight b p).2
  ⟨h.currentRoundTripEnd, h.largestSentPacketNumber, h.congState hs⟩

/-- All packets of the loop. -/
theorem ackLoop_sameRound (hs : s.congState ≠ .cwr) (priorInFlight : Nat) (b : Bool)
    (ps : List Nat) :
    (s.withRoundEnd
      (ps.foldl (nextRoundEnd s.largestSentPacketNumber) s.currentRoundTripEnd)).SameRound
        (ps.foldl (ackStep priorInFlight) (b, s)).2 := by
  induction ps generalizing s b with
  | nil => exact SameRound.refl s
  | cons p ps ih =>
    have hstep := (ackStep_spec hs priorInFlight b p).2
    obtain ⟨hend, hsent, hcwr⟩ := ackStep_keeps hs priorInFlight b p
    have hrest := ih hcwr (ackStep priorInFlight (b, s) p).1
    rw [hend, hsent] at hrest
    exact (hstep.withRoundEnd _).trans hrest

/-- Once a packet has ended a round, the round ends with the largest packet sent. -/
theorem foldl_nextRoundEnd (largestSent roundEnd : Option Nat) (ps : List Nat) :
    ps.foldl (nextRoundEnd largestSent) roundEnd =
      if ∃ q ∈ ps, endsRound roundEnd q = true then largestSent else roundEnd := by
  have hafter : ∀ ps : List Nat, ps.foldl (nextRoundEnd largestSent) largestSent = largestSent :=
    fun ps => List.foldlRecOn (motive := (· = largestSent)) ps _ rfl fun e he p _ => by
      rw [he, nextRoundEnd, ite_self]
  induction ps with
  | nil => simp
  | cons p ps ih =>
    rw [List.foldl_cons, nextRoundEnd]
    by_cases hends : endsRound roundEnd p = true
    · rw [if_pos hends, hafter, if_pos ⟨p, List.mem_cons_self .., hends⟩]
    · rw [if_neg hends, ih]
      simp [hends]

theorem updateRoundTripCounter_fst (s : CdgSender) (p : Nat) :
    (s.updateRoundTripCounter p).1 = endsRound s.currentRoundTripEnd p := by
  unfold updateRoundTripCounter
  split
  · rename_i h
    exact h.symm
  · rename_i h
    exact (Bool.not_eq_true _ ▸ h).symm

/-- Some packet ends a round exactly when one comes after the end of the first round. -/
theorem mem_counterReturns_iff (hs : s.congState ≠ .cwr) (priorInFlight : Nat) (ps : List Nat) :
    true ∈ counterReturns priorInFlight s ps ↔
      ∃ q ∈ ps, endsRound s.currentRoundTripEnd q = true := by
  induction ps generalizing s with
  | nil => simp [counterReturns]
  | cons p ps ih =>
    obtain ⟨hend, _, hcwr⟩ := ackStep_keeps hs priorInFlight false p
    rw [counterReturns, List.mem_cons, updateRoundTripCounter_fst, ih hcwr, hend, nextRoundEnd]
    by_cases hends : endsRound s.currentRoundTripEnd p = true
    · exact iff_of_true (Or.inl hends.symm) ⟨p, List.mem_cons_self .., hends⟩
    · rw [if_neg hends]
      simp [hends]

/-- `round_start` after the loop is the answer for the last packet. -/
theorem ackLoop_concat (hs : s.congState ≠ .cwr) (priorInFlight : Nat) (init : List Nat)
    (last : Nat) :
    ((init ++ [last]).foldl (ackStep priorInFlight) (false, s)).1 =
      endsRound (if ∃ q ∈ init, endsRound s.currentRoundTripEnd q = true then
        s.largestSentPacketNumber else s.currentRoundTripEnd) last := by
  have hinit := ackLoop_sameRound hs priorInFlight false init
  have hstep := (ackStep_spec (hinit.congState hs) priorInFlight
    (init.foldl (ackStep priorInFlight) (false, s)).1 last).1
  rw [hinit.currentRoundTripEnd] at hstep
  rw [List.foldl_append, ← foldl_nextRoundEnd]
  exact hstep

/-! ## The end of a round -/

theorem cdgBackoff_sameRtts (cfg : CdgConfig) (s : CdgSender) (grad : Int) (key : Nat) :
    s.SameRtts (s.cdgBackoff cfg grad key) := by
  have hcount : s.SameRtts (s.countBackoff cfg) := by
    unfold countBackoff
    split
    · exact ⟨rfl, rfl, rfl, rfl, rfl⟩
    · exact ⟨rfl, rfl, rfl, rfl, rfl⟩
  have henter (t : CdgSender) :
      t.SameRtts (t.enterBackoff.enterCongestionWindowReduction cfg) := by
    have h := (applySlowThreshold_sameRound cfg
      { t.enterBackoff with congState := .cwr }).toSameRtts
    exact ⟨h.cdgRtt, h.cdgRttPrev, h.cdgGsum, h.gradients, h.tail⟩
  unfold cdgBackoff
  simp only
  split_ifs
  · exact ⟨rfl, rfl, rfl, rfl, rfl⟩
  · exact hcount
  · exact hcount.trans (henter _)

/-- The RTTs roll over, and a gradient is pushed if there are RTTs of two rounds. -/
theorem endOfRound_sameRtts (cfg : CdgConfig) (s : CdgSender) (key : Nat) :
    (if s.cdgRttPrev.v64 then (s.pushGradient s.gradient).rollOver else s.rollOver).SameRtts
      (s.endOfRound cfg key) := by
  unfold endOfRound
  cases hprev : s.cdgRttPrev.v64 with
  | false =>
    simp only [Bool.false_eq_true, if_false, Int.lt_irrefl]
    exact ⟨rfl, rfl, rfl, rfl, rfl⟩
  | true =>
    have hgrad : (s.pushGradient s.gradient).rollOver.SameRtts
        (s.calculateGrad cfg).2.rollOver := ⟨rfl, rfl, rfl, rfl, rfl⟩
    simp only [if_true]
    split
    · exact hgrad.trans (cdgBackoff_sameRtts cfg _ _ key)
    · exact hgrad

/-- The end of a round is processed: the RTTs of the round are the ones of the last
round, and if there were some before, their gradient is pushed. -/
structure RoundProcessed (cfg : CdgConfig) (s : CdgSender) (ev : CongestionEvent) : Prop where
  cdgRtt : (s.onCongestionEvent cfg ev).cdgRtt = {}
  cdgRttPrev : (s.onCongestionEvent cfg ev).cdgRttPrev = (s.beforeAcks cfg ev).cdgRtt
  gradient : (s.beforeAcks cfg ev).cdgRttPrev.v64 = true →
    ((s.beforeAcks cfg ev).pushGradient (s.beforeAcks cfg ev).gradient).rollOver.SameRtts
      (s.onCongestionEvent cfg ev)

theorem growShadow_sameRtts (cfg : CdgConfig) (s : CdgSender) (prior : Nat) :
    s.SameRtts (s.growShadow cfg prior) := by
  unfold growShadow
  split
  · exact ⟨rfl, rfl, rfl, rfl, rfl⟩
  · exact ⟨rfl, rfl, rfl, rfl, rfl⟩

theorem SameRtts.pushGradient (h : s.SameRtts t) :
    (s.pushGradient s.gradient).rollOver.SameRtts (t.pushGradient t.gradient).rollOver := by
  unfold CdgSender.pushGradient CdgSender.gradient CdgSender.rollOver
  refine ⟨rfl, h.cdgRtt, ?_, ?_, ?_⟩
  · simp only [h.cdgRtt, h.cdgRttPrev, h.cdgGsum, h.gradients, h.tail]
  · simp only [h.cdgRtt, h.cdgRttPrev, h.gradients, h.tail]
  · simp only [h.tail]

/-- The processing of an event runs exactly when `round_start` is set after the loop. -/
theorem roundProcessed_iff (hs : s.congState ≠ .cwr) {ev : CongestionEvent}
    (hrtt : (s.beforeAcks cfg ev).cdgRtt.v64 = true) :
    RoundProcessed cfg s ev ↔ (s.ackLoop cfg ev).1 = true := by
  have hcwr := (beforeAcks_keeps cfg s ev).2.2 hs
  have hloop := (ackLoop_sameRound hcwr ev.priorInFlight false ev.ackedPackets).toSameRtts
  change ((s.beforeAcks cfg ev).withRoundEnd _).SameRtts (s.ackLoop cfg ev).2 at hloop
  have hloop : (s.beforeAcks cfg ev).SameRtts (s.ackLoop cfg ev).2 :=
    ⟨hloop.cdgRtt, hloop.cdgRttPrev, hloop.cdgGsum, hloop.gradients, hloop.tail⟩
  have hnonzero : (s.ackLoop cfg ev).2.cdgRtt.v64 = true := by rw [hloop.cdgRtt, hrtt]
  cases hstart : (s.ackLoop cfg ev).1 with
  | false =>
    have heq : s.onCongestionEvent cfg ev =
        (s.ackLoop cfg ev).2.growShadow cfg (s.beforeAcks cfg ev).congestionWindow := by
      unfold onCongestionEvent
      simp only [hstart, Bool.false_and, Bool.false_eq_true, if_false]
    refine iff_of_false (fun h => ?_) (by decide)
    have hzero := h.cdgRtt
    rw [heq, (growShadow_sameRtts cfg _ _).cdgRtt] at hzero
    rw [hzero] at hnonzero
    exact absurd hnonzero (by decide)
  | true =>
    have heq : s.onCongestionEvent cfg ev =
        ((s.ackLoop cfg ev).2.endOfRound cfg ev.key).growShadow cfg
          (s.beforeAcks cfg ev).congestionWindow := by
      unfold onCongestionEvent
      simp only [hstart, hnonzero, Bool.true_and, if_true]
    have hend := (endOfRound_sameRtts cfg (s.ackLoop cfg ev).2 ev.key).trans
      (growShadow_sameRtts cfg _ (s.beforeAcks cfg ev).congestionWindow)
    rw [← heq] at hend
    refine iff_of_true ⟨?_, ?_, ?_⟩ rfl
    · rw [hend.cdgRtt]
      split <;> rfl
    · rw [hend.cdgRttPrev, ← hloop.cdgRtt]
      split <;> rfl
    · intro hprev
      rw [← hloop.cdgRttPrev] at hprev
      rw [if_pos hprev] at hend
      exact hloop.pushGradient.trans hend

end CdgSender

open CdgSender

/-- The end of a round is processed exactly in the events with a packet that ends one,
unless such a packet comes before the last one and the last one is not above the largest
packet sent. -/
theorem endOfRound_runs_iff (cfg : CdgConfig) (s : CdgSender) (ev : CongestionEvent)
    (hs : s.congState ≠ .cwr) (hrtt : (s.beforeAcks cfg ev).cdgRtt.v64 = true) :
    (RoundProcessed cfg s ev ↔
        true ∈ counterReturns ev.priorInFlight (s.beforeAcks cfg ev) ev.ackedPackets) ↔
      ∀ last ∈ ev.ackedPackets.getLast?,
        (∃ q ∈ ev.ackedPackets.dropLast, endsRound s.currentRoundTripEnd q = true) →
        endsRound s.largestSentPacketNumber last = true := by
  have ⟨hend, hsent, hcwr⟩ := beforeAcks_keeps cfg s ev
  have hcwr := hcwr hs
  rw [roundProcessed_iff hs hrtt, mem_counterReturns_iff hcwr, hend]
  unfold ackLoop
  rcases List.eq_nil_or_concat ev.ackedPackets with hnil | ⟨init, last, hconcat⟩
  · rw [hnil]
    simp
  · rw [List.concat_eq_append] at hconcat
    rw [hconcat, ackLoop_concat hcwr, hend, hsent, List.getLast?_concat, List.dropLast_concat]
    simp only [Option.mem_some_iff, forall_eq']
    by_cases hany : ∃ q ∈ init, endsRound s.currentRoundTripEnd q = true
    · have ⟨q, hq, hqends⟩ := hany
      have hmem : ∃ q ∈ init ++ [last], endsRound s.currentRoundTripEnd q = true :=
        ⟨q, List.mem_append_left _ hq, hqends⟩
      rw [if_pos hany]
      exact ⟨fun h _ => h.2 hmem, fun h => iff_of_true (h hany) hmem⟩
    · rw [if_neg hany]
      refine iff_of_true ⟨fun h => ⟨last, by simp, h⟩, fun h => ?_⟩ fun h => absurd h hany
      have ⟨q, hq, hqends⟩ := h
      rcases List.mem_append.1 hq with hq | hq
      · exact absurd ⟨q, hq, hqends⟩ hany
      · rwa [← List.mem_singleton.1 hq]

/-- A configuration with both flags and no limit on backoffs. -/
def sampleConfig : CdgConfig where
  useShadow := true
  useTolerance := true
  useIneff := 0
  growShadow shadow inc := shadow + inc
  toBytesPerPeriod bandwidth rtt := bandwidth * rtt / 8000000

/-- An event that acks these packets after an RTT of 10 ms. -/
def ackEvent (ackedPackets : List Nat) : CongestionEvent where
  rttUpdated := true
  priorInFlight := 2920
  ackedPackets := ackedPackets
  lostPackets := []
  latestRttMs := 10
  shouldExitSlowStart := false
  key := 0

/-- The sender after the ack of packet 1, with packet 2 in the round and packet 3 after
it. -/
def twoInFlight : CdgSender :=
  (((CdgSender.new 0 10 100).onPacketSent 1).onPacketSent 2 |>.onCongestionEvent sampleConfig
    (ackEvent [1])).onPacketSent 3

/-- Both are acked, after 20 ms. -/
def slowerAck : CongestionEvent :=
  { ackEvent [2, 3] with latestRttMs := 20, key := 4294967295 }

/-- Packet 2 ends no round and packet 3 ends one, which is processed. -/
theorem endOfRound_runs_iff_slowerAck :
    counterReturns 2920 (twoInFlight.beforeAcks sampleConfig slowerAck) [2, 3] =
        [false, true] ∧
      RoundProcessed sampleConfig twoInFlight slowerAck :=
  ⟨by decide +kernel,
    ((endOfRound_runs_iff sampleConfig twoInFlight slowerAck (by decide +kernel)
      (by decide +kernel)).2 (by decide +kernel)).2 (by decide +kernel)⟩

/-- A sender whose first round has ended with packet 1, and which has sent two more. -/
def secondRound : CdgSender :=
  (((CdgSender.new 0 10 100).onPacketSent 1).onCongestionEvent sampleConfig
    (ackEvent [1])).onPacketSent 2 |>.onPacketSent 3

/-- Packets 2 and 3 are acked in one event: packet 2 ends the second round, packet 3 ends
none, and nothing is processed. -/
theorem twoAcks_lose_the_round :
    secondRound.congState ≠ .cwr ∧
      (secondRound.beforeAcks sampleConfig (ackEvent [2, 3])).cdgRtt.v64 = true ∧
      counterReturns 2920 (secondRound.beforeAcks sampleConfig (ackEvent [2, 3])) [2, 3] =
        [true, false] ∧
      ¬ RoundProcessed sampleConfig secondRound (ackEvent [2, 3]) := by
  have hrtt : (secondRound.onCongestionEvent sampleConfig (ackEvent [2, 3])).cdgRtt =
      ⟨10, 10⟩ := by
    decide +kernel
  refine ⟨by decide +kernel, by decide +kernel, by decide +kernel, fun h => ?_⟩
  have hzero := h.cdgRtt
  rw [hrtt] at hzero
  exact absurd hzero (by decide)

end QuicOnNs3.CcAlgo.Cdg
