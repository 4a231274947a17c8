import QuicOnNs3.CcAlgo.VegasEpoch
import QuicOnNs3.CcAlgo.VegasRoundRtt

/-!
# The mode, the rounds and the samples of the Vegas sender

Three parts of the state are written in different places and have to agree.
`vegas_mode_` is written at the end of an event that changes the recovery,
`beg_send_next_` by the first packet, by the ack that ends a round and by the switch
to the Vegas mode, and `min_rtt_` beside `rtt_count_` by each event with acks and by
what starts a round.

`Numbered` and `Sampled` are the invariants that hold inside of an event too, one for
the packet numbers and one for the samples.  With the mode, which only agrees between
two events, they give `vegas_coherent`: no check of `beg_send_next_` fails, and each
division of `OnPacketAcked` is by an RTT of at least 1 µs.
-/

namespace QuicOnNs3.CcAlgo.Vegas

open QuicOnNs3.WindowedFilter QuicOnNs3.Execution

namespace VegasSender

variable {φ : Type} {F : MinFilter φ} {s t u : VegasSender φ} {sent : List Nat}

/-! ## The packet numbers -/

/-- `beg_send_next_` is initialised with the first packet, and is never above the
largest sent one. -/
structure Numbered (s : VegasSender φ) (sent : List Nat) : Prop where
  tracks : s.TracksSent sent
  largestSent : ∀ l, s.largestSentPacketNumber = some l → l ∈ sent
  begSendNext : s.begSendNext.isSome = true ↔ sent ≠ []
  begSendNext_le : ∀ b, s.begSendNext = some b →
    ∃ l, s.largestSentPacketNumber = some l ∧ b ≤ l

theorem Numbered.largestSent_iff (h : s.Numbered sent) :
    s.largestSentPacketNumber.isSome = true ↔ sent ≠ [] := by
  constructor
  · intro hsome
    obtain ⟨l, hl⟩ := Option.isSome_iff_exists.1 hsome
    exact List.ne_nil_of_mem (h.largestSent l hl)
  · intro hne
    obtain ⟨q, hq⟩ := List.exists_mem_of_ne_nil _ hne
    obtain ⟨l, hl, _⟩ := h.tracks q hq
    rw [hl]
    rfl

theorem Numbered.of_same (h : s.Numbered sent)
    (hl : t.largestSentPacketNumber = s.largestSentPacketNumber)
    (hb : t.begSendNext = s.begSendNext) : t.Numbered sent where
  tracks := by
    unfold TracksSent
    rw [hl]
    exact h.tracks
  largestSent := by rw [hl]; exact h.largestSent
  begSendNext := by rw [hb]; exact h.begSendNext
  begSendNext_le := by rw [hl, hb]; exact h.begSendNext_le

/-- The next round begins with the largest sent packet. -/
theorem Numbered.of_nextRound (h : s.Numbered sent)
    (hl : t.largestSentPacketNumber = s.largestSentPacketNumber)
    (hb : t.begSendNext = s.largestSentPacketNumber) : t.Numbered sent where
  tracks := by
    unfold TracksSent
    rw [hl]
    exact h.tracks
  largestSent := by rw [hl]; exact h.largestSent
  begSendNext := by rw [hb]; exact h.largestSent_iff
  begSendNext_le := by
    intro b hb'
    rw [hb] at hb'
    exact ⟨b, hl.trans hb', Nat.le_refl b⟩

/-- `beg_send_next_` of `t` is not below the one of `s`. -/
def BegSendNextLe (s t : VegasSender φ) : Prop :=
  ∀ b, s.begSendNext = some b → ∃ b', t.begSendNext = some b' ∧ b ≤ b'

theorem BegSendNextLe.refl (s : VegasSender φ) : s.BegSendNextLe s :=
  fun b hb => ⟨b, hb, Nat.le_refl b⟩

theorem BegSendNextLe.trans (h : s.BegSendNextLe t) (h' : t.BegSendNextLe u) :
    s.BegSendNextLe u := by
  intro b hb
  have ⟨b', hb', hle⟩ := h b hb
  have ⟨b'', hb'', hle'⟩ := h' b' hb'
  exact ⟨b'', hb'', Nat.le_trans hle hle'⟩

theorem BegSendNextLe.of_same (hb : t.begSendNext = s.begSendNext) : s.BegSendNextLe t :=
  fun b hb' => ⟨b, hb.trans hb', Nat.le_refl b⟩

theorem Numbered.nextRound_le (h : s.Numbered sent)
    (hb : t.begSendNext = s.largestSentPacketNumber) : s.BegSendNextLe t := by
  intro b hb'
  have ⟨l, hl, hle⟩ := h.begSendNext_le b hb'
  exact ⟨l, hb.trans hl, hle⟩

theorem onPacketAcked_numbered {p : Nat} (hs : s.Numbered sent)
    (h : s.onPacketAcked F p = .ok t) : t.Numbered sent ∧ s.BegSendNextLe t := by
  rcases onPacketAcked_numbers h with hsame | ⟨_, hsame⟩
  · exact ⟨hs.of_same hsame.largestSent hsame.begSendNext, .of_same hsame.begSendNext⟩
  · exact ⟨hs.of_nextRound hsame.largestSent hsame.begSendNext,
      hs.nextRound_le hsame.begSendNext⟩

theorem switchMode_numbered (hs : s.Numbered sent) (before : Bool) :
    (s.switchMode before).Numbered sent ∧ s.BegSendNextLe (s.switchMode before) := by
  unfold switchMode
  split_ifs
  · exact ⟨hs, .refl s⟩
  · exact ⟨hs.of_same rfl rfl, .of_same rfl⟩
  · exact ⟨hs.of_nextRound rfl rfl, hs.nextRound_le rfl⟩

theorem losses_largestSent (s : VegasSender φ) (ps : List Nat) :
    (ps.foldl onPacketLost s).largestSentPacketNumber = s.largestSentPacketNumber := by
  apply losses_keep (I := fun u => u.largestSentPacketNumber = s.largestSentPacketNumber) rfl
  intro u hu p _ hcut
  rw [onPacketLost_of_cut hcut]
  exact hu

theorem beforeAcks_numbered (hs : s.Numbered sent) (ev : CongestionEvent) :
    (s.beforeAcks F ev).Numbered sent ∧ s.BegSendNextLe (s.beforeAcks F ev) := by
  have hsample := takeSample_markers (F := F) s ev
  have hround := beforeAcks_sameRound (F := F) s ev
  have hbeg : (s.takeSample F ev).begSendNext = s.begSendNext := by
    unfold takeSample
    split <;> rfl
  have hlost : (s.beforeAcks F ev).largestSentPacketNumber =
      (s.takeSample F ev).largestSentPacketNumber := losses_largestSent _ _
  have hsame := hround.begSendNext.trans hbeg
  exact ⟨hs.of_same (hlost.trans hsample.largestSent) hsame, .of_same hsame⟩

theorem onCongestionEvent_numbered {ev : CongestionEvent} (hs : s.Numbered sent)
    (h : s.onCongestionEvent F ev = .ok t) : t.Numbered sent ∧ s.BegSendNextLe t := by
  have ⟨u, hu, ht⟩ := onCongestionEvent_ok h
  have ⟨hbefore, hle⟩ := beforeAcks_numbered (F := F) hs ev
  have ⟨hacks, hacksLe⟩ : u.Numbered sent ∧ s.BegSendNextLe u :=
    run_keeps (I := fun u => u.Numbered sent ∧ s.BegSendNextLe u)
      (fun _ _ _ hi hp =>
        have hack := onPacketAcked_numbered hi.1 hp
        ⟨hack.1, hi.2.trans hack.2⟩) ⟨hbefore, hle⟩ hu
  have ⟨hmode, hmodeLe⟩ := switchMode_numbered hacks (s.takeSample F ev).inRecovery
  rw [ht]
  exact ⟨hmode, hacksLe.trans hmodeLe⟩

theorem onPacketSent_numbered {p : Nat} (hs : s.Numbered sent) (hp : ∀ q ∈ sent, q < p) :
    (s.onPacketSent p).Numbered (p :: sent) ∧ s.BegSendNextLe (s.onPacketSent p) := by
  have hbeg : (s.onPacketSent p).begSendNext = s.begSendNext.or (some p) := rfl
  have hle : ∀ b, s.begSendNext = some b → b ≤ p := by
    intro b hb
    obtain ⟨l, hl, hbl⟩ := hs.begSendNext_le b hb
    have hlp := hp l (hs.largestSent l hl)
    omega
  refine ⟨⟨onPacketSent_tracksSent hp, ?_, ?_, ?_⟩, ?_⟩
  · intro l hl
    rw [← Option.some.inj hl]
    exact List.mem_cons_self ..
  · rw [hbeg]
    simp
  · intro b hb
    refine ⟨p, rfl, ?_⟩
    rw [hbeg] at hb
    cases hold : s.begSendNext with
    | none =>
      rw [hold] at hb
      exact Nat.le_of_eq (Option.some.inj hb).symm
    | some b' =>
      rw [hold] at hb
      rw [← Option.some.inj hb]
      exact hle b' hold
  · intro b hb
    refine ⟨b, ?_, Nat.le_refl b⟩
    rw [hbeg, hb]
    rfl

theorem new_numbered (F : MinFilter φ) (initial maximum : Nat) :
    (new F initial maximum).Numbered [] :=
  ⟨by simp [TracksSent], by simp [new], by simp [new], by simp [new]⟩

/-! ## The samples -/

/-- An RTT that is finite and at least 1 µs. -/
def Divisor (rtt : Int) : Prop := 1 ≤ rtt ∧ rtt < kInfinite

/-- `rtt_count_` tells whether `min_rtt_` holds a sample, and the base RTT filter was
fed with the samples. -/
structure Sampled (F : MinFilter φ) (s : VegasSender φ) : Prop where
  rttCount : 0 < s.rttCount ↔ s.minRtt < kInfinite
  minRtt : 1 ≤ s.minRtt
  filter : ∃ H, s.baseRTTFilter = feed F (F.new kMinRTTWindowLength) H ∧
    (0 < s.rttCount → H ≠ []) ∧ ∀ e ∈ H, Divisor e.1

theorem Sampled.of_same (h : s.Sampled F) (hmin : t.minRtt = s.minRtt)
    (hcount : t.rttCount = s.rttCount) (hfilter : t.baseRTTFilter = s.baseRTTFilter) :
    t.Sampled F := by
  refine ⟨?_, ?_, ?_⟩
  · rw [hcount, hmin]
    exact h.rttCount
  · rw [hmin]
    exact h.minRtt
  · rw [hcount, hfilter]
    exact h.filter

theorem Sampled.of_restarted (h : s.Sampled F) (hnew : s.Restarted t) : t.Sampled F := by
  refine ⟨?_, ?_, ?_⟩
  · rw [hnew.rttCount, hnew.minRtt]
    simp
  · rw [hnew.minRtt]
    decide
  · rw [hnew.rttCount, hnew.baseRTTFilter]
    obtain ⟨H, hfed, _, hpos⟩ := h.filter
    exact ⟨H, hfed, by simp, hpos⟩

/-- Both divisors of a round with a sample are RTTs of at least 1 µs. -/
theorem Sampled.divisors (hF : FromSamples F kMinRTTWindowLength) (h : s.Sampled F)
    (hcount : 0 < s.rttCount) : Divisor s.minRtt ∧ Divisor (F.getBest s.baseRTTFilter) := by
  have ⟨H, hfed, hne, hpos⟩ := h.filter
  have ⟨e, he, hbest⟩ := hF H (hne hcount)
  refine ⟨⟨h.minRtt, h.rttCount.1 hcount⟩, ?_⟩
  rw [hfed, hbest]
  exact hpos e he

theorem takeSample_sampled (hs : s.Sampled F) {ev : CongestionEvent}
    (hrtt : FiniteRtt (.onCongestionEvent ev)) : (s.takeSample F ev).Sampled F := by
  unfold takeSample
  split
  · exact hs
  · have hmin := hs.minRtt
    have hsample : Divisor (vrtt ev) := ⟨by have hnonneg := hrtt.1; unfold vrtt; omega, hrtt.2⟩
    obtain ⟨H, hfed, _, hpos⟩ := hs.filter
    refine ⟨?_, ?_, H ++ [(vrtt ev, ev.eventTime)], ?_, ?_, ?_⟩
    · show 0 < s.rttCount + 1 ↔ (if vrtt ev < s.minRtt then vrtt ev else s.minRtt) < kInfinite
      have hfinite := hsample.2
      split <;> omega
    · show 1 ≤ if vrtt ev < s.minRtt then vrtt ev else s.minRtt
      have hpositive := hsample.1
      split <;> omega
    · show F.update s.baseRTTFilter (vrtt ev) ev.eventTime = _
      rw [feed_append, hfed]
    · intro _
      simp
    · intro e he
      rcases List.mem_append.1 he with he | he
      · exact hpos e he
      · rw [List.mem_singleton.1 he]
        exact hsample

theorem beforeAcks_sampled (hs : s.Sampled F) {ev : CongestionEvent}
    (hrtt : FiniteRtt (.onCongestionEvent ev)) : (s.beforeAcks F ev).Sampled F := by
  have hround := beforeAcks_sameRound (F := F) s ev
  exact (takeSample_sampled hs hrtt).of_same hround.minRtt hround.rttCount hround.baseRTTFilter

theorem onPacketAcked_sampled {p : Nat} (hs : s.Sampled F) (h : s.onPacketAcked F p = .ok t) :
    t.Sampled F := by
  rcases onPacketAcked_round h with ⟨_, _, hnew⟩ | ⟨_, hsame⟩
  · exact hs.of_restarted hnew
  · exact hs.of_same hsame.minRtt hsame.rttCount hsame.baseRTTFilter

theorem switchMode_sampled (hs : s.Sampled F) (before : Bool) :
    (s.switchMode before).Sampled F := by
  rcases switchMode_round before s with ⟨hmin, hcount, hfilter⟩ | hnew
  · exact hs.of_same hmin hcount hfilter
  · exact hs.of_restarted hnew

theorem onCongestionEvent_sampled {ev : CongestionEvent} (hs : s.Sampled F)
    (hrtt : FiniteRtt (.onCongestionEvent ev)) (h : s.onCongestionEvent F ev = .ok t) :
    t.Sampled F := by
  have ⟨u, hu, ht⟩ := onCongestionEvent_ok h
  have hacks : u.Sampled F :=
    run_keeps (I := Sampled F) (fun _ _ _ hi hp => onPacketAcked_sampled hi hp)
      (beforeAcks_sampled hs hrtt) hu
  rw [ht]
  exact switchMode_sampled hacks _

theorem new_sampled (F : MinFilter φ) (initial maximum : Nat) :
    (new F initial maximum).Sampled F :=
  ⟨by simp [new], by simp [new, kInfinite], [], rfl, by simp [new], by simp⟩

/-! ## The mode -/

/-- The Vegas mode is on outside of the recovery, and off inside of it. -/
def ModeAgrees (s : VegasSender φ) : Prop := s.vegasMode = !s.inRecovery

theorem onCongestionEvent_modeAgrees {ev : CongestionEvent} (hs : s.ModeAgrees)
    (h : s.onCongestionEvent F ev = .ok t) : t.ModeAgrees := by
  have ⟨u, hu, ht⟩ := onCongestionEvent_ok h
  have hmode : u.vegasMode = s.vegasMode := by
    have hacks : u.vegasMode = (s.beforeAcks F ev).vegasMode :=
      run_keeps (I := fun u => u.vegasMode = (s.beforeAcks F ev).vegasMode)
        (fun _ _ _ hi hp => (onPacketAcked_numbers hp).elim
          (fun hsame => hsame.vegasMode.trans hi)
          (fun hsame => hsame.2.vegasMode.trans hi)) rfl hu
    have hsample : (s.takeSample F ev).vegasMode = s.vegasMode := by
      unfold takeSample
      split <;> rfl
    exact hacks.trans ((beforeAcks_sameRound s ev).vegasMode.trans hsample)
  have hbefore : (s.takeSample F ev).inRecovery = s.inRecovery := by
    unfold takeSample
    split <;> rfl
  rw [ht, hbefore]
  unfold ModeAgrees at hs ⊢
  unfold switchMode
  split_ifs with hsame hrecovery
  · rw [hmode, hs, hsame]
  · show false = !u.inRecovery
    rw [hrecovery]
    rfl
  · show true = !u.inRecovery
    rw [Bool.not_eq_true] at hrecovery
    rw [hrecovery]
    rfl

/-! ## What can stop an event -/

/-- Where the ack of `p` divides by `min_rtt_` and by the base RTT
(`onPacketAcked_divisionByZero_iff`), both are finite and at least 1 µs. -/
def DividesSafely (F : MinFilter φ) (s : VegasSender φ) (p : Nat) : Prop :=
  s.EndsRound p → 2 < s.rttCount → Divisor s.minRtt ∧ Divisor (F.getBest s.baseRTTFilter)

theorem DividesSafely.ne_divisionByZero {p : Nat} (hdiv : s.DividesSafely F p) :
    s.onPacketAcked F p ≠ .error .divisionByZero := by
  intro h
  obtain ⟨hends, hcount, hzero⟩ := onPacketAcked_divisionByZero_iff.1 h
  obtain ⟨hmin, hbase⟩ := hdiv hends hcount
  rcases hzero with hzero | ⟨_, hzero⟩
  · exact absurd hzero (rttU64_ne_zero ⟨hmin.1, Int.le_of_lt hmin.2⟩)
  · exact absurd hzero (rttU64_ne_zero ⟨hbase.1, Int.le_of_lt hbase.2⟩)

/-- With a first packet and safe divisions, only the check of the base RTT is left. -/
theorem onPacketAcked_fault {p : Nat} {f : Fault} (hbeg : s.begSendNext.isSome = true)
    (hdiv : s.DividesSafely F p) (h : s.onPacketAcked F p = .error f) :
    f = .minRttBelowBaseRtt := by
  cases f with
  | begSendNextUninitialized =>
    rcases onPacketAcked_error h with ⟨hb, _⟩ | ⟨_, _, hround⟩
    · rw [hb] at hbeg
      exact absurd hbeg (by simp)
    · rcases endOfRound_error hround with ⟨_, hf⟩ | ⟨_, hf⟩ | ⟨_, _, hf⟩ <;>
        exact absurd hf (by decide)
  | divisionByZero => exact absurd h hdiv.ne_divisionByZero
  | minRttBelowBaseRtt => rfl

/-- Every ack of an event that names sent packets divides safely, after the first
packet was sent. -/
theorem acks_safe (hF : FromSamples F kMinRTTWindowLength) (hs : s.Numbered sent)
    (hsamples : s.Sampled F) {ps : List Nat} (hps : ps ⊆ sent) :
    Each (onPacketAcked F) (fun u p => u.begSendNext.isSome = true ∧ u.DividesSafely F p)
      s ps := by
  have hne : ∀ p ∈ ps, sent ≠ [] := fun p hp => List.ne_nil_of_mem (hps hp)
  apply each_of_each (I := fun u => u.Numbered sent ∧ u.Sampled F)
    (C := fun _ _ => sent ≠ []) ?_ ?_ ⟨hs, hsamples⟩ (each_of_forall_mem hne)
  · intro u p hu hsent
    refine ⟨hu.1.begSendNext.2 hsent, fun _ hcount => ?_⟩
    exact hu.2.divisors hF (by omega)
  · intro u p t hu _ h
    exact ⟨(onPacketAcked_numbered hu.1 h).1, onPacketAcked_sampled hu.2 h⟩

end VegasSender

open VegasSender

variable {φ : Type} {F : MinFilter φ}

/-! ## Steps -/

/-- The packets that an event names. -/
def named (ev : CongestionEvent) : List Nat := ev.ackedPackets ++ ev.lostPackets

/-- What holds between two calls, after the packets `sent`. -/
structure Good (F : MinFilter φ) (s : VegasSender φ) (sent : List Nat) : Prop where
  numbered : s.Numbered sent
  sampled : s.Sampled F
  mode : s.ModeAgrees

/-- The call is not stopped by the check of `beg_send_next_` or by a division, and all
its divisions are safe. -/
def StepSafe (F : MinFilter φ) (s : VegasSender φ) (op : VegasOp) : Prop :=
  vegasStep F s op ≠ .error .begSendNextUninitialized ∧
    vegasStep F s op ≠ .error .divisionByZero ∧
    ∀ ev, op = .onCongestionEvent ev →
      Each (onPacketAcked F) (DividesSafely F) (s.beforeAcks F ev) ev.ackedPackets

theorem vegasStep_good {s t : VegasSender φ} {op : VegasOp} {sent : List Nat}
    (hs : Good F s sent) (hop : InOrder named sent op) (hrtt : FiniteRtt op)
    (h : vegasStep F s op = .ok t) : Good F t (recordSent sent op) ∧ s.BegSendNextLe t := by
  cases op with
  | onPacketSent p =>
    obtain ⟨hnumbered, hle⟩ := onPacketSent_numbered hs.numbered hop
    rw [← Except.ok.inj h]
    exact ⟨⟨hnumbered, hs.sampled.of_same rfl rfl rfl, hs.mode⟩, hle⟩
  | onRetransmissionTimeout =>
    rw [← Except.ok.inj h]
    exact ⟨hs, .refl s⟩
  | setInitialCongestionWindowInPackets n =>
    rw [← Except.ok.inj h, setInitialCongestionWindowInPackets]
    split
    · exact ⟨⟨hs.numbered.of_same rfl rfl, hs.sampled.of_same rfl rfl rfl, hs.mode⟩, .of_same rfl⟩
    · exact ⟨hs, .refl s⟩
  | onCongestionEvent ev =>
    obtain ⟨hnumbered, hle⟩ := onCongestionEvent_numbered hs.numbered h
    exact ⟨⟨hnumbered, onCongestionEvent_sampled hs.sampled hrtt h,
      onCongestionEvent_modeAgrees hs.mode h⟩, hle⟩

theorem vegasStep_safe (hF : FromSamples F kMinRTTWindowLength) {s : VegasSender φ} {op : VegasOp}
    {sent : List Nat} (hs : Good F s sent) (hop : InOrder named sent op) (hrtt : FiniteRtt op) :
    StepSafe F s op := by
  cases op with
  | onPacketSent p => simp [StepSafe, vegasStep]
  | onRetransmissionTimeout => simp [StepSafe, vegasStep]
  | setInitialCongestionWindowInPackets n => simp [StepSafe, vegasStep]
  | onCongestionEvent ev =>
    have hacked : ev.ackedPackets ⊆ sent := fun p hp => hop (List.mem_append_left _ hp)
    have hsafe := acks_safe hF (beforeAcks_numbered (F := F) hs.numbered ev).1
      (beforeAcks_sampled hs.sampled hrtt) hacked
    have hfault : ∀ f, s.onCongestionEvent F ev = .error f → f = .minRttBelowBaseRtt := by
      intro f h
      rw [onCongestionEvent_error_iff] at h
      exact Each.fault (K := fun f => f = .minRttBelowBaseRtt)
        (hsafe.imp fun _ _ hp _ h => onPacketAcked_fault hp.1 hp.2 h) h
    refine ⟨fun h => ?_, fun h => ?_, ?_⟩
    · exact absurd (hfault _ h) (by decide)
    · exact absurd (hfault _ h) (by decide)
    · intro ev' hev
      rw [← VegasOp.onCongestionEvent.inj hev]
      exact hsafe.imp fun _ _ hp => hp.2

/-! ## Whole runs -/

theorem run_good {s t : VegasSender φ} {ops : List VegasOp} {sent : List Nat}
    (hs : Good F s sent) (hops : Orderly named sent ops) (hrtt : ∀ op ∈ ops, FiniteRtt op)
    (hrun : ops.foldlM (vegasStep F) s = .ok t) :
    Good F t (ops.foldl recordSent sent) ∧ s.BegSendNextLe t := by
  induction ops generalizing s sent with
  | nil =>
    rw [← run_nil_ok_iff.1 hrun]
    exact ⟨hs, .refl s⟩
  | cons op ops ih =>
    obtain ⟨u, hstep, hrun⟩ := run_cons_ok_iff.1 hrun
    obtain ⟨hu, hle⟩ := vegasStep_good hs hops.1 (hrtt op (List.mem_cons_self ..)) hstep
    obtain ⟨ht, hle'⟩ := ih hu hops.2 (fun o ho => hrtt o (List.mem_cons_of_mem _ ho)) hrun
    exact ⟨ht, hle.trans hle'⟩

theorem each_safe (hF : FromSamples F kMinRTTWindowLength) {s : VegasSender φ} {ops : List VegasOp}
    {sent : List Nat} (hs : Good F s sent) (hops : Orderly named sent ops)
    (hrtt : ∀ op ∈ ops, FiniteRtt op) : Each (vegasStep F) (StepSafe F) s ops := by
  induction ops generalizing s sent with
  | nil => trivial
  | cons op ops ih =>
    have hop := hrtt op (List.mem_cons_self ..)
    refine ⟨vegasStep_safe hF hs hops.1 hop, fun t ht => ?_⟩
    have hu := (vegasStep_good hs hops.1 hop ht).1
    exact ih hu hops.2 fun o ho => hrtt o (List.mem_cons_of_mem _ ho)

theorem orderly_append {named : CongestionEvent → List Nat} {sent : List Nat}
    {ops ops' : List VegasOp} :
    Orderly named sent (ops ++ ops') ↔
      Orderly named sent ops ∧ Orderly named (ops.foldl recordSent sent) ops' := by
  induction ops generalizing sent with
  | nil => simp [Orderly]
  | cons op ops ih => simp [Orderly, ih, and_assoc]

theorem mem_foldl_recordSent {ops : List VegasOp} {sent : List Nat} {p : Nat} :
    p ∈ ops.foldl recordSent sent ↔ p ∈ sent ∨ .onPacketSent p ∈ ops := by
  induction ops generalizing sent with
  | nil => simp
  | cons op ops ih =>
    rw [List.foldl_cons, ih]
    cases op with
    | onPacketSent q => simp [recordSent]; tauto
    | _ => simp [recordSent]

/-- What a run shows of the sender between two calls, after the calls `ops`. -/
structure Coherent (s : VegasSender φ) (ops : List VegasOp) : Prop where
  mode : s.vegasMode = !s.inRecovery
  begSendNext : s.begSendNext.isSome = true ↔ ∃ p, .onPacketSent p ∈ ops
  begSendNext_le : ∀ b, s.begSendNext = some b →
    ∃ l, s.largestSentPacketNumber = some l ∧ b ≤ l
  samples : 0 < s.rttCount ↔ s.minRtt < kInfinite

theorem Good.coherent {s : VegasSender φ} {ops : List VegasOp}
    (h : Good F s (ops.foldl recordSent [])) : Coherent s ops := by
  refine ⟨h.mode, ?_, h.numbered.begSendNext_le, h.sampled.rttCount⟩
  rw [h.numbered.begSendNext]
  constructor
  · intro hne
    obtain ⟨p, hp⟩ := List.exists_mem_of_ne_nil _ hne
    exact ⟨p, (mem_foldl_recordSent.1 hp).resolve_left (by simp)⟩
  · intro hsent
    have ⟨p, hp⟩ := hsent
    exact List.ne_nil_of_mem (mem_foldl_recordSent.2 (Or.inr hp))

/-- In a run that sends packets in the order of their numbers, whose events name sent
packets and whose RTTs are finite and not negative, the mode is the opposite of the
recovery between two calls, `beg_send_next_` is initialised with the first packet,
never decreases and is never above the largest sent packet, and `rtt_count_` tells
whether `min_rtt_` is finite.  So the check of `beg_send_next_` never fails, and each
division is by a finite RTT of at least 1 µs. -/
theorem vegas_coherent (F : MinFilter φ) (hF : FromSamples F kMinRTTWindowLength)
    (initial maximum : Nat) (ops : List VegasOp) (hops : Orderly named [] ops)
    (hrtt : ∀ op ∈ ops, FiniteRtt op) :
    (∀ (ops₁ ops₂ ops₃ : List VegasOp) (s t : VegasSender φ), ops = ops₁ ++ (ops₂ ++ ops₃) →
      ops₁.foldlM (vegasStep F) (new F initial maximum) = .ok s →
      ops₂.foldlM (vegasStep F) s = .ok t → Coherent s ops₁ ∧ s.BegSendNextLe t) ∧
    Each (vegasStep F) (StepSafe F) (new F initial maximum) ops := by
  have hnew : Good F (new F initial maximum) [] :=
    ⟨new_numbered F initial maximum, new_sampled F initial maximum, rfl⟩
  refine ⟨?_, each_safe hF hnew hops hrtt⟩
  intro ops₁ ops₂ ops₃ s t hsplit hs ht
  rw [hsplit] at hops hrtt
  have ⟨hops₁, hrest⟩ := orderly_append.1 hops
  have ⟨hops₂, _⟩ := orderly_append.1 hrest
  have hgood := (run_good hnew hops₁ (fun op hop => hrtt op (List.mem_append_left _ hop)) hs).1
  refine ⟨hgood.coherent, (run_good hgood hops₂ (fun op hop => ?_) ht).2⟩
  exact hrtt op (List.mem_append_right _ (List.mem_append_left _ hop))

/-- A loss takes the sender to the recovery, and the acks of later packets out of it. -/
def recovery : List VegasOp :=
  [.onPacketSent 1, .onPacketSent 2, .onCongestionEvent ⟨10000, 10000, [2], [1]⟩,
    .onPacketSent 3, .onCongestionEvent ⟨10000, 20000, [3], []⟩]

theorem vegas_coherent_recovery :
    (∀ (ops₁ ops₂ ops₃ : List VegasOp) (s t : VegasSender SlidingMin),
      recovery = ops₁ ++ (ops₂ ++ ops₃) →
      ops₁.foldlM (vegasStep slidingMin) (new slidingMin 10 2000) = .ok s →
      ops₂.foldlM (vegasStep slidingMin) s = .ok t → Coherent s ops₁ ∧ s.BegSendNextLe t) ∧
    Each (vegasStep slidingMin) (StepSafe slidingMin) (new slidingMin 10 2000) recovery := by
  apply vegas_coherent
  · exact slidingMin_fromSamples kMinRTTWindowLength
  · simp [recovery, Orderly, InOrder, recordSent, named]
  · simp [recovery, FiniteRtt, vrtt, kInfinite]

end QuicOnNs3.CcAlgo.Vegas
