import QuicOnNs3.CcAlgo.VegasSender

/-!
# The base RTT check of the Vegas sender

`min_rtt_` is the least RTT sample of the current round, and `base_rtt` is what
the filter answers for the last 10 s.  `OnPacketAcked` checks at the end of a
round that the first is not below the second.

The sender is run beside the list of all its samples (`monitorStep`).  The samples
of the round are the newest `rtt_count_` of them (`Monitored.Good`), so the check
compares the filter with those samples.  A round may last longer than the 10 s of
the filter, and `min_rtt_check_iff` says when that does no harm.
-/

namespace QuicOnNs3.CcAlgo.Vegas

open QuicOnNs3.WindowedFilter QuicOnNs3.Execution

namespace VegasSender

variable {φ : Type} {F : MinFilter φ} {s t u : VegasSender φ}

/-! ## What keeps the round -/

/-- `t` is in the round of `s`, with the same samples. -/
structure SameRound (s t : VegasSender φ) : Prop where
  vegasMode : t.vegasMode = s.vegasMode
  begSendNext : t.begSendNext = s.begSendNext
  minRtt : t.minRtt = s.minRtt
  rttCount : t.rttCount = s.rttCount
  baseRTTFilter : t.baseRTTFilter = s.baseRTTFilter

theorem SameRound.refl (s : VegasSender φ) : s.SameRound s := ⟨rfl, rfl, rfl, rfl, rfl⟩

theorem SameRound.trans (h : s.SameRound t) (h' : t.SameRound u) : s.SameRound u :=
  ⟨h'.1.trans h.1, h'.2.trans h.2, h'.3.trans h.3, h'.4.trans h.4, h'.5.trans h.5⟩

theorem SameRound.endsRound_iff (h : s.SameRound t) (p : Nat) : t.EndsRound p ↔ s.EndsRound p := by
  unfold EndsRound
  rw [h.vegasMode, h.begSendNext]

theorem onPacketLost_sameRound (s : VegasSender φ) (p : Nat) : s.SameRound (s.onPacketLost p) := by
  unfold onPacketLost
  split
  · exact SameRound.refl s
  · exact ⟨rfl, rfl, rfl, rfl, rfl⟩

theorem beforeAcks_sameRound (s : VegasSender φ) (ev : CongestionEvent) :
    (s.takeSample F ev).SameRound (s.beforeAcks F ev) := by
  apply losses_keep (I := (s.takeSample F ev).SameRound) (SameRound.refl _)
  intro u hu p _ _
  exact hu.trans (onPacketLost_sameRound u p)

theorem reno_sameRound (s : VegasSender φ) : s.SameRound s.increaseCongestionWindowAsReno := by
  unfold increaseCongestionWindowAsReno
  simp only
  split_ifs <;> exact ⟨rfl, rfl, rfl, rfl, rfl⟩

/-- The end of a round that passes the check writes the window and the threshold only. -/
theorem endOfRound_ok {baseRtt : Int} (h : s.endOfRound baseRtt = .ok t) :
    baseRtt ≤ s.minRtt ∧ s.SameRound t := by
  have ⟨hcheck, _, _, ht⟩ := endOfRound_fields h
  rw [ht]
  exact ⟨hcheck, ⟨rfl, rfl, rfl, rfl, rfl⟩⟩

theorem adjustWindow_ok (h : s.adjustWindow F = .ok t) :
    (2 < s.rttCount → F.getBest s.baseRTTFilter ≤ s.minRtt) ∧ s.SameRound t := by
  unfold adjustWindow at h
  split at h
  · rename_i hcount
    obtain rfl := Except.ok.inj h
    exact ⟨fun h2 => absurd h2 (Nat.not_lt.2 hcount), reno_sameRound s⟩
  · exact ⟨fun _ => (endOfRound_ok h).1, (endOfRound_ok h).2⟩

/-! ## One ack -/

/-- The sender has started a round without samples, with the same filter. -/
structure Restarted (s t : VegasSender φ) : Prop where
  minRtt : t.minRtt = kInfinite
  rttCount : t.rttCount = 0
  baseRTTFilter : t.baseRTTFilter = s.baseRTTFilter

/-- An ack that goes through passes the check and starts the next round, or it
leaves the round as it is. -/
theorem onPacketAcked_round {p : Nat} (h : s.onPacketAcked F p = .ok t) :
    (s.EndsRound p ∧ (2 < s.rttCount → F.getBest s.baseRTTFilter ≤ s.minRtt) ∧ s.Restarted t) ∨
      (¬ s.EndsRound p ∧ s.SameRound t) := by
  rcases onPacketAcked_ok h with ⟨hmode, rfl⟩ | ⟨hends, u, hu, rfl⟩ | ⟨-, hends, rfl⟩
  · have hreno := reno_sameRound (s.recordAck p)
    refine Or.inr ⟨fun hends => ?_, ⟨hreno.1, hreno.2, hreno.3, hreno.4, hreno.5⟩⟩
    exact absurd hends.1 (by simp [hmode])
  · obtain ⟨hcheck, hsame⟩ := adjustWindow_ok hu
    exact Or.inl ⟨hends, hcheck, ⟨rfl, rfl, hsame.baseRTTFilter⟩⟩
  · refine Or.inr ⟨hends, ?_⟩
    split_ifs <;> exact ⟨rfl, rfl, rfl, rfl, rfl⟩

/-- An RTT that `int64` microseconds hold and that is not zero. -/
def PositiveRtt (rtt : Int) : Prop := 0 < rtt ∧ rtt ≤ kInfinite

theorem positiveRtt_kInfinite : PositiveRtt kInfinite := by
  unfold PositiveRtt kInfinite
  omega

theorem rttU64_ne_zero {rtt : Int} (h : PositiveRtt rtt) : rttU64 rtt ≠ 0 := by
  obtain ⟨hpos, hle⟩ := h
  unfold kInfinite at hle
  unfold rttU64
  omega

/-- An ack stops the program without a first packet, or at the end of a round of
more than two samples: at the check, or after it. -/
theorem onPacketAcked_stops {p : Nat} {f : Fault} (hmin : PositiveRtt s.minRtt)
    (h : s.onPacketAcked F p = .error f) :
    (f = .begSendNextUninitialized ∧ s.begSendNext = none) ∨
      (s.EndsRound p ∧ 2 < s.rttCount ∧ f = .minRttBelowBaseRtt ∧
        s.minRtt < F.getBest s.baseRTTFilter) ∨
      (f = .divisionByZero ∧ F.getBest s.baseRTTFilter ≤ s.minRtt) := by
  rcases onPacketAcked_error h with ⟨hb, hf⟩ | ⟨hends, hcount, hround⟩
  · exact Or.inl ⟨hf, hb⟩
  · rcases endOfRound_error hround with ⟨hzero, _⟩ | ⟨hlt, hf⟩ | ⟨hle, _, hf⟩
    · exact absurd hzero (rttU64_ne_zero hmin)
    · exact Or.inr (Or.inl ⟨hends, hcount, hf, hlt⟩)
    · exact Or.inr (Or.inr ⟨hf, hle⟩)

/-- The acks of an event fail the check exactly when they end a round of more than
two samples with `min_rtt_` below the base RTT. -/
theorem acks_check_iff {ps : List Nat} (hmin : PositiveRtt s.minRtt) :
    ps.foldlM (onPacketAcked F) s = .error .minRttBelowBaseRtt ↔
      (∃ p ∈ ps, s.EndsRound p) ∧ 2 < s.rttCount ∧ s.minRtt < F.getBest s.baseRTTFilter := by
  induction ps generalizing s with
  | nil => simp [pure, Except.pure]
  | cons p ps ih =>
    rw [run_cons_error_iff]
    cases hp : s.onPacketAcked F p with
    | error f =>
      simp only [Except.error.injEq, reduceCtorEq, false_and, exists_false, or_false]
      rcases onPacketAcked_stops hmin hp with ⟨rfl, hb⟩ | ⟨hends, hcount, rfl, hlt⟩ | ⟨rfl, hle⟩
      · refine iff_of_false (by simp) ?_
        rintro ⟨⟨q, -, -, b, hb', -⟩, -⟩
        simp [hb] at hb'
      · exact iff_of_true rfl ⟨⟨p, by simp, hends⟩, hcount, hlt⟩
      · exact iff_of_false (by simp) fun h => absurd h.2.2 (Int.not_lt.2 hle)
    | ok t =>
      simp only [reduceCtorEq, Except.ok.injEq, exists_eq_left', false_or]
      rcases onPacketAcked_round hp with ⟨hends, hcheck, hnew⟩ | ⟨hends, hsame⟩
      · rw [ih (by rw [hnew.minRtt]; exact positiveRtt_kInfinite)]
        refine iff_of_false ?_ fun h => absurd (hcheck h.2.1) (Int.not_le.2 h.2.2)
        rw [hnew.rttCount]
        exact fun h => absurd h.2.1 (by decide)
      · rw [ih (by rw [hsame.minRtt]; exact hmin), hsame.rttCount, hsame.minRtt,
          hsame.baseRTTFilter]
        simp [hsame.endsRound_iff, hends]

/-- The acks of an event keep the round, or start another one. -/
theorem acks_round {ps : List Nat} (h : ps.foldlM (onPacketAcked F) s = .ok t) :
    s.SameRound t ∨ s.Restarted t := by
  apply run_keeps (I := fun u => s.SameRound u ∨ s.Restarted u) _ (Or.inl (SameRound.refl s)) h
  intro u p v hu hp
  have hbase : u.baseRTTFilter = s.baseRTTFilter := hu.elim (·.baseRTTFilter) (·.baseRTTFilter)
  rcases onPacketAcked_round hp with ⟨_, _, hnew⟩ | ⟨_, hsame⟩
  · exact Or.inr ⟨hnew.minRtt, hnew.rttCount, hnew.baseRTTFilter.trans hbase⟩
  · rcases hu with hu | hu
    · exact Or.inl (hu.trans hsame)
    · exact Or.inr ⟨hsame.minRtt.trans hu.minRtt, hsame.rttCount.trans hu.rttCount,
        hsame.baseRTTFilter.trans hbase⟩

theorem switchMode_round (before : Bool) (s : VegasSender φ) :
    ((s.switchMode before).minRtt = s.minRtt ∧ (s.switchMode before).rttCount = s.rttCount ∧
      (s.switchMode before).baseRTTFilter = s.baseRTTFilter) ∨
    s.Restarted (s.switchMode before) := by
  unfold switchMode
  split_ifs
  · exact Or.inl ⟨rfl, rfl, rfl⟩
  · exact Or.inl ⟨rfl, rfl, rfl⟩
  · exact Or.inr ⟨rfl, rfl, rfl⟩

end VegasSender

open VegasSender

variable {φ : Type} {F : MinFilter φ}

/-! ## The sender beside its samples -/

/-- The sender with all its RTT samples and their times, the newest first. -/
structure Monitored (φ : Type) where
  sender : VegasSender φ
  samples : List (Int × Nat) := []

/-- The samples after a call. -/
def record (samples : List (Int × Nat)) : VegasOp → List (Int × Nat)
  | .onCongestionEvent ev =>
    if ev.ackedPackets = [] then samples else (vrtt ev, ev.eventTime) :: samples
  | _ => samples

/-- One step of the sender, with its sample. -/
def monitorStep (F : MinFilter φ) (m : Monitored φ) (op : VegasOp) : Except Fault (Monitored φ) :=
  (vegasStep F m.sender op).map fun s => { sender := s, samples := record m.samples op }

/-- The answer of the base RTT filter after these samples. -/
def baseRtt (F : MinFilter φ) (samples : List (Int × Nat)) : Int :=
  F.getBest (feed F (F.new kMinRTTWindowLength) samples.reverse)

/-- The least of the samples. -/
def leastRtt (samples : List (Int × Nat)) : Int :=
  samples.foldr (fun e m => min e.1 m) kInfinite

theorem le_leastRtt_iff {samples : List (Int × Nat)} {r : Int} :
    r ≤ leastRtt samples ↔ r ≤ kInfinite ∧ ∀ e ∈ samples, r ≤ e.1 := by
  induction samples with
  | nil => simp [leastRtt]
  | cons e es ih =>
    have hcons : leastRtt (e :: es) = min e.1 (leastRtt es) := rfl
    rw [hcons, le_min_iff, ih, List.forall_mem_cons]
    exact and_left_comm

/-- `min_rtt_` is the least of the newest `rtt_count_` samples, and the filter was
fed all of them. -/
structure Monitored.Good (F : MinFilter φ) (m : Monitored φ) : Prop where
  rttCount : m.sender.rttCount ≤ m.samples.length
  minRtt : m.sender.minRtt = leastRtt (m.samples.take m.sender.rttCount)
  baseRTTFilter : m.sender.baseRTTFilter =
    feed F (F.new kMinRTTWindowLength) m.samples.reverse
  positive : ∀ e ∈ m.samples, PositiveRtt e.1

theorem Monitored.Good.minRtt_positive {m : Monitored φ} (hg : m.Good F) :
    PositiveRtt m.sender.minRtt := by
  rw [hg.minRtt]
  have hpos : ∀ e ∈ m.samples.take m.sender.rttCount, PositiveRtt e.1 :=
    fun e he => hg.positive e (List.mem_of_mem_take he)
  generalize m.samples.take m.sender.rttCount = samples at hpos
  induction samples with
  | nil => exact positiveRtt_kInfinite
  | cons e es ih =>
    have htail := ih fun e' he' => hpos e' (List.mem_cons_of_mem _ he')
    have hhead := hpos e (List.mem_cons_self ..)
    exact ⟨lt_min hhead.1 htail.1, Int.le_trans (min_le_left _ _) hhead.2⟩

theorem new_good (F : MinFilter φ) (initial maximum : Nat) :
    Monitored.Good F { sender := new F initial maximum } :=
  ⟨Nat.zero_le _, rfl, rfl, by simp⟩

/-- A sender with the round of a good one, or with a new one, is good. -/
theorem Monitored.Good.of_round {s t : VegasSender φ} {samples : List (Int × Nat)}
    (hg : Monitored.Good F ⟨s, samples⟩)
    (h : (t.minRtt = s.minRtt ∧ t.rttCount = s.rttCount ∧ t.baseRTTFilter = s.baseRTTFilter) ∨
      s.Restarted t) : Monitored.Good F ⟨t, samples⟩ := by
  rcases h with ⟨hmin, hcount, hfilter⟩ | hnew
  · exact ⟨hcount ▸ hg.rttCount, hmin.trans (hcount ▸ hg.minRtt),
      hfilter.trans hg.baseRTTFilter, hg.positive⟩
  · refine ⟨?_, ?_, hnew.baseRTTFilter.trans hg.baseRTTFilter, hg.positive⟩
    · show t.rttCount ≤ _
      rw [hnew.rttCount]
      exact Nat.zero_le _
    · show t.minRtt = leastRtt (samples.take t.rttCount)
      rw [hnew.minRtt, hnew.rttCount]
      rfl

/-- The RTT of an event is not negative, and it is finite. -/
def FiniteRtt : VegasOp → Prop
  | .onCongestionEvent ev => 0 ≤ ev.latestRtt ∧ vrtt ev < kInfinite
  | _ => True

theorem takeSample_good {m : Monitored φ} (hg : m.Good F) {ev : CongestionEvent}
    (hop : FiniteRtt (.onCongestionEvent ev)) :
    Monitored.Good F ⟨m.sender.takeSample F ev, record m.samples (.onCongestionEvent ev)⟩ := by
  by_cases hacked : ev.ackedPackets = []
  · simpa [takeSample, record, hacked] using hg
  · simp only [takeSample, record, if_neg hacked]
    refine ⟨Nat.succ_le_succ hg.rttCount, ?_, ?_, ?_⟩
    · show (if vrtt ev < m.sender.minRtt then vrtt ev else m.sender.minRtt) =
        min (vrtt ev) (leastRtt (m.samples.take m.sender.rttCount))
      rw [← hg.minRtt]
      split <;> omega
    · show F.update m.sender.baseRTTFilter (vrtt ev) ev.eventTime = _
      rw [List.reverse_cons, feed_append, ← hg.baseRTTFilter]
    · refine List.forall_mem_cons.2 ⟨?_, hg.positive⟩
      obtain ⟨hnonneg, hfinite⟩ := hop
      exact ⟨by unfold vrtt; omega, Int.le_of_lt hfinite⟩

theorem beforeAcks_good {m : Monitored φ} (hg : m.Good F) {ev : CongestionEvent}
    (hop : FiniteRtt (.onCongestionEvent ev)) :
    Monitored.Good F ⟨m.sender.beforeAcks F ev, record m.samples (.onCongestionEvent ev)⟩ := by
  have hsame := beforeAcks_sameRound (F := F) m.sender ev
  exact (takeSample_good hg hop).of_round
    (Or.inl ⟨hsame.minRtt, hsame.rttCount, hsame.baseRTTFilter⟩)

theorem monitorStep_ok {m m' : Monitored φ} {op : VegasOp} (h : monitorStep F m op = .ok m') :
    vegasStep F m.sender op = .ok m'.sender ∧ m'.samples = record m.samples op := by
  unfold monitorStep at h
  cases hs : vegasStep F m.sender op with
  | error f => simp [hs, Except.map] at h
  | ok s =>
    simp only [hs, Except.map, Except.ok.injEq] at h
    rw [← h]
    exact ⟨rfl, rfl⟩

theorem monitorStep_good {m m' : Monitored φ} {op : VegasOp} (hg : m.Good F)
    (hop : FiniteRtt op) (h : monitorStep F m op = .ok m') : m'.Good F := by
  obtain ⟨t, samples⟩ := m'
  obtain ⟨hs, hsamples⟩ := monitorStep_ok h
  simp only at hs hsamples
  rw [hsamples]
  cases op with
  | onPacketSent p =>
    obtain rfl := Except.ok.inj hs
    exact hg.of_round (Or.inl ⟨rfl, rfl, rfl⟩)
  | onRetransmissionTimeout =>
    obtain rfl := Except.ok.inj hs
    exact hg
  | setInitialCongestionWindowInPackets n =>
    obtain rfl := Except.ok.inj hs
    refine hg.of_round (Or.inl ?_)
    unfold setInitialCongestionWindowInPackets
    split <;> exact ⟨rfl, rfl, rfl⟩
  | onCongestionEvent ev =>
    obtain ⟨u, hu, rfl⟩ := onCongestionEvent_ok hs
    refine Monitored.Good.of_round ?_ (switchMode_round _ u)
    refine (beforeAcks_good hg hop).of_round ?_
    rcases acks_round hu with hsame | hnew
    · exact Or.inl ⟨hsame.minRtt, hsame.rttCount, hsame.baseRTTFilter⟩
    · exact Or.inr hnew

/-! ## The check -/

/-- The event ends a round in which more than two samples were taken. -/
def EndsLongRound (s : VegasSender φ) (ev : CongestionEvent) : Prop :=
  (∃ p ∈ ev.ackedPackets, s.EndsRound p) ∧ 2 < s.rttCount + 1

/-- Where the call ends a round of more than two samples, the base RTT filter,
which was fed all samples so far, answers with at most each sample of the round. -/
def RoundCovered (F : MinFilter φ) (m : Monitored φ) (op : VegasOp) : Prop :=
  ∀ ev, op = .onCongestionEvent ev → EndsLongRound m.sender ev →
    ∀ e ∈ (record m.samples op).take (m.sender.rttCount + 1),
      baseRtt F (record m.samples op) ≤ e.1

theorem onCongestionEvent_error_iff (s : VegasSender φ) (ev : CongestionEvent) (f : Fault) :
    s.onCongestionEvent F ev = .error f ↔
      ev.ackedPackets.foldlM (onPacketAcked F) (s.beforeAcks F ev) = .error f := by
  unfold onCongestionEvent
  simp only
  rw [bind_error_iff]
  simp

/-- The round with the sample of an event that ends it. -/
theorem beforeAcks_endsLongRound (s : VegasSender φ) (ev : CongestionEvent) :
    (∃ p ∈ ev.ackedPackets, (s.beforeAcks F ev).EndsRound p) ∧ 2 < (s.beforeAcks F ev).rttCount ↔
      EndsLongRound s ev := by
  have hsame := beforeAcks_sameRound (F := F) s ev
  by_cases hacked : ev.ackedPackets = []
  · simp [EndsLongRound, hacked]
  · have hcount : (s.beforeAcks F ev).rttCount = s.rttCount + 1 := by
      rw [hsame.rttCount]
      simp [takeSample, hacked]
    have hends : ∀ p, (s.takeSample F ev).EndsRound p ↔ s.EndsRound p := by
      intro p
      simp [takeSample, hacked, EndsRound]
    unfold EndsLongRound
    simp only [hcount, hsame.endsRound_iff, hends]

theorem monitorStep_check_iff {m : Monitored φ} {op : VegasOp} (hg : m.Good F)
    (hop : FiniteRtt op) :
    vegasStep F m.sender op ≠ .error .minRttBelowBaseRtt ↔ RoundCovered F m op := by
  cases op with
  | onPacketSent p => simp [vegasStep, RoundCovered]
  | onRetransmissionTimeout => simp [vegasStep, RoundCovered]
  | setInitialCongestionWindowInPackets n => simp [vegasStep, RoundCovered]
  | onCongestionEvent ev =>
    have hu := beforeAcks_good hg hop
    have hcheck : vegasStep F m.sender (.onCongestionEvent ev) = .error .minRttBelowBaseRtt ↔
        EndsLongRound m.sender ev ∧
          (m.sender.beforeAcks F ev).minRtt <
            F.getBest (m.sender.beforeAcks F ev).baseRTTFilter := by
      rw [vegasStep, onCongestionEvent_error_iff, acks_check_iff hu.minRtt_positive, ← and_assoc,
        beforeAcks_endsLongRound]
    rw [Ne, hcheck, not_and]
    have hround : RoundCovered F m (.onCongestionEvent ev) ↔ (EndsLongRound m.sender ev →
        ∀ e ∈ (record m.samples (.onCongestionEvent ev)).take (m.sender.rttCount + 1),
          baseRtt F (record m.samples (.onCongestionEvent ev)) ≤ e.1) := by
      simp [RoundCovered]
    rw [hround]
    refine imp_congr_right fun hends => ?_
    have hacked : ev.ackedPackets ≠ [] := by
      obtain ⟨⟨p, hp, -⟩, -⟩ := hends
      exact List.ne_nil_of_mem hp
    have hcount : (m.sender.beforeAcks F ev).rttCount = m.sender.rttCount + 1 := by
      rw [(beforeAcks_sameRound m.sender ev).rttCount]
      simp [takeSample, hacked]
    have hmin := hu.minRtt
    have hfilter := hu.baseRTTFilter
    simp only [hcount] at hmin hfilter
    rw [hmin, hfilter, Int.not_lt, le_leastRtt_iff]
    refine and_iff_right_of_imp fun hle => ?_
    have hhead : (vrtt ev, ev.eventTime) ∈
        (record m.samples (.onCongestionEvent ev)).take (m.sender.rttCount + 1) := by
      simp [record, hacked]
    exact Int.le_trans (hle _ hhead) (Int.le_of_lt hop.2)

/-- The run of the sender, and the one beside its samples. -/
theorem each_monitorStep (Q : VegasSender φ → VegasOp → Prop) (m : Monitored φ)
    (ops : List VegasOp) :
    Each (vegasStep F) Q m.sender ops ↔
      Each (monitorStep F) (fun m op => Q m.sender op) m ops := by
  apply each_proj
  intro m op
  unfold monitorStep
  cases vegasStep F m.sender op <;> rfl

/-! ## With an exact filter -/

/-- Where the call ends a round of more than two samples, each sample of the round
is matched by a sample of the last 10 s that is not above it. -/
def RoundRecent (m : Monitored φ) (op : VegasOp) : Prop :=
  ∀ ev, op = .onCongestionEvent ev → EndsLongRound m.sender ev →
    ∀ e ∈ (record m.samples op).take (m.sender.rttCount + 1),
      ∃ e' ∈ record m.samples op, ev.eventTime ≤ e'.2 + kMinRTTWindowLength ∧ e'.1 ≤ e.1

/-- A round that was sampled within 10 s is matched by its own samples. -/
theorem roundRecent_of_short {m : Monitored φ} {op : VegasOp}
    (h : ∀ ev, op = .onCongestionEvent ev →
      ∀ e ∈ (record m.samples op).take (m.sender.rttCount + 1),
        ev.eventTime ≤ e.2 + kMinRTTWindowLength) : RoundRecent m op :=
  fun ev hop _ e he => ⟨e, List.mem_of_mem_take he, h ev hop e he, Int.le_refl _⟩

/-- The samples are in the order of their times, the newest first. -/
def Ordered (samples : List (Int × Nat)) : Prop := samples.Pairwise fun e e' => e'.2 ≤ e.2

/-- The call is not before any sample. -/
def NotBefore (m : Monitored φ) (op : VegasOp) : Prop :=
  ∀ ev, op = .onCongestionEvent ev → ∀ e ∈ m.samples, e.2 ≤ ev.eventTime

theorem record_ordered {m : Monitored φ} {op : VegasOp} (h : Ordered m.samples)
    (hop : NotBefore m op) : Ordered (record m.samples op) := by
  cases op with
  | onCongestionEvent ev =>
    by_cases hacked : ev.ackedPackets = []
    · simpa [record, hacked] using h
    · simp only [record, if_neg hacked]
      exact List.pairwise_cons.2 ⟨hop ev rfl, h⟩
  | _ => exact h

theorem roundCovered_iff_recent (hF : ExactMin F kMinRTTWindowLength) {m : Monitored φ}
    {op : VegasOp} (h : Ordered (record m.samples op)) :
    RoundCovered F m op ↔ RoundRecent m op := by
  unfold RoundCovered RoundRecent
  refine forall_congr' fun ev => imp_congr_right fun hop => imp_congr_right fun hends => ?_
  obtain ⟨⟨p, hp, -⟩, -⟩ := hends
  have hsamples : (record m.samples op).reverse =
      m.samples.reverse ++ [(vrtt ev, ev.eventTime)] := by
    rw [hop]
    simp [record, List.ne_nil_of_mem hp]
  have hmem : ∀ e, e ∈ record m.samples op ↔
      e ∈ m.samples.reverse ++ [(vrtt ev, ev.eventTime)] := by
    intro e
    rw [← hsamples, List.mem_reverse]
  have hsorted := List.pairwise_reverse.2 h
  rw [hsamples] at hsorted
  unfold baseRtt
  rw [hsamples]
  refine forall_congr' fun e => imp_congr_right fun _ => ⟨fun hle => ?_, ?_⟩
  · obtain ⟨e', he', hrecent, hbest⟩ := hF.recent _ _ _ hsorted
    exact ⟨e', (hmem e').2 he', hrecent, hbest ▸ hle⟩
  · rintro ⟨e', he', hrecent, hle⟩
    exact Int.le_trans (hF.le_window _ _ _ hsorted e' ((hmem e').1 he') hrecent) hle

/-- The times of the events. -/
def eventTimes (ops : List VegasOp) : List Nat :=
  ops.filterMap fun
    | .onCongestionEvent ev => some ev.eventTime
    | _ => none

theorem mem_record {samples : List (Int × Nat)} {op : VegasOp} {e : Int × Nat}
    (h : e ∈ record samples op) : e ∈ samples ∨ e.2 ∈ eventTimes [op] := by
  cases op with
  | onCongestionEvent ev =>
    by_cases hacked : ev.ackedPackets = []
    · exact Or.inl (by simpa [record, hacked] using h)
    · simp only [record, if_neg hacked] at h
      rcases List.mem_cons.1 h with rfl | h
      · exact Or.inr (by simp [eventTimes])
      · exact Or.inl h
  | _ => exact Or.inl h

/-- In a run whose event times do not decrease, no event is before a sample. -/
theorem each_notBefore {m : Monitored φ} {ops : List VegasOp}
    (htimes : (eventTimes ops).Pairwise (· ≤ ·))
    (hm : ∀ e ∈ m.samples, ∀ t ∈ eventTimes ops, e.2 ≤ t) :
    Each (monitorStep F) NotBefore m ops := by
  induction ops generalizing m with
  | nil => trivial
  | cons op ops ih =>
    have hcons : eventTimes (op :: ops) = eventTimes [op] ++ eventTimes ops :=
      List.filterMap_append (l := [op])
    rw [hcons] at htimes hm
    obtain ⟨-, hrest, hfirst⟩ := List.pairwise_append.1 htimes
    refine ⟨?_, fun m' h => ih hrest fun e he t ht => ?_⟩
    · rintro ev rfl e he
      exact hm e he ev.eventTime (by simp [eventTimes])
    · rw [(monitorStep_ok h).2] at he
      rcases mem_record he with he | htime
      · exact hm e he t (List.mem_append_right _ ht)
      · exact hfirst _ htime t ht

/-! ## Whole runs -/

/-- No step of the run fails the check. -/
def PassesCheck (F : MinFilter φ) (s : VegasSender φ) (ops : List VegasOp) : Prop :=
  Each (vegasStep F) (fun s op => vegasStep F s op ≠ .error .minRttBelowBaseRtt) s ops

/-- A run passes the check exactly when, in every step that ends a round of more
than two samples, the base RTT filter answers with at most each sample of that
round.  With an exact filter, this says that each of these samples is matched by
one of the last 10 s that is not above it. -/
theorem min_rtt_check_iff (F : MinFilter φ) (initial maximum : Nat) (ops : List VegasOp)
    (hrtt : ∀ op ∈ ops, FiniteRtt op) :
    (PassesCheck F (new F initial maximum) ops ↔
      Each (monitorStep F) (RoundCovered F) { sender := new F initial maximum } ops) ∧
    (ExactMin F kMinRTTWindowLength → (eventTimes ops).Pairwise (· ≤ ·) →
      (PassesCheck F (new F initial maximum) ops ↔
        Each (monitorStep F) RoundRecent { sender := new F initial maximum } ops)) := by
  have hnew := new_good F initial maximum
  have hcovered : PassesCheck F (new F initial maximum) ops ↔
      Each (monitorStep F) (RoundCovered F) { sender := new F initial maximum } ops := by
    refine (each_monitorStep _ { sender := new F initial maximum } ops).trans ?_
    refine each_iff_given (I := Monitored.Good F) ?_ ?_ hnew (each_of_forall_mem hrtt)
    · exact fun m op hg hop => monitorStep_check_iff hg hop
    · exact fun m op m' hg hop _ h => monitorStep_good hg hop h
  refine ⟨hcovered, fun hF htimes => hcovered.trans ?_⟩
  have hempty : Ordered [] := List.Pairwise.nil
  refine each_iff_given (I := fun m => Ordered m.samples) ?_ ?_ hempty
    (each_notBefore htimes (by simp))
  · exact fun m op hm hop => roundCovered_iff_recent hF (record_ordered hm hop)
  · intro m op m' hm hop _ h
    rw [(monitorStep_ok h).2]
    exact record_ordered hm hop

/-- Two short RTTs, and then an outage of 11 s in the same round. -/
def outage : List VegasOp :=
  [.onPacketSent 1, .onPacketSent 2, .onPacketSent 3, .onPacketSent 4,
    .onCongestionEvent ⟨10000, 10000, [1], []⟩,
    .onCongestionEvent ⟨10000, 12000, [2], []⟩,
    .onCongestionEvent ⟨11000000, 11005000, [3], []⟩,
    .onCongestionEvent ⟨11000000, 11006000, [4], []⟩]

/-- The outage has finite RTTs and ordered times, and its filter is exact. -/
theorem min_rtt_check_iff_outage :
    PassesCheck slidingMin (new slidingMin 10 2000) outage ↔
      Each (monitorStep slidingMin) RoundRecent { sender := new slidingMin 10 2000 } outage := by
  have hrtt : ∀ op ∈ outage, FiniteRtt op := by simp [outage, FiniteRtt, vrtt, kInfinite]
  exact (min_rtt_check_iff slidingMin 10 2000 outage hrtt).2
    (slidingMin_exact kMinRTTWindowLength) (by decide)

/-- The outage fails the check, with a filter that obeys the laws. -/
theorem outage_fails_check :
    Lawful slidingMin kMinRTTWindowLength ∧
      outage.foldlM (vegasStep slidingMin) (new slidingMin 10 2000) =
        .error .minRttBelowBaseRtt :=
  ⟨slidingMin_lawful kMinRTTWindowLength, by decide +kernel⟩

end QuicOnNs3.CcAlgo.Vegas
