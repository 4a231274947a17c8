import QuicOnNs3.CcAlgo.VegasSender

/-!
# The loss epochs of the Vegas sender

`OnPacketLost` cuts the window unless the packet was sent before the last cut.  The
marker of that cut is `largest_sent_at_last_cutback_`, which only `OnPacketLost`
writes.

A run is read as its history of packets (`history`): each packet when it is sent,
and again when the window is cut on its account.  `one_cut_per_epoch` says that
between two cuts the history has the sending of the second packet.  Its step is
`cuts_of_sent`, the cuts of one event, and its run is `cut_after`.  What the losses of an
event do to the sender is what their cuts say (`LossesFollowCuts`).
-/

namespace QuicOnNs3.CcAlgo.Vegas

open QuicOnNs3.WindowedFilter QuicOnNs3.Execution

namespace VegasSender

variable {φ : Type} {F : MinFilter φ} {s t u : VegasSender φ}

/-! ## What writes the packet numbers -/

/-- `t` has the packet numbers and the mode of `s`. -/
structure SameNumbers (s t : VegasSender φ) : Prop where
  largestSent : t.largestSentPacketNumber = s.largestSentPacketNumber
  largestAcked : t.largestAckedPacketNumber = s.largestAckedPacketNumber
  cutback : t.largestSentAtLastCutback = s.largestSentAtLastCutback
  begSendNext : t.begSendNext = s.begSendNext
  vegasMode : t.vegasMode = s.vegasMode

theorem reno_numbers (s : VegasSender φ) : s.SameNumbers s.increaseCongestionWindowAsReno := by
  unfold increaseCongestionWindowAsReno
  simp only
  split_ifs <;> exact ⟨rfl, rfl, rfl, rfl, rfl⟩

theorem endOfRound_numbers {baseRtt : Int} (h : s.endOfRound baseRtt = .ok t) :
    s.SameNumbers t := by
  have ⟨_, _, _, ht⟩ := endOfRound_fields h
  rw [ht]
  exact ⟨rfl, rfl, rfl, rfl, rfl⟩

theorem adjustWindow_numbers (h : s.adjustWindow F = .ok t) : s.SameNumbers t := by
  unfold adjustWindow at h
  split at h
  · rw [← Except.ok.inj h]
    exact reno_numbers s
  · exact endOfRound_numbers h

/-- An ack is recorded, and where it ends a round it starts the next one. -/
theorem onPacketAcked_numbers {p : Nat} (h : s.onPacketAcked F p = .ok t) :
    (s.recordAck p).SameNumbers t ∨
      (s.EndsRound p ∧ (s.recordAck p).nextRound.SameNumbers t) := by
  rcases onPacketAcked_ok h with ⟨_, ht⟩ | ⟨hends, u, hu, ht⟩ | ⟨_, _, ht⟩
  · rw [ht]
    exact Or.inl (reno_numbers _)
  · have hsame := adjustWindow_numbers hu
    rw [ht]
    exact Or.inr ⟨hends, hsame.1, hsame.2, hsame.3, hsame.4, hsame.5⟩
  · rw [ht]
    apply Or.inl
    split <;> exact ⟨rfl, rfl, rfl, rfl, rfl⟩

/-- `t` has the markers of `s` by which a loss is judged. -/
structure SameMarkers (s t : VegasSender φ) : Prop where
  largestSent : t.largestSentPacketNumber = s.largestSentPacketNumber
  cutback : t.largestSentAtLastCutback = s.largestSentAtLastCutback

theorem SameMarkers.refl (s : VegasSender φ) : s.SameMarkers s := ⟨rfl, rfl⟩

theorem SameMarkers.trans (h : s.SameMarkers t) (h' : t.SameMarkers u) : s.SameMarkers u :=
  ⟨h'.1.trans h.1, h'.2.trans h.2⟩

theorem takeSample_markers (s : VegasSender φ) (ev : CongestionEvent) :
    s.SameMarkers (s.takeSample F ev) := by
  unfold takeSample
  split <;> exact ⟨rfl, rfl⟩

theorem onPacketAcked_markers {p : Nat} (h : s.onPacketAcked F p = .ok t) : s.SameMarkers t := by
  rcases onPacketAcked_numbers h with hsame | ⟨_, hsame⟩
  · exact ⟨hsame.largestSent, hsame.cutback⟩
  · exact ⟨hsame.largestSent, hsame.cutback⟩

theorem switchMode_markers (before : Bool) (s : VegasSender φ) :
    s.SameMarkers (s.switchMode before) := by
  unfold switchMode
  split_ifs <;> exact ⟨rfl, rfl⟩

/-- After its losses an event leaves the markers alone. -/
theorem onCongestionEvent_markers {ev : CongestionEvent} (h : s.onCongestionEvent F ev = .ok t) :
    (s.beforeAcks F ev).SameMarkers t := by
  have ⟨u, hu, ht⟩ := onCongestionEvent_ok h
  have hacks : (s.beforeAcks F ev).SameMarkers u :=
    run_keeps (I := (s.beforeAcks F ev).SameMarkers)
      (fun _ _ _ hi hp => hi.trans (onPacketAcked_markers hp)) (SameMarkers.refl _) hu
  rw [ht]
  exact hacks.trans (switchMode_markers _ u)

/-! ## The cuts of one event -/

/-- The sender after a cut. -/
def cutWindow (s : VegasSender φ) : VegasSender φ :=
  { s with
    congestionWindow := max (s.congestionWindow / 2) s.minCongestionWindow
    slowstartThreshold := max (s.congestionWindow / 2) s.minCongestionWindow
    largestSentAtLastCutback := s.largestSentPacketNumber
    numAckedPackets := 0 }

/-- The packets of a list of losses on whose account `OnPacketLost` cuts the window. -/
def cuts (s : VegasSender φ) : List Nat → List Nat
  | [] => []
  | p :: ps => if s.beforeCutback p then s.cuts ps else p :: (s.onPacketLost p).cuts ps

/-- The packets that were sent are at most the largest sent one. -/
def TracksSent (s : VegasSender φ) (sent : List Nat) : Prop :=
  ∀ q ∈ sent, ∃ l, s.largestSentPacketNumber = some l ∧ q ≤ l

/-- The last cut came after these packets were sent. -/
def CutAfter (s : VegasSender φ) (old : List Nat) : Prop :=
  ∀ q ∈ old, s.beforeCutback q = true

theorem beforeCutback_iff {p : Nat} :
    s.beforeCutback p = true ↔ ∃ c, s.largestSentAtLastCutback = some c ∧ p ≤ c := by
  unfold beforeCutback
  cases s.largestSentAtLastCutback with
  | none => simp
  | some c => simp

theorem SameMarkers.tracksSent (h : s.SameMarkers t) {sent : List Nat} (hs : s.TracksSent sent) :
    t.TracksSent sent := by
  intro q hq
  rw [h.largestSent]
  exact hs q hq

theorem SameMarkers.cutAfter (h : s.SameMarkers t) {old : List Nat} (hs : s.CutAfter old) :
    t.CutAfter old := by
  intro q hq
  have hq := hs q hq
  rw [beforeCutback_iff] at hq ⊢
  rw [h.cutback]
  exact hq

/-- A cut comes after all packets sent so far. -/
theorem onPacketLost_cutAfter {sent : List Nat} (hs : s.TracksSent sent) {p : Nat}
    (hcut : s.beforeCutback p = false) : (s.onPacketLost p).CutAfter sent := by
  intro q hq
  rw [beforeCutback_iff, onPacketLost_of_cut hcut]
  exact hs q hq

/-- No packet that the last cut came after cuts the window. -/
theorem cuts_of_cutAfter {ps : List Nat} (h : s.CutAfter ps) : s.cuts ps = [] := by
  induction ps with
  | nil => rfl
  | cons p ps ih =>
    rw [cuts, if_pos (h p (List.mem_cons_self ..))]
    exact ih fun q hq => h q (List.mem_cons_of_mem _ hq)

/-- The losses of an event that names sent packets cut the window at most once, on
account of a packet that the last cut did not come after.  The new cut comes after
all packets sent so far, and no other loss changes the sender. -/
theorem cuts_of_sent {sent ps : List Nat} (hs : s.TracksSent sent) (hps : ps ⊆ sent) :
    (s.cuts ps = [] ∧ ps.foldl onPacketLost s = s) ∨
      ∃ p ∈ ps, s.beforeCutback p = false ∧ s.cuts ps = [p] ∧
        ps.foldl onPacketLost s = s.cutWindow ∧ s.cutWindow.CutAfter sent := by
  induction ps with
  | nil => exact Or.inl ⟨rfl, rfl⟩
  | cons p ps ih =>
    have hrest : ps ⊆ sent := fun q hq => hps (List.mem_cons_of_mem _ hq)
    rw [cuts, List.foldl_cons]
    cases hp : s.beforeCutback p with
    | true =>
      rw [if_pos rfl, onPacketLost_of_beforeCutback hp]
      rcases ih hrest with hnone | ⟨q, hq, hcut⟩
      · exact Or.inl hnone
      · exact Or.inr ⟨q, List.mem_cons_of_mem _ hq, hcut⟩
    | false =>
      have hcut : s.onPacketLost p = s.cutWindow := onPacketLost_of_cut hp
      have hafter := onPacketLost_cutAfter hs hp
      rw [hcut] at hafter
      have hnext : s.cutWindow.CutAfter ps := fun q hq => hafter q (hrest hq)
      rw [if_neg (by simp), hcut, cuts_of_cutAfter hnext, losses_of_beforeCutback hnext]
      exact Or.inr ⟨p, List.mem_cons_self .., hp, rfl, rfl, hafter⟩

/-- After any of the losses the sender is as before them all, or cut once, as the cuts so
far say. -/
theorem losses_of_sent {sent ps : List Nat} (hs : s.TracksSent sent) (hps : ps ⊆ sent) :
    ps.foldl onPacketLost s = if s.cuts ps = [] then s else s.cutWindow := by
  rcases cuts_of_sent hs hps with ⟨hcuts, hlost⟩ | ⟨p, _, _, hcuts, hlost, _⟩
  · rw [if_pos hcuts, hlost]
  · rw [hcuts, if_neg (by simp), hlost]

/-- An event that names sent packets keeps the markers, or it cuts the window once and its
marker then covers all packets sent so far. -/
theorem onCongestionEvent_cuts {sent : List Nat} {ev : CongestionEvent} (hs : s.TracksSent sent)
    (hev : ev.lostPackets ⊆ sent) :
    ((s.takeSample F ev).cuts ev.lostPackets = [] ∧
      ∀ t, s.onCongestionEvent F ev = .ok t → s.SameMarkers t) ∨
    ∃ p ∈ sent, s.beforeCutback p = false ∧ (s.takeSample F ev).cuts ev.lostPackets = [p] ∧
      ∀ t, s.onCongestionEvent F ev = .ok t → t.TracksSent sent ∧ t.CutAfter sent := by
  have hsample := takeSample_markers (F := F) s ev
  rcases cuts_of_sent (hsample.tracksSent hs) hev with
    ⟨hcuts, hlost⟩ | ⟨p, hp, hcut, hcuts, hlost, hafter⟩
  · refine Or.inl ⟨hcuts, fun t ht => ?_⟩
    have hacks : (s.beforeAcks F ev).SameMarkers t := onCongestionEvent_markers ht
    unfold beforeAcks at hacks
    rw [hlost] at hacks
    exact hsample.trans hacks
  · have hbefore : s.beforeCutback p = false := by
      unfold beforeCutback at hcut ⊢
      rwa [hsample.cutback] at hcut
    refine Or.inr ⟨p, hev hp, hbefore, hcuts, fun t ht => ?_⟩
    have hacks : (s.beforeAcks F ev).SameMarkers t := onCongestionEvent_markers ht
    unfold beforeAcks at hacks
    rw [hlost] at hacks
    have hlargest : (s.takeSample F ev).cutWindow.largestSentPacketNumber =
        s.largestSentPacketNumber := hsample.largestSent
    refine ⟨?_, hacks.cutAfter hafter⟩
    intro q hq
    rw [hacks.largestSent, hlargest]
    exact hs q hq

end VegasSender

open VegasSender

variable {φ : Type} {F : MinFilter φ}

/-! ## The history of a run -/

/-- What happens to a packet: it is sent, or the window is cut on its account. -/
inductive PacketEvent where
  | sent (p : Nat)
  | cut (p : Nat)
  deriving DecidableEq, Repr

/-- The packet events of one call. -/
def packetEvents (F : MinFilter φ) (s : VegasSender φ) : VegasOp → List PacketEvent
  | .onPacketSent p => [.sent p]
  | .onCongestionEvent ev => ((s.takeSample F ev).cuts ev.lostPackets).map .cut
  | _ => []

/-- The packet events of a run, with those of the call that stops it. -/
def history (F : MinFilter φ) : VegasSender φ → List VegasOp → List PacketEvent
  | _, [] => []
  | s, op :: ops =>
    packetEvents F s op ++
      match vegasStep F s op with
      | .error _ => []
      | .ok t => history F t ops

/-- The packets sent after a call. -/
def recordSent (sent : List Nat) : VegasOp → List Nat
  | .onPacketSent p => p :: sent
  | _ => sent

/-- A packet is sent with a number above all earlier ones, and the packets that `named`
takes from an event were sent before it. -/
def InOrder (named : CongestionEvent → List Nat) (sent : List Nat) : VegasOp → Prop
  | .onPacketSent p => ∀ q ∈ sent, q < p
  | .onCongestionEvent ev => named ev ⊆ sent
  | _ => True

/-- Every call of the run is in order, after the packets `sent`. -/
def Orderly (named : CongestionEvent → List Nat) : List Nat → List VegasOp → Prop
  | _, [] => True
  | sent, op :: ops => InOrder named sent op ∧ Orderly named (recordSent sent op) ops

/-! ## Steps -/

theorem onPacketSent_tracksSent {s : VegasSender φ} {sent : List Nat} {p : Nat}
    (hp : ∀ q ∈ sent, q < p) : (s.onPacketSent p).TracksSent (p :: sent) := by
  intro q hq
  refine ⟨p, rfl, ?_⟩
  rcases List.mem_cons.1 hq with hqp | hq
  · omega
  · exact Nat.le_of_lt (hp q hq)

/-- A call has no packet event, it sends a packet, or it cuts the window once, on
account of a packet sent after the last cut. -/
theorem packetEvents_cases {s : VegasSender φ} {op : VegasOp} {sent : List Nat}
    (hs : s.TracksSent sent) (hop : InOrder CongestionEvent.lostPackets sent op) :
    (packetEvents F s op = [] ∧ recordSent sent op = sent ∧
      ∀ t, vegasStep F s op = .ok t → s.SameMarkers t) ∨
    (∃ p, packetEvents F s op = [.sent p] ∧ recordSent sent op = p :: sent ∧
      ∀ t, vegasStep F s op = .ok t →
        t.TracksSent (p :: sent) ∧ ∀ old, s.CutAfter old → t.CutAfter old) ∨
    (∃ p ∈ sent, s.beforeCutback p = false ∧ packetEvents F s op = [.cut p] ∧
      recordSent sent op = sent ∧
      ∀ t, vegasStep F s op = .ok t → t.TracksSent sent ∧ t.CutAfter sent) := by
  cases op with
  | onRetransmissionTimeout =>
    refine Or.inl ⟨rfl, rfl, fun t ht => ?_⟩
    rw [← Except.ok.inj ht]
    exact SameMarkers.refl s
  | setInitialCongestionWindowInPackets n =>
    refine Or.inl ⟨rfl, rfl, fun t ht => ?_⟩
    rw [← Except.ok.inj ht]
    unfold setInitialCongestionWindowInPackets
    split <;> exact ⟨rfl, rfl⟩
  | onPacketSent p =>
    refine Or.inr (Or.inl ⟨p, rfl, rfl, fun t ht => ?_⟩)
    rw [← Except.ok.inj ht]
    exact ⟨onPacketSent_tracksSent hop, fun old hold => hold⟩
  | onCongestionEvent ev =>
    have hevents : packetEvents F s (.onCongestionEvent ev) =
        ((s.takeSample F ev).cuts ev.lostPackets).map .cut := rfl
    rw [hevents]
    rcases onCongestionEvent_cuts hs hop with ⟨hcuts, hstep⟩ | ⟨p, hp, hbefore, hcuts, hstep⟩
    · rw [hcuts]
      exact Or.inl ⟨rfl, rfl, hstep⟩
    · rw [hcuts]
      exact Or.inr (Or.inr ⟨p, hp, hbefore, rfl, rfl, hstep⟩)

/-- A call in order keeps track of the packets sent. -/
theorem vegasStep_tracksSent {s t : VegasSender φ} {op : VegasOp} {sent : List Nat}
    (hs : s.TracksSent sent) (hop : InOrder CongestionEvent.lostPackets sent op)
    (ht : vegasStep F s op = .ok t) : t.TracksSent (recordSent sent op) := by
  rcases packetEvents_cases (F := F) hs hop with
    ⟨_, hsent, hstep⟩ | ⟨p, _, hsent, hstep⟩ | ⟨p, _, _, _, hsent, hstep⟩
  · rw [hsent]
    exact (hstep t ht).tracksSent hs
  · rw [hsent]
    exact (hstep t ht).1
  · rw [hsent]
    exact (hstep t ht).1

/-! ## Whole runs -/

theorem history_split {s : VegasSender φ} {op : VegasOp} {ops : List VegasOp}
    {L₁ L₂ : List PacketEvent} {e : PacketEvent}
    (h : (match vegasStep F s op with
      | .error _ => []
      | .ok t => history F t ops) = L₁ ++ e :: L₂) :
    ∃ t, vegasStep F s op = .ok t ∧ history F t ops = L₁ ++ e :: L₂ := by
  split at h
  · simp at h
  · rename_i t ht
    exact ⟨t, ht, h⟩

/-- A cut that the history shows is on account of a packet that was sent, and not of
one that an earlier cut came after. -/
theorem cut_after {s : VegasSender φ} {ops : List VegasOp} {sent old : List Nat}
    {L₁ L₂ : List PacketEvent} {q : Nat} (hs : s.TracksSent sent) (hold : s.CutAfter old)
    (hsub : old ⊆ sent) (hops : Orderly CongestionEvent.lostPackets sent ops)
    (h : history F s ops = L₁ ++ .cut q :: L₂) :
    (q ∈ sent ∨ .sent q ∈ L₁) ∧ q ∉ old := by
  induction ops generalizing s sent L₁ with
  | nil => simp [history] at h
  | cons op ops ih =>
    have ⟨hop, hops⟩ := hops
    rw [history] at h
    rcases packetEvents_cases (F := F) hs hop with
      ⟨hev, hsent, hstep⟩ | ⟨p, hev, hsent, hstep⟩ | ⟨p, hp, hcut, hev, hsent, hstep⟩
    · rw [hev, List.nil_append] at h
      rw [hsent] at hops
      obtain ⟨t, ht, h⟩ := history_split h
      have hmarkers := hstep t ht
      exact ih (hmarkers.tracksSent hs) (hmarkers.cutAfter hold) hsub hops h
    · rw [hev, List.singleton_append] at h
      rw [hsent] at hops
      cases L₁ with
      | nil => simp at h
      | cons e L₁ =>
        obtain ⟨he, h⟩ := List.cons.inj h
        obtain ⟨t, ht, h⟩ := history_split h
        obtain ⟨htracks, hcutAfter⟩ := hstep t ht
        have hrest := ih htracks (hcutAfter old hold)
          (fun r hr => List.mem_cons_of_mem _ (hsub hr)) hops h
        refine ⟨?_, hrest.2⟩
        rw [← he]
        simp only [List.mem_cons, PacketEvent.sent.injEq] at hrest ⊢
        tauto
    · rw [hev, List.singleton_append] at h
      rw [hsent] at hops
      cases L₁ with
      | nil =>
        have hqp : p = q := PacketEvent.cut.inj (List.cons.inj h).1
        rw [← hqp]
        refine ⟨Or.inl hp, fun hmem => ?_⟩
        have hbefore := hold p hmem
        rw [hcut] at hbefore
        exact absurd hbefore (by simp)
      | cons e L₁ =>
        obtain ⟨he, h⟩ := List.cons.inj h
        obtain ⟨t, ht, h⟩ := history_split h
        obtain ⟨htracks, hcutAfter⟩ := hstep t ht
        have hrest := ih htracks (fun r hr => hcutAfter r (hsub hr)) hsub hops h
        refine ⟨hrest.1.imp id fun hmem => ?_, hrest.2⟩
        exact List.mem_cons_of_mem _ hmem

/-- Between two cuts the packet of the second one is sent. -/
theorem cut_between {s : VegasSender φ} {ops : List VegasOp} {sent : List Nat}
    {L₁ L₂ L₃ : List PacketEvent} {p q : Nat} (hs : s.TracksSent sent)
    (hops : Orderly CongestionEvent.lostPackets sent ops)
    (h : history F s ops = L₁ ++ .cut p :: (L₂ ++ .cut q :: L₃)) : .sent q ∈ L₂ := by
  induction ops generalizing s sent L₁ with
  | nil => simp [history] at h
  | cons op ops ih =>
    have ⟨hop, hops⟩ := hops
    rw [history] at h
    rcases packetEvents_cases (F := F) hs hop with
      ⟨hev, _, _⟩ | ⟨r, hev, _, _⟩ | ⟨r, _, _, hev, hsent, hstep⟩
    · rw [hev, List.nil_append] at h
      obtain ⟨t, ht, h⟩ := history_split h
      exact ih (vegasStep_tracksSent hs hop ht) hops h
    · rw [hev, List.singleton_append] at h
      cases L₁ with
      | nil => simp at h
      | cons e L₁ =>
        obtain ⟨t, ht, h⟩ := history_split (List.cons.inj h).2
        exact ih (vegasStep_tracksSent hs hop ht) hops h
    · rw [hev, List.singleton_append] at h
      cases L₁ with
      | nil =>
        obtain ⟨t, ht, h⟩ := history_split (List.cons.inj h).2
        obtain ⟨htracks, hcutAfter⟩ := hstep t ht
        rw [hsent] at hops
        obtain ⟨hfrom, hnot⟩ := cut_after htracks hcutAfter (List.Subset.refl _) hops h
        exact hfrom.resolve_left hnot
      | cons e L₁ =>
        obtain ⟨t, ht, h⟩ := history_split (List.cons.inj h).2
        exact ih (vegasStep_tracksSent hs hop ht) hops h

/-- What each event of an orderly run meets that names sent packets. -/
theorem each_event {P : VegasSender φ → CongestionEvent → Prop}
    (hP : ∀ s sent ev, s.TracksSent sent → ev.lostPackets ⊆ sent → P s ev)
    {s : VegasSender φ} {ops : List VegasOp} {sent : List Nat}
    (hs : s.TracksSent sent) (hops : Orderly CongestionEvent.lostPackets sent ops) :
    Each (vegasStep F) (fun s op => ∀ ev, op = .onCongestionEvent ev → P s ev) s ops := by
  induction ops generalizing s sent with
  | nil => trivial
  | cons op ops ih =>
    have ⟨hop, hops⟩ := hops
    constructor
    · intro ev hev
      rw [hev] at hop
      exact hP s sent ev hs hop
    · intro t ht
      exact ih (vegasStep_tracksSent hs hop ht) hops

/-- No event that names sent packets cuts the window twice. -/
theorem cuts_length_le {s : VegasSender φ} {sent : List Nat} {ev : CongestionEvent}
    (hs : s.TracksSent sent) (hev : ev.lostPackets ⊆ sent) :
    ((s.takeSample F ev).cuts ev.lostPackets).length ≤ 1 := by
  rcases onCongestionEvent_cuts (F := F) hs hev with ⟨hcuts, _⟩ | ⟨p, _, _, hcuts, _⟩
  · rw [hcuts]
    exact Nat.zero_le 1
  · rw [hcuts]
    exact Nat.le_refl 1

/-- The losses of the event do to the sender what their cuts say: after the first ones,
however many, it is as before them without a cut among them, and with one the window is
cut, with the threshold, and the marker is at the largest sent packet. -/
def LossesFollowCuts (F : MinFilter φ) (s : VegasSender φ) (ev : CongestionEvent) : Prop :=
  ∀ ps, ps <+: ev.lostPackets →
    ps.foldl onPacketLost (s.takeSample F ev) =
      if (s.takeSample F ev).cuts ps = [] then s.takeSample F ev
      else (s.takeSample F ev).cutWindow

/-- In a run that sends packets in the order of their numbers and reports losses of sent
packets only, a packet on whose account the window is cut again was sent after the
first cut.  In particular no event cuts the window twice, and its other losses do nothing. -/
theorem one_cut_per_epoch (F : MinFilter φ) (initial maximum : Nat) (ops : List VegasOp)
    (hops : Orderly CongestionEvent.lostPackets [] ops) :
    (∀ (L₁ L₂ L₃ : List PacketEvent) (p q : Nat),
      history F (new F initial maximum) ops = L₁ ++ .cut p :: (L₂ ++ .cut q :: L₃) →
        .sent q ∈ L₂) ∧
    Each (vegasStep F) (fun s op => ∀ ev, op = .onCongestionEvent ev →
      ((s.takeSample F ev).cuts ev.lostPackets).length ≤ 1) (new F initial maximum) ops ∧
    Each (vegasStep F) (fun s op => ∀ ev, op = .onCongestionEvent ev → LossesFollowCuts F s ev)
      (new F initial maximum) ops := by
  have hnew : (new F initial maximum).TracksSent [] := by
    intro q hq
    exact absurd hq (by simp)
  refine ⟨fun _ _ _ _ _ h => cut_between hnew hops h, ?_, ?_⟩
  · exact each_event (fun _ _ _ hs hev => cuts_length_le hs hev) hnew hops
  · refine each_event (P := LossesFollowCuts F) (fun s sent ev hs hev ps hps => ?_) hnew hops
    exact losses_of_sent ((takeSample_markers s ev).tracksSent hs)
      (List.Subset.trans hps.subset hev)

/-- A burst of losses, reported in two events, and the loss of a later packet. -/
def burst : List VegasOp :=
  [.onPacketSent 1, .onPacketSent 2, .onPacketSent 3,
    .onCongestionEvent ⟨10000, 10000, [], [2, 1]⟩, .onPacketSent 4,
    .onCongestionEvent ⟨10000, 12000, [], [3, 4]⟩]

theorem one_cut_per_epoch_burst :
    (∀ (L₁ L₂ L₃ : List PacketEvent) (p q : Nat),
      history slidingMin (new slidingMin 10 2000) burst =
        L₁ ++ .cut p :: (L₂ ++ .cut q :: L₃) → .sent q ∈ L₂) ∧
    Each (vegasStep slidingMin) (fun s op => ∀ ev, op = .onCongestionEvent ev →
      ((s.takeSample slidingMin ev).cuts ev.lostPackets).length ≤ 1)
      (new slidingMin 10 2000) burst ∧
    Each (vegasStep slidingMin)
      (fun s op => ∀ ev, op = .onCongestionEvent ev → LossesFollowCuts slidingMin s ev)
      (new slidingMin 10 2000) burst :=
  one_cut_per_epoch slidingMin 10 2000 burst (by simp [burst, Orderly, InOrder, recordSent])

example : history slidingMin (new slidingMin 10 2000) burst =
    [.sent 1, .sent 2, .sent 3, .cut 2, .sent 4, .cut 4] := by decide +kernel

end QuicOnNs3.CcAlgo.Vegas
