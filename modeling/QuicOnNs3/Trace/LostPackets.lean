import Mathlib.Data.List.Induction
import QuicOnNs3.Lib.Records
import QuicOnNs3.Trace.ServerTrace

/-!
# The count of lost packets

With the lost file open, `OnOwd` counts every number that a new largest number
skips.  Its first comparison is `seq>m_lastSeq-1`, which a packet with the number
`m_lastSeq` itself passes: it adds `seq-m_lastSeq-1`, which is `-1`.  So the
counter is the largest number less the arrivals that were larger than all earlier
ones, and less the repeats of the largest number (`SeqInv`).

`lost_packets_iff` is the condition under which the counter is what the lost file
is to show.
-/

namespace QuicOnNs3.Trace

open QuicOnNs3.Records

namespace Ns3QuicServerTrace

variable {interval : Int} {e : UInt8} {t : Ns3QuicServerTrace} {a : Arrival}
  {seqs : List Int} {arrivals : List Arrival}

/-! ## What the counters hold -/

/-- The counters after the sequence numbers `seqs`. -/
structure SeqInv (t : Ns3QuicServerTrace) (seqs : List Int) : Prop where
  isOpen : t.lost.isSome
  lastSeq : t.lastSeq = seqs.foldl max 0
  largestSeq : t.largestSeq = seqs.foldl max 0
  lostPackets : t.lostPackets =
    seqs.foldl max 0 - (records 0 seqs).length - repeats 0 seqs

theorem SeqInv.new (h : e &&& E_QS_LOST ≠ 0) : SeqInv (new e) [] where
  isOpen := by simp [Ns3QuicServerTrace.new, h]
  lastSeq := rfl
  largestSeq := rfl
  lostPackets := rfl

/-- A number is above the largest one so far, equal to it or below it. -/
theorem SeqInv.countLost (h : SeqInv t seqs) (seq : Int) :
    SeqInv (t.countLost seq) (seqs ++ [seq]) := by
  have hlast := h.lastSeq
  have hlargest := h.largestSeq
  have hlost := h.lostPackets
  unfold Ns3QuicServerTrace.countLost
  rw [if_pos h.isOpen]
  refine ⟨h.isOpen, ?_, ?_, ?_⟩
  · rw [List.foldl_concat]
    show (if seq > t.lastSeq then seq else t.lastSeq) = _
    split_ifs <;> omega
  · rw [List.foldl_concat]
    show (if seq > t.largestSeq then seq else t.largestSeq) = _
    split_ifs <;> omega
  · rw [List.foldl_concat, records_append, repeats_append, List.length_append]
    simp only [records, repeats]
    rcases lt_trichotomy (seqs.foldl max 0) seq with hlt | heq | hgt
    · have hcount : seq > t.lastSeq - 1 := by omega
      rw [if_pos hcount, if_pos hlt, if_neg (ne_of_gt hlt), List.length_singleton]
      omega
    · have hcount : seq > t.lastSeq - 1 := by omega
      rw [if_pos hcount, if_neg (not_lt.2 (le_of_eq heq.symm)), if_pos heq.symm, List.length_nil]
      omega
    · have hcount : ¬ seq > t.lastSeq - 1 := by omega
      rw [if_neg hcount, if_neg (not_lt.2 (le_of_lt hgt)), if_neg (ne_of_lt hgt), List.length_nil]
      omega

theorem SeqInv.onOwd (h : SeqInv t seqs) (a : Arrival) :
    SeqInv (t.onOwd interval a) (seqs ++ [a.seq]) := by
  have ⟨hlast, hlargest, hlost, hopen⟩ := countBytes_keeps interval t a
  apply SeqInv.countLost
  constructor
  · rw [hopen]
    exact h.isOpen
  · rw [hlast]
    exact h.lastSeq
  · rw [hlargest]
    exact h.largestSeq
  · rw [hlost]
    exact h.lostPackets

theorem seqInv_after (interval : Int) (h : e &&& E_QS_LOST ≠ 0) (arrivals : List Arrival) :
    SeqInv (after interval e arrivals) (arrivals.map (·.seq)) := by
  induction arrivals using List.reverseRecOn with
  | nil => exact SeqInv.new h
  | append_singleton arrivals a ih =>
    rw [after_concat, List.map_append]
    exact ih.onOwd a

/-! ## The line of the lost file -/

/-- Nothing is written to the lost file before the trace is destroyed. -/
theorem after_lost (interval : Int) (h : e &&& E_QS_LOST ≠ 0) (arrivals : List Arrival) :
    (after interval e arrivals).lost = some [] := by
  induction arrivals using List.reverseRecOn with
  | nil => exact if_pos h
  | append_singleton arrivals a ih =>
    obtain ⟨-, -, -, hbytes⟩ := countBytes_keeps interval (after interval e arrivals) a
    obtain ⟨_, _, _, hlost⟩ :=
      countLost_keeps (t := (after interval e arrivals).countBytes interval a) a.seq
    rw [after_concat, onOwd, hlost, ← ih, ← hbytes]

/-- The last line of the goodput file leaves the rest of the trace alone. -/
theorem logGoodput_dtor_keeps (interval : Int) (t : Ns3QuicServerTrace) :
    ∃ goodput, t.logGoodput interval true = { t with goodput } := by
  unfold logGoodput
  split
  · exact ⟨t.goodput, rfl⟩
  · simp only [if_true]
    split
    · exact ⟨_, rfl⟩
    · exact ⟨t.goodput, rfl⟩

/-- The destructor writes the counters. -/
theorem destroy_lost {lines : List LostRecord} (h : t.lost = some lines) :
    (t.destroy interval).lost = some (lines ++ [⟨t.lostPackets, t.largestSeq⟩]) := by
  obtain ⟨_, hkeeps⟩ := logGoodput_dtor_keeps interval t
  rw [destroy, hkeeps, logLostPackets]
  simp only [h]

/-! ## What the lost file is to show -/

/-- The counters are the largest number and the numbers that it skipped. -/
structure CountsLost (t : Ns3QuicServerTrace) (seqs : List Int) : Prop where
  lastSeq : t.lastSeq = seqs.foldl max 0
  largestSeq : t.largestSeq = seqs.foldl max 0
  lostPackets : t.lostPackets = t.largestSeq - (records 0 seqs).length
  bounds : seqs ≠ [] → 0 ≤ t.lostPackets ∧ t.lostPackets < t.largestSeq

/-- A packet that is not the largest one changes no count. -/
def LateUncounted (interval : Int) (e : UInt8) (arrivals : List Arrival) : Prop :=
  ∀ (earlier rest : List Arrival) (a : Arrival), arrivals = earlier ++ a :: rest →
    a.seq ≤ (earlier.map (·.seq)).foldl max 0 →
      (after interval e (earlier ++ [a])).lostPackets = (after interval e earlier).lostPackets

theorem records_pos (hseqs : ∀ seq ∈ seqs, 1 ≤ seq) (hne : seqs ≠ []) :
    0 < (records 0 seqs).length := by
  cases seqs with
  | nil => exact absurd rfl hne
  | cons seq seqs =>
    have hseq : (0 : Int) < seq := hseqs seq (List.mem_cons_self ..)
    rw [records, if_pos hseq, List.length_cons]
    omega

/-- The counters are right when the largest number is never repeated. -/
theorem SeqInv.countsLost_iff (h : SeqInv t seqs) (hseqs : ∀ seq ∈ seqs, 1 ≤ seq) :
    CountsLost t seqs ↔ repeats 0 seqs = 0 := by
  have hlost := h.lostPackets
  have hlargest := h.largestSeq
  constructor
  · intro hcounts
    have hshown := hcounts.lostPackets
    omega
  · intro hrepeats
    refine ⟨h.lastSeq, hlargest, by omega, fun hne => ?_⟩
    have hpos := records_pos hseqs hne
    have hle := records_length_le 0 seqs
    omega

/-- Of the late packets, those that repeat the largest number are counted. -/
theorem lateUncounted_of_repeats (h : e &&& E_QS_LOST ≠ 0)
    (hrepeats : repeats 0 (arrivals.map (·.seq)) = 0) : LateUncounted interval e arrivals := by
  intro earlier rest a hsplit hlate
  have hbefore := seqInv_after interval h earlier
  have hafter := seqInv_after interval h (earlier ++ [a])
  have hne : a.seq ≠ (earlier.map (·.seq)).foldl max 0 :=
    repeats_map_eq_zero_iff.1 hrepeats earlier rest a hsplit
  rw [hbefore.lostPackets, hafter.lostPackets, List.map_append, List.map_singleton,
    List.foldl_concat, records_append, repeats_append, max_eq_left hlate, records, repeats,
    if_neg (not_lt.2 hlate), if_neg hne]
  simp [records, repeats]

/-- The counters are what the lost file is to show exactly when no packet has the
number of the largest packet before it. -/
theorem lost_packets_iff (interval : Int) (e : UInt8) (he : e &&& E_QS_LOST ≠ 0)
    (arrivals : List Arrival) (hseq : ∀ a ∈ arrivals, 1 ≤ a.seq ∧ a.seq < 2 ^ 31) :
    CountsLost (after interval e arrivals) (arrivals.map (·.seq)) ∧
        LateUncounted interval e arrivals ↔
      ∀ (earlier rest : List Arrival) (a : Arrival), arrivals = earlier ++ a :: rest →
        a.seq ≠ (earlier.map (·.seq)).foldl max 0 := by
  have hinv := seqInv_after interval he arrivals
  have hpos : ∀ seq ∈ arrivals.map (·.seq), 1 ≤ seq := by
    intro seq hmem
    obtain ⟨a, ha, heq⟩ := List.mem_map.1 hmem
    rw [← heq]
    exact (hseq a ha).1
  rw [← repeats_map_eq_zero_iff]
  constructor
  · intro hcounts
    exact (hinv.countsLost_iff hpos).1 hcounts.1
  · intro hrepeats
    exact ⟨(hinv.countsLost_iff hpos).2 hrepeats, lateUncounted_of_repeats he hrepeats⟩

/-- Three packets in order. -/
theorem lost_packets_iff_inOrder :
    CountsLost (after 0 E_QS_LOST [⟨1, 1, 0, 100⟩, ⟨2, 2, 0, 100⟩, ⟨3, 4, 0, 100⟩]) [1, 2, 4] :=
  ((lost_packets_iff 0 E_QS_LOST (by decide) [⟨1, 1, 0, 100⟩, ⟨2, 2, 0, 100⟩, ⟨3, 4, 0, 100⟩]
    (by decide)).2 (repeats_map_eq_zero_iff.1 (by decide))).1

/-- The first packet arrives twice, and one packet less than none is lost. -/
theorem repeatedPacket_miscounted :
    ¬ (CountsLost (after 0 E_QS_LOST [⟨1, 1, 0, 100⟩, ⟨2, 1, 0, 100⟩]) [1, 1] ∧
      LateUncounted 0 E_QS_LOST [⟨1, 1, 0, 100⟩, ⟨2, 1, 0, 100⟩]) := by
  intro h
  have hlost := (h.1.bounds (by decide)).1
  revert hlost
  decide

end Ns3QuicServerTrace

end QuicOnNs3.Trace
