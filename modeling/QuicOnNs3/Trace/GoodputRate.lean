import QuicOnNs3.Trace.Goodput

/-!
# The divisor of a goodput line

A line shows the bytes since the last line divided by the milliseconds since then, and
`Time::GetMilliSeconds` truncates.  The periodic lines wait for an interval, so they
divide by at least the milliseconds of one (`Spaced`).  The line of the destructor is
written whenever the last packet came after the last line, also within the same
millisecond: then it divides by 0 (`goodput_divisor_iff`).
-/

namespace QuicOnNs3.Trace

/-- `delta.GetMilliSeconds()` in `LogGoodput`. -/
def GoodputRecord.deltaMilliSeconds (r : GoodputRecord) : Int :=
  ((r.receiptTime : Int) - r.lastRateTime).tdiv 1000000

theorem GoodputRecord.deltaMilliSeconds_ne_zero_iff {r : GoodputRecord}
    (hle : r.lastRateTime ≤ r.receiptTime) :
    r.deltaMilliSeconds ≠ 0 ↔ r.lastRateTime + 1000000 ≤ r.receiptTime := by
  rw [deltaMilliSeconds, Int.tdiv_eq_ediv_of_nonneg (by omega)]
  omega

/-- The time of the last periodic line after a packet at the time `now`, when it was
`rate` before. -/
def nextRateTime (interval : Int) (rate now : Nat) : Nat :=
  if (rate : Int) + interval ≤ now then now else rate

/-- The time of the last periodic line of a sequence of packets, or of the first packet
when there is none. -/
def lastRateTimeOf (interval : Int) : List Arrival → Nat
  | [] => 0
  | a :: rest => (rest.map (·.now)).foldl (nextRateTime interval) a.now

namespace Ns3QuicServerTrace

variable {interval : Int} {e : UInt8} {t : Ns3QuicServerTrace} {a : Arrival}
  {first last rate : Nat} {total : Int}

/-- The last line was written at the time `rate`, and every line waited for the
interval. -/
structure Spaced (interval : Int) (rate : Nat) (t : Ns3QuicServerTrace) : Prop where
  lastRateTime : t.lastRateTime = rate
  lines : ∀ r ∈ t.goodput.getD [], (r.lastRateTime : Int) + interval ≤ r.receiptTime

theorem Spaced.logGoodput (h : Spaced interval rate t) (hopen : t.goodput.isSome) :
    Spaced interval (nextRateTime interval rate t.receiptTime) (t.logGoodput interval false) := by
  have hrate := h.lastRateTime
  have ⟨lines, hlines⟩ := Option.isSome_iff_exists.1 hopen
  have hspaced := h.lines
  rw [hlines, Option.getD_some] at hspaced
  rcases logGoodput_cases interval hlines with ⟨hwait, heq⟩ | ⟨hdue, heq⟩
  · rw [heq, nextRateTime, if_neg (by omega)]
    exact h
  · rw [heq, nextRateTime, if_pos (by omega)]
    refine ⟨rfl, ?_⟩
    show ∀ r ∈ lines ++ [t.goodputRecord], (r.lastRateTime : Int) + interval ≤ r.receiptTime
    intro r hr
    rcases List.mem_append.1 hr with hr | hr
    · exact hspaced r hr
    · rw [List.mem_singleton.1 hr]
      exact hdue

theorem Spaced.countLost (h : Spaced interval rate t) (seq : Int) :
    Spaced interval rate (t.countLost seq) := by
  have ⟨_, _, _, heq⟩ := countLost_keeps (t := t) seq
  rw [heq]
  exact ⟨h.lastRateTime, h.lines⟩

/-- One more packet of a trace that has received one. -/
theorem Spaced.onOwd (h : Spaced interval rate t) (hcovers : Covers first last total t) :
    Spaced interval (nextRateTime interval rate a.now) (t.onOwd interval a) := by
  have hreceive : Spaced interval rate (t.receive a) :=
    ⟨(if_neg hcovers.started).trans h.lastRateTime, h.lines⟩
  have htime : (t.receive a).receiptTime = a.now := if_pos hcovers.owdOpen
  have hlog := hreceive.logGoodput hcovers.goodputOpen
  rw [htime] at hlog
  apply Spaced.countLost
  unfold countBytes
  rw [if_pos (by rw [hcovers.owdOpen, Bool.true_or])]
  exact hlog

/-- The first packet writes no line. -/
theorem spaced_first (howd : e &&& E_QS_OWD ≠ 0) (hgoodput : e &&& E_QS_GOODPUT ≠ 0)
    (hinterval : 0 < interval) : Spaced interval a.now ((new e).onOwd interval a) := by
  have hopen : (new e).goodput = some [] := by simp [new, hgoodput]
  have howdOpen : (new e).owd.isSome := by simp [new, howd]
  have hlines : ((new e).receive a).goodput = some [] := hopen
  have hreceive : Spaced interval a.now ((new e).receive a) := by
    refine ⟨rfl, ?_⟩
    rw [hlines]
    exact fun r hr => absurd hr (List.not_mem_nil)
  have htime : ((new e).receive a).receiptTime = a.now := if_pos howdOpen
  have hlog := hreceive.logGoodput (by rw [hlines]; rfl)
  rw [htime, nextRateTime, if_neg (by omega)] at hlog
  apply Spaced.countLost
  unfold countBytes
  rw [if_pos (by rw [howdOpen, Bool.true_or])]
  exact hlog

theorem Spaced.run (h : Spaced interval rate t) (hcovers : Covers first last total t)
    (hinterval : 0 < interval) {rest : List Arrival}
    (hmono : (last :: rest.map (·.now)).Pairwise (· ≤ ·)) :
    Spaced interval ((rest.map (·.now)).foldl (nextRateTime interval) rate)
      (rest.foldl (Ns3QuicServerTrace.onOwd interval) t) := by
  induction rest generalizing last total rate t with
  | nil => exact h
  | cons b rest ih =>
    rw [List.map_cons] at hmono
    obtain ⟨hle, hrest⟩ := List.pairwise_cons.1 hmono
    exact ih (h.onOwd hcovers) (hcovers.onOwd (hle b.now (List.mem_cons_self ..)) hinterval) hrest

/-- When it is destroyed, a trace with an interval of a millisecond or more divides by 0
exactly in a line for less than a millisecond. -/
theorem Spaced.destroy_divisor_iff (h : Spaced interval rate t)
    (hcovers : Covers first last total t) (hinterval : 1000000 ≤ interval) :
    (∀ r ∈ (t.destroy interval).goodput.getD [], r.deltaMilliSeconds ≠ 0) ↔
      last = rate ∨ rate + 1000000 ≤ last := by
  have hrate := h.lastRateTime
  have hlast := hcovers.received
  have hle := hcovers.rate_le
  have ⟨lines, hlines⟩ := Option.isSome_iff_exists.1 hcovers.goodputOpen
  have hspaced := h.lines
  rw [hlines, Option.getD_some] at hspaced
  have hperiodic : ∀ r ∈ lines, r.deltaMilliSeconds ≠ 0 := by
    intro r hr
    have hwait := hspaced r hr
    exact (GoodputRecord.deltaMilliSeconds_ne_zero_iff (by omega)).2 (by omega)
  have hfinal : t.goodputRecord.deltaMilliSeconds ≠ 0 ↔
      t.lastRateTime + 1000000 ≤ t.receiptTime := by
    apply GoodputRecord.deltaMilliSeconds_ne_zero_iff
    show t.lastRateTime ≤ t.receiptTime
    omega
  rw [destroy_goodput hlines, Option.getD_some]
  split_ifs with hlt
  · constructor
    · intro hall
      have hrecord := hfinal.1 (hall _ (List.mem_append_right _ (List.mem_singleton_self _)))
      omega
    · intro hcond r hr
      rcases List.mem_append.1 hr with hr | hr
      · exact hperiodic r hr
      · rw [List.mem_singleton.1 hr]
        exact hfinal.2 (by omega)
  · exact iff_of_true hperiodic (Or.inl (by omega))

/-- With both files open and an interval of a millisecond or more, no line divides by 0
exactly when the last packet comes at the time of the last periodic line, or a
millisecond after it or later. -/
theorem goodput_divisor_iff (interval : Int) (hinterval : 1000000 ≤ interval) (e : UInt8)
    (howd : e &&& E_QS_OWD ≠ 0) (hgoodput : e &&& E_QS_GOODPUT ≠ 0) (arrivals : List Arrival)
    (hnow : ∀ a ∈ arrivals, 0 < a.now) (hmono : arrivals.Pairwise fun a b => a.now ≤ b.now) :
    (∀ r ∈ goodputRecords interval e arrivals, r.deltaMilliSeconds ≠ 0) ↔
      ∀ last ∈ arrivals.getLast?, last.now = lastRateTimeOf interval arrivals ∨
        lastRateTimeOf interval arrivals + 1000000 ≤ last.now := by
  cases arrivals with
  | nil =>
    have hopen : (after interval e []).goodput = some [] := by simp [after, new, hgoodput]
    have hnone : goodputRecords interval e [] = [] := by
      rw [goodputRecords, destroy_goodput hopen]
      rfl
    rw [hnone]
    simp
  | cons a rest =>
    have htimes : (a.now :: rest.map (·.now)).Pairwise (· ≤ ·) := by
      rwa [← List.map_cons, List.pairwise_map]
    have hpos : 0 < a.now := hnow a (List.mem_cons_self ..)
    have hwait : 0 < interval := by omega
    have hcovers := covers_after howd hgoodput hwait hpos htimes
    have hsingle : (a.now :: ([] : List Arrival).map (·.now)).Pairwise (· ≤ ·) :=
      List.pairwise_singleton _ a.now
    have hfirst := covers_after howd hgoodput hwait hpos hsingle
    have hspaced := (spaced_first howd hgoodput hwait).run hfirst hwait htimes
    have hiff := hspaced.destroy_divisor_iff hcovers hinterval
    rw [List.getLastD_map] at hiff
    have hlast : (a :: rest).getLast? = some (rest.getLastD a) := by
      rw [List.getLast?_cons, List.getLastD_eq_getLast?]
    rw [hlast]
    refine Iff.trans hiff ⟨fun h b hb => ?_, fun h => h _ rfl⟩
    rw [← Option.some.inj hb]
    exact h

/-- A line for the first second, and one for the half second after it. -/
theorem goodput_divisor_iff_threePackets :
    (goodputRecords 1000000000 (E_QS_GOODPUT ||| E_QS_OWD)
      [⟨1000000000, 1, 20, 1400⟩, ⟨2000000000, 2, 20, 600⟩, ⟨2500000000, 3, 20, 100⟩]).length = 2 ∧
    ∀ r ∈ goodputRecords 1000000000 (E_QS_GOODPUT ||| E_QS_OWD)
      [⟨1000000000, 1, 20, 1400⟩, ⟨2000000000, 2, 20, 600⟩, ⟨2500000000, 3, 20, 100⟩],
      r.deltaMilliSeconds ≠ 0 :=
  ⟨by decide, (goodput_divisor_iff 1000000000 (by decide) _ (by decide) (by decide) _ (by decide)
    (by decide)).2 (by decide)⟩

/-- The second of two packets comes half a millisecond after the first one, and the
destructor divides by 0. -/
theorem halfMillisecond_divides_by_zero :
    (goodputRecords 1000000000 (E_QS_GOODPUT ||| E_QS_OWD)
      [⟨1000000000, 1, 20, 1400⟩, ⟨1000500000, 2, 20, 600⟩]).map
        GoodputRecord.deltaMilliSeconds = [0] := by
  decide

end Ns3QuicServerTrace

end QuicOnNs3.Trace
