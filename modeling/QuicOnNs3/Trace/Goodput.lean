import Mathlib.Algebra.BigOperators.Group.List.Basic
import Mathlib.Algebra.Ring.Int.Defs
import Mathlib.Data.List.Pairwise
import QuicOnNs3.Lib.Tiling
import QuicOnNs3.Trace.ServerTrace

/-!
# The goodput trace

`LogGoodput` writes a line when an interval has passed since the last line, and the
destructor writes one for the rest.  Both go by `m_receiptTime`, which `OnOwd` sets
only while the one-way-delay file is open too.

With both files open, the lines cover the time from the first packet to the last one
(`Covers`), and they count every byte when no two packets come at one time
(`goodput_conserves_bytes`).  With the goodput file alone, `m_receiptTime` stays `0`
and no line shows a time of receipt (`NoReceipt`), so the two traces agree only where
neither writes a line (`goodput_independent_iff`).
-/

namespace QuicOnNs3.Trace

open QuicOnNs3.Tiling

/-- The records cover the times from `first` to `last` in turn. -/
abbrev Cover (first : Nat) (records : List GoodputRecord) (last : Nat) : Prop :=
  Tiles GoodputRecord.lastRateTime GoodputRecord.receiptTime first records last

/-- The bytes that the records are computed from. -/
def bytesOf (records : List GoodputRecord) : Int :=
  (records.map (·.bytes)).sum

theorem bytesOf_concat (records : List GoodputRecord) (r : GoodputRecord) :
    bytesOf (records ++ [r]) = bytesOf records + r.bytes := by
  simp [bytesOf]

namespace Ns3QuicServerTrace

variable {interval : Int} {e : UInt8} {t : Ns3QuicServerTrace} {a : Arrival}
  {first last : Nat} {total : Int}

/-! ## Both files open -/

/-- A trace that has received `total` bytes from the time `first` to the time `last`:
its lines go from `first` to `m_lastRateTime` and count `m_lastRateBytes` bytes. -/
structure Covers (first last : Nat) (total : Int) (t : Ns3QuicServerTrace) : Prop where
  owdOpen : t.owd.isSome
  goodputOpen : t.goodput.isSome
  started : t.firstPacketTime ≠ 0
  cover : Cover first (t.goodput.getD []) t.lastRateTime
  counted : bytesOf (t.goodput.getD []) = t.lastRateBytes
  rate_le : t.lastRateTime ≤ last
  received : t.receiptTime = last
  read : t.readBytes = total

theorem Covers.countLost (h : Covers first last total t) (seq : Int) :
    Covers first last total (t.countLost seq) := by
  have ⟨_, _, _, heq⟩ := countLost_keeps (t := t) seq
  rw [heq]
  exact ⟨h.owdOpen, h.goodputOpen, h.started, h.cover, h.counted, h.rate_le, h.received, h.read⟩

/-- The first packet starts the first interval. -/
theorem covers_first (howd : e &&& E_QS_OWD ≠ 0) (hgoodput : e &&& E_QS_GOODPUT ≠ 0)
    (hnow : 0 < a.now) : Covers a.now a.now a.len ((new e).receive a) := by
  have hlines : ((new e).receive a).goodput = some [] := by simp [receive, new, hgoodput]
  have hrate : ((new e).receive a).lastRateTime = a.now := by simp [receive, new]
  constructor
  · simp [receive, new, howd]
  · rw [hlines]
    rfl
  · simp [receive, new]
    omega
  · rw [hlines, hrate]
    rfl
  · rw [hlines]
    rfl
  · omega
  · simp [receive, new, howd]
  · simp [receive, new]

theorem Covers.receive (h : Covers first last total t) (hle : last ≤ a.now) :
    Covers first a.now (total + a.len) (t.receive a) := by
  have hrate : (t.receive a).lastRateTime = t.lastRateTime := if_neg h.started
  constructor
  · show (t.owd.map (· ++ [a])).isSome
    rw [Option.isSome_map]
    exact h.owdOpen
  · exact h.goodputOpen
  · show (if t.firstPacketTime = 0 then a.now else t.firstPacketTime) ≠ 0
    rw [if_neg h.started]
    exact h.started
  · rw [hrate]
    exact h.cover
  · exact h.counted
  · rw [hrate]
    exact le_trans h.rate_le hle
  · exact if_pos h.owdOpen
  · show t.readBytes + a.len = total + a.len
    rw [h.read]

/-- A line covers the time since the last one and counts the bytes since then. -/
theorem Covers.logGoodput (h : Covers first last total t) (hinterval : 0 < interval) :
    Covers first last total (t.logGoodput interval false) := by
  have ⟨lines, hlines⟩ := Option.isSome_iff_exists.1 h.goodputOpen
  rcases logGoodput_cases interval hlines with ⟨_, heq⟩ | ⟨hdue, heq⟩
  · rw [heq]
    exact h
  · have hcover : Cover first lines t.lastRateTime := by simpa [hlines] using h.cover
    have hcounted : bytesOf lines = t.lastRateBytes := by simpa [hlines] using h.counted
    have hlt : t.lastRateTime < t.receiptTime := by omega
    rw [heq]
    refine ⟨h.owdOpen, rfl, h.started, ?_, ?_, le_of_eq h.received, h.received, h.read⟩
    · show Cover first (lines ++ [t.goodputRecord]) t.goodputRecord.receiptTime
      exact hcover.concat rfl hlt
    · show bytesOf (lines ++ [t.goodputRecord]) = t.readBytes
      rw [bytesOf_concat, hcounted]
      show t.lastRateBytes + (t.readBytes - t.lastRateBytes) = t.readBytes
      omega

/-- One more packet, no earlier than the last one. -/
theorem Covers.onOwd (h : Covers first last total t) (hle : last ≤ a.now)
    (hinterval : 0 < interval) : Covers first a.now (total + a.len) (t.onOwd interval a) := by
  apply Covers.countLost
  unfold countBytes
  rw [if_pos (by rw [h.owdOpen, Bool.true_or])]
  exact (h.receive hle).logGoodput hinterval

theorem Covers.run (h : Covers first last total t) (hinterval : 0 < interval)
    {rest : List Arrival} (hmono : (last :: rest.map (·.now)).Pairwise (· ≤ ·)) :
    Covers first ((rest.map (·.now)).getLastD last) (total + (rest.map (·.len)).sum)
      (rest.foldl (Ns3QuicServerTrace.onOwd interval) t) := by
  induction rest generalizing last total t with
  | nil =>
    rw [List.map_nil, List.map_nil, List.sum_nil, add_zero]
    exact h
  | cons b rest ih =>
    rw [List.map_cons] at hmono
    obtain ⟨hle, hrest⟩ := List.pairwise_cons.1 hmono
    have hnext := h.onOwd (hle b.now (List.mem_cons_self ..)) hinterval
    rw [List.map_cons, List.map_cons, List.getLastD_cons, List.sum_cons, ← add_assoc,
      List.foldl_cons]
    exact ih hnext hrest

/-- What a trace has received after a sequence of packets. -/
theorem covers_after (howd : e &&& E_QS_OWD ≠ 0) (hgoodput : e &&& E_QS_GOODPUT ≠ 0)
    (hinterval : 0 < interval) (hnow : 0 < a.now) {rest : List Arrival}
    (hmono : (a.now :: rest.map (·.now)).Pairwise (· ≤ ·)) :
    Covers a.now ((rest.map (·.now)).getLastD a.now) (a.len + (rest.map (·.len)).sum)
      (after interval e (a :: rest)) := by
  have hopen : (new e).owd.isSome := by simp [new, howd]
  have hfirst : Covers a.now a.now a.len ((new e).onOwd interval a) := by
    apply Covers.countLost
    unfold countBytes
    rw [if_pos (by rw [hopen, Bool.true_or])]
    exact (covers_first howd hgoodput hnow).logGoodput hinterval
  rw [after, List.foldl_cons]
  exact hfirst.run hinterval hmono

/-- The destructor's line covers the time since the last one. -/
theorem Covers.destroy (h : Covers first last total t) (interval : Int) :
    Cover first ((t.destroy interval).goodput.getD []) last := by
  have ⟨lines, hlines⟩ := Option.isSome_iff_exists.1 h.goodputOpen
  have hcover : Cover first lines t.lastRateTime := by simpa [hlines] using h.cover
  have hle := h.rate_le
  have hlast := h.received
  rw [destroy_goodput hlines, Option.getD_some]
  split_ifs with hlt
  · have hcover' := hcover.concat (r := t.goodputRecord) rfl hlt
    change Cover first (lines ++ [t.goodputRecord]) t.receiptTime at hcover'
    rwa [hlast] at hcover'
  · have heq : t.lastRateTime = last := by omega
    rwa [heq] at hcover

/-- No byte is left over unless time has passed since the last line. -/
def Counted (t : Ns3QuicServerTrace) : Prop :=
  t.lastRateTime < t.receiptTime ∨ t.lastRateBytes = t.readBytes

/-- A packet that comes later than the one before it is counted by a line or leaves
time for one. -/
theorem Covers.counted_onOwd (h : Covers first last total t) (interval : Int)
    (hlt : last < a.now) : Counted (t.onOwd interval a) := by
  have hopen : (t.receive a).goodput.isSome := h.goodputOpen
  have hnext := h.receive (le_of_lt hlt)
  have hrate : (t.receive a).lastRateTime = t.lastRateTime := if_neg h.started
  have hle := h.rate_le
  have ⟨lines, hlines⟩ := Option.isSome_iff_exists.1 hopen
  have ⟨_, _, _, heq⟩ := countLost_keeps (t := t.countBytes interval a) a.seq
  unfold Ns3QuicServerTrace.onOwd
  rw [heq]
  show Counted (t.countBytes interval a)
  unfold countBytes
  rw [if_pos (by rw [h.owdOpen, Bool.true_or])]
  rcases logGoodput_cases interval hlines with ⟨_, heq⟩ | ⟨_, heq⟩
  · rw [heq]
    refine Or.inl ?_
    rw [hrate, hnext.received]
    omega
  · rw [heq]
    exact Or.inr rfl

theorem Covers.destroy_bytes (h : Covers first last total t) (interval : Int)
    (hcounted : Counted t) : bytesOf ((t.destroy interval).goodput.getD []) = total := by
  have ⟨lines, hlines⟩ := Option.isSome_iff_exists.1 h.goodputOpen
  have hlogged : bytesOf lines = t.lastRateBytes := by simpa [hlines] using h.counted
  have hread := h.read
  rw [destroy_goodput hlines, Option.getD_some]
  split_ifs with hlt
  · rw [bytesOf_concat, hlogged]
    show t.lastRateBytes + (t.readBytes - t.lastRateBytes) = total
    omega
  · have heq := hcounted.resolve_left hlt
    rw [hlogged, heq, hread]

/-- With both files open, the lines go from the first packet to the last one without
gap or overlap, and count every byte. -/
theorem goodput_conserves_bytes (interval : Int) (hinterval : 0 < interval) (e : UInt8)
    (howd : e &&& E_QS_OWD ≠ 0) (hgoodput : e &&& E_QS_GOODPUT ≠ 0) (first last : Arrival)
    (between : List Arrival) (hnow : 0 < first.now)
    (hincr : (first :: (between ++ [last])).Pairwise fun a b => a.now < b.now) :
    let records := goodputRecords interval e (first :: (between ++ [last]))
    Tiles GoodputRecord.lastRateTime GoodputRecord.receiptTime first.now records last.now ∧
      records.Pairwise (fun r r' => r.receiptTime ≤ r'.lastRateTime) ∧
      (records.map (·.bytes)).sum = ((first :: (between ++ [last])).map (·.len)).sum := by
  intro records
  rw [← List.cons_append] at hincr
  have ⟨hbetween, _, hlast⟩ := List.pairwise_append.1 hincr
  have hmono : (first.now :: between.map (·.now)).Pairwise (· ≤ ·) := by
    rw [← List.map_cons, List.pairwise_map]
    exact hbetween.imp le_of_lt
  have hbefore := covers_after (e := e) howd hgoodput hinterval hnow hmono
  have hlt : (between.map (·.now)).getLastD first.now < last.now := by
    rw [List.getLastD_map]
    exact hlast _ List.getLastD_mem_cons last (List.mem_singleton_self last)
  have hafter := hbefore.onOwd (a := last) (le_of_lt hlt) hinterval
  have hcounted := hbefore.counted_onOwd interval hlt
  rw [← after_concat] at hafter hcounted
  have hcover : Cover first.now records last.now := hafter.destroy interval
  refine ⟨hcover, hcover.disjoint, ?_⟩
  have hbytes := hafter.destroy_bytes interval hcounted
  change bytesOf records = _ at hbytes
  rw [← bytesOf, hbytes]
  simp [add_assoc]

/-- Three packets, and a line for the first two of them. -/
theorem goodput_conserves_bytes_threePackets :
    bytesOf (goodputRecords 1000000000 (E_QS_GOODPUT ||| E_QS_OWD)
      [⟨1000000000, 1, 20, 1400⟩, ⟨2000000000, 2, 20, 600⟩, ⟨2500000000, 3, 20, 100⟩]) = 2100 :=
  (goodput_conserves_bytes 1000000000 (by decide) (E_QS_GOODPUT ||| E_QS_OWD) (by decide)
    (by decide) ⟨1000000000, 1, 20, 1400⟩ ⟨2500000000, 3, 20, 100⟩ [⟨2000000000, 2, 20, 600⟩]
    (by decide) (by decide)).2.2

/-! ## What a line shows -/

/-- A packet writes one line or none, and leaves the time of receipt as it was before. -/
theorem onOwd_cases (interval : Int) {lines : List GoodputRecord} (h : t.goodput = some lines) :
    (t.onOwd interval a).owd = (t.receive a).owd ∧
      (t.onOwd interval a).receiptTime = (t.receive a).receiptTime ∧
      (((t.receive a).receiptTime : Int) < (t.receive a).lastRateTime + interval ∧
          (t.onOwd interval a).goodput = some lines ∨
        ((t.receive a).lastRateTime : Int) + interval ≤ (t.receive a).receiptTime ∧
          (t.onOwd interval a).goodput = some (lines ++ [(t.receive a).goodputRecord])) := by
  have hlines : (t.receive a).goodput = some lines := h
  have hcount : t.countBytes interval a = (t.receive a).logGoodput interval false := by
    unfold countBytes
    rw [if_pos (by rw [h, Option.isSome_some, Bool.or_true])]
  have ⟨_, _, _, hlost⟩ := countLost_keeps (t := t.countBytes interval a) a.seq
  unfold Ns3QuicServerTrace.onOwd
  rw [hlost, hcount]
  rcases logGoodput_cases interval hlines with ⟨hdue, heq⟩ | ⟨hdue, heq⟩
  · rw [heq]
    exact ⟨rfl, rfl, Or.inl ⟨hdue, hlines⟩⟩
  · rw [heq]
    exact ⟨rfl, rfl, Or.inr ⟨hdue, rfl⟩⟩

/-- With the one-way-delay file closed no packet has a time of receipt, and neither has
a line. -/
structure NoReceipt (interval : Int) (t : Ns3QuicServerTrace) : Prop where
  owdClosed : t.owd = none
  receiptTime : t.receiptTime = 0
  lines : ∃ lines, t.goodput = some lines ∧ ∀ r ∈ lines, r.receiptTime = 0 ∧ interval ≤ 0

theorem NoReceipt.onOwd (h : NoReceipt interval t) (a : Arrival) :
    NoReceipt interval (t.onOwd interval a) := by
  have ⟨lines, hlines, hnone⟩ := h.lines
  have ⟨howd, hreceipt, hcases⟩ := onOwd_cases (a := a) interval hlines
  have hclosed : (t.receive a).owd = none := by
    show t.owd.map (· ++ [a]) = none
    rw [h.owdClosed, Option.map_none]
  have hzero : (t.receive a).receiptTime = 0 := by
    show (if t.owd.isSome then a.now else t.receiptTime) = 0
    rw [h.owdClosed, h.receiptTime]
    rfl
  rw [← howd] at hclosed
  rw [hzero] at hreceipt hcases
  refine ⟨hclosed, hreceipt, ?_⟩
  rcases hcases with ⟨_, heq⟩ | ⟨hdue, heq⟩
  · exact ⟨lines, heq, hnone⟩
  · refine ⟨_, heq, ?_⟩
    intro r hr
    rcases List.mem_append.1 hr with hr | hr
    · exact hnone r hr
    · rw [List.mem_singleton.1 hr]
      exact ⟨hzero, by omega⟩

/-- With the one-way-delay file open every line shows the time of a packet. -/
structure Received (t : Ns3QuicServerTrace) : Prop where
  owdOpen : t.owd.isSome
  lines : ∃ lines, t.goodput = some lines ∧ ∀ r ∈ lines, 0 < r.receiptTime

theorem Received.onOwd (h : Received t) (interval : Int) (hnow : 0 < a.now) :
    Received (t.onOwd interval a) := by
  have ⟨lines, hlines, hsome⟩ := h.lines
  have ⟨howd, _, hcases⟩ := onOwd_cases (a := a) interval hlines
  have htime : (t.receive a).receiptTime = a.now := if_pos h.owdOpen
  constructor
  · rw [howd]
    show (t.owd.map (· ++ [a])).isSome
    rw [Option.isSome_map]
    exact h.owdOpen
  · rcases hcases with ⟨_, heq⟩ | ⟨_, heq⟩
    · exact ⟨lines, heq, hsome⟩
    · refine ⟨_, heq, ?_⟩
      intro r hr
      rcases List.mem_append.1 hr with hr | hr
      · exact hsome r hr
      · rw [List.mem_singleton.1 hr]
        show 0 < (t.receive a).receiptTime
        omega

/-- The trace with the goodput file alone shows no time of receipt. -/
theorem goodput_alone (interval : Int) (arrivals : List Arrival) :
    ∀ r ∈ goodputRecords interval E_QS_GOODPUT arrivals, r.receiptTime = 0 ∧ interval ≤ 0 := by
  have h : NoReceipt interval (after interval E_QS_GOODPUT arrivals) :=
    List.foldlRecOn arrivals _ ⟨rfl, rfl, [], rfl, by simp⟩ fun _ ht a _ => ht.onOwd a
  have ⟨lines, hlines, hnone⟩ := h.lines
  rw [goodputRecords, destroy_goodput hlines, h.receiptTime, if_neg (Nat.not_lt_zero _)]
  exact hnone

theorem received_after (interval : Int) {arrivals : List Arrival}
    (hnow : ∀ a ∈ arrivals, 0 < a.now) :
    Received (after interval (E_QS_GOODPUT ||| E_QS_OWD) arrivals) :=
  List.foldlRecOn arrivals _ ⟨rfl, [], rfl, by simp⟩
    fun _ ht a ha => ht.onOwd interval (hnow a ha)

/-- The trace with both files shows the time of a packet in every line. -/
theorem goodput_both (interval : Int) {arrivals : List Arrival}
    (hnow : ∀ a ∈ arrivals, 0 < a.now) :
    ∀ r ∈ goodputRecords interval (E_QS_GOODPUT ||| E_QS_OWD) arrivals, 0 < r.receiptTime := by
  have ⟨lines, hlines, hsome⟩ := (received_after interval hnow).lines
  intro r hr
  rw [goodputRecords, destroy_goodput hlines, Option.getD_some] at hr
  split_ifs at hr with hlt
  · rcases List.mem_append.1 hr with hr | hr
    · exact hsome r hr
    · rw [List.mem_singleton.1 hr]
      exact Nat.zero_lt_of_lt hlt
  · exact hsome r hr

/-! ## When the traces agree -/

/-- Some line has been written. -/
def Written (t : Ns3QuicServerTrace) : Prop :=
  ∃ lines, t.goodput = some lines ∧ lines ≠ []

theorem Written.onOwd (h : Written t) (interval : Int) (a : Arrival) :
    Written (t.onOwd interval a) := by
  have ⟨lines, hlines, hne⟩ := h
  have ⟨_, _, hcases⟩ := onOwd_cases (a := a) interval hlines
  rcases hcases with ⟨_, heq⟩ | ⟨_, heq⟩
  · exact ⟨lines, heq, hne⟩
  · exact ⟨_, heq, List.append_ne_nil_of_left_ne_nil hne _⟩

/-- Without an interval to wait for, the first packet writes a line. -/
theorem written_after (hinterval : interval ≤ 0) (rest : List Arrival) :
    Written (after interval (E_QS_GOODPUT ||| E_QS_OWD) (a :: rest)) := by
  have hnew : (new (E_QS_GOODPUT ||| E_QS_OWD)).goodput = some [] := rfl
  have ⟨_, _, hcases⟩ := onOwd_cases (a := a) interval hnew
  have hreceipt : ((new (E_QS_GOODPUT ||| E_QS_OWD)).receive a).receiptTime = a.now := rfl
  have hrate : ((new (E_QS_GOODPUT ||| E_QS_OWD)).receive a).lastRateTime = a.now := rfl
  have hfirst : Written ((new (E_QS_GOODPUT ||| E_QS_OWD)).onOwd interval a) := by
    rcases hcases with ⟨hwait, _⟩ | ⟨_, heq⟩
    · omega
    · exact ⟨_, heq, List.append_ne_nil_of_right_ne_nil _ (List.cons_ne_nil _ [])⟩
  rw [after, List.foldl_cons]
  exact List.foldlRecOn rest _ hfirst fun _ ht b _ => ht.onOwd interval b

theorem Written.destroy (h : Written t) (interval : Int) :
    (t.destroy interval).goodput.getD [] ≠ [] := by
  have ⟨lines, hlines, hne⟩ := h
  rw [destroy_goodput hlines, Option.getD_some]
  split_ifs
  · exact List.append_ne_nil_of_left_ne_nil hne _
  · exact hne

/-- The times of packets in order are one time when the first and the last are. -/
theorem times_eq_iff {rest : List Arrival}
    (hmono : (a :: rest).Pairwise fun b c => b.now ≤ c.now) :
    (∀ b ∈ a :: rest, ∀ c ∈ a :: rest, b.now = c.now) ↔ a.now = (rest.getLastD a).now := by
  constructor
  · intro h
    exact h a (List.mem_cons_self ..) _ List.getLastD_mem_cons
  · intro h
    have hone : ∀ b ∈ a :: rest, b.now = a.now := by
      intro b hb
      have hlast := hmono.rel_getLast_of_rel_getLast_getLast hb (le_refl _)
      rw [List.getLast_eq_getLastD] at hlast
      rcases List.mem_cons.1 hb with heq | hb
      · rw [heq]
      · have hfirst := (List.pairwise_cons.1 hmono).1 b hb
        omega
    intro b hb c hc
    rw [hone b hb, hone c hc]

/-- With both files open, no line is written exactly when no time passes. -/
theorem goodput_both_eq_nil_iff (interval : Int) {arrivals : List Arrival}
    (hnow : ∀ a ∈ arrivals, 0 < a.now) (hmono : arrivals.Pairwise fun a b => a.now ≤ b.now) :
    goodputRecords interval (E_QS_GOODPUT ||| E_QS_OWD) arrivals = [] ↔
      arrivals = [] ∨ 0 < interval ∧ ∀ a ∈ arrivals, ∀ b ∈ arrivals, a.now = b.now := by
  cases arrivals with
  | nil => exact iff_of_true rfl (Or.inl rfl)
  | cons a rest =>
    rw [or_iff_right (List.cons_ne_nil a rest)]
    rcases lt_or_ge 0 interval with hinterval | hinterval
    · have htimes : (a.now :: rest.map (·.now)).Pairwise (· ≤ ·) := by
        rwa [← List.map_cons, List.pairwise_map]
      have hcovers := covers_after (e := E_QS_GOODPUT ||| E_QS_OWD) (by decide) (by decide)
        hinterval (hnow a (List.mem_cons_self ..)) htimes
      rw [List.getLastD_map] at hcovers
      rw [and_iff_right hinterval, times_eq_iff hmono]
      exact (hcovers.destroy interval).eq_nil_iff
    · exact iff_of_false ((written_after hinterval rest).destroy interval)
        (fun h => not_lt.2 hinterval h.1)

/-- A trace opened with the goodput file alone writes the lines of one opened with the
one-way-delay file too exactly when there is no packet, or no time passes from the
first packet to the last one. -/
theorem goodput_independent_iff (interval : Int) (arrivals : List Arrival)
    (hnow : ∀ a ∈ arrivals, 0 < a.now) (hmono : arrivals.Pairwise fun a b => a.now ≤ b.now) :
    goodputRecords interval E_QS_GOODPUT arrivals =
        goodputRecords interval (E_QS_GOODPUT ||| E_QS_OWD) arrivals ↔
      arrivals = [] ∨ 0 < interval ∧ ∀ a ∈ arrivals, ∀ b ∈ arrivals, a.now = b.now := by
  have halone := goodput_alone interval arrivals
  have hboth := goodput_both interval hnow
  have hnil := goodput_both_eq_nil_iff interval hnow hmono
  constructor
  · intro heq
    rw [← hnil, List.eq_nil_iff_forall_not_mem]
    intro r hr
    have hpos := hboth r hr
    rw [← heq] at hr
    have hzero := (halone r hr).1
    omega
  · intro hcond
    rw [hnil.2 hcond]
    rcases hcond with heq | ⟨hinterval, _⟩
    · rw [heq]
      rfl
    · rw [List.eq_nil_iff_forall_not_mem]
      intro r hr
      exact not_lt.2 (halone r hr).2 hinterval

/-- Two packets at one time. -/
theorem goodput_independent_iff_atOnce :
    goodputRecords 1000000000 E_QS_GOODPUT [⟨1000000000, 1, 20, 1400⟩, ⟨1000000000, 2, 20, 600⟩] =
      goodputRecords 1000000000 (E_QS_GOODPUT ||| E_QS_OWD)
        [⟨1000000000, 1, 20, 1400⟩, ⟨1000000000, 2, 20, 600⟩] :=
  (goodput_independent_iff 1000000000 _ (by decide) (by decide)).2
    (Or.inr ⟨by decide, by decide⟩)

/-- Two packets two seconds apart: the line for the second one is missing when the
goodput file is the only one. -/
theorem twoSeconds_not_independent :
    goodputRecords 1000000000 E_QS_GOODPUT [⟨1000000000, 1, 20, 1400⟩, ⟨3000000000, 2, 20, 600⟩] ≠
      goodputRecords 1000000000 (E_QS_GOODPUT ||| E_QS_OWD)
        [⟨1000000000, 1, 20, 1400⟩, ⟨3000000000, 2, 20, 600⟩] := by
  decide

end Ns3QuicServerTrace

end QuicOnNs3.Trace
