import Mathlib.Order.Lattice
import QuicOnNs3.Trace.AddressPair

/-!
# The trace of one flow

An `Ns3QuicServerTrace` opens up to three files, by the flags that it is created
with, and every packet of its flow is one call of `OnOwd`.  A call does two
things that share no field: it counts bytes for the goodput file (`countBytes`)
and it counts sequence numbers for the lost file (`countLost`).  The destructor
writes what is left.

A file is the list of the lines that were written to it, or `none` while it is not
open.  A line of the goodput file shows a time and a rate, which is computed from
the bytes and the two times of a `GoodputRecord`.
-/

namespace QuicOnNs3.Trace

def E_QS_OWD : UInt8 := 0x01

def E_QS_GOODPUT : UInt8 := 0x02

def E_QS_LOST : UInt8 := 0x04

/-- What `LogGoodput` computes a line from. -/
structure GoodputRecord where
  lastRateTime : Nat
  receiptTime : Nat
  bytes : Int
  deriving DecidableEq, Repr

/-- What `LogLostPackets` computes a line from. -/
structure LostRecord where
  lostPackets : Int
  largestSeq : Int
  deriving DecidableEq, Repr

/-- `Ns3QuicServerTrace`.  Times are in nanoseconds. -/
structure Ns3QuicServerTrace where
  lastSeq : Int := 0
  largestSeq : Int := 0
  lostPackets : Int := 0
  lastRateBytes : Int := 0
  lastRateTime : Nat := 0
  readBytes : Int := 0
  firstPacketTime : Nat := 0
  receiptTime : Nat := 0
  owd : Option (List Arrival) := none
  lost : Option (List LostRecord) := none
  goodput : Option (List GoodputRecord) := none
  deriving DecidableEq, Repr

namespace Ns3QuicServerTrace

/-- The constructor: every file whose flag is set is open and empty. -/
def new (e : UInt8) : Ns3QuicServerTrace where
  owd := if e &&& E_QS_OWD ≠ 0 then some [] else none
  lost := if e &&& E_QS_LOST ≠ 0 then some [] else none
  goodput := if e &&& E_QS_GOODPUT ≠ 0 then some [] else none

/-- The line that `LogGoodput` writes. -/
def goodputRecord (t : Ns3QuicServerTrace) : GoodputRecord where
  lastRateTime := t.lastRateTime
  receiptTime := t.receiptTime
  bytes := t.readBytes - t.lastRateBytes

/-- `Ns3QuicServerTrace::LogGoodput`, with `g_goodputInterval` as `interval`. -/
def logGoodput (interval : Int) (dtor : Bool) (t : Ns3QuicServerTrace) : Ns3QuicServerTrace :=
  match t.goodput with
  | none => t
  | some lines =>
    if dtor then
      if t.receiptTime > t.lastRateTime then
        { t with goodput := some (lines ++ [t.goodputRecord]) }
      else t
    else if (t.receiptTime : Int) ≥ t.lastRateTime + interval then
      { t with
        goodput := some (lines ++ [t.goodputRecord])
        lastRateBytes := t.readBytes
        lastRateTime := t.receiptTime }
    else t

/-- The first part of `OnOwd` up to the call of `LogGoodput`.  The time of receipt is
kept only when the one-way-delay file is open. -/
def receive (t : Ns3QuicServerTrace) (a : Arrival) : Ns3QuicServerTrace :=
  { t with
    firstPacketTime := if t.firstPacketTime = 0 then a.now else t.firstPacketTime
    lastRateTime := if t.firstPacketTime = 0 then a.now else t.lastRateTime
    readBytes := t.readBytes + a.len
    owd := t.owd.map (· ++ [a])
    receiptTime := if t.owd.isSome then a.now else t.receiptTime }

/-- The first part of `OnOwd`. -/
def countBytes (interval : Int) (t : Ns3QuicServerTrace) (a : Arrival) : Ns3QuicServerTrace :=
  if t.owd.isSome || t.goodput.isSome then (t.receive a).logGoodput interval false else t

/-- The second part of `OnOwd`. -/
def countLost (t : Ns3QuicServerTrace) (seq : Int) : Ns3QuicServerTrace :=
  if t.lost.isSome then
    { t with
      lostPackets :=
        if seq > t.lastSeq - 1 then t.lostPackets + (seq - t.lastSeq - 1) else t.lostPackets
      lastSeq := if seq > t.lastSeq then seq else t.lastSeq
      largestSeq := if seq > t.largestSeq then seq else t.largestSeq }
  else t

/-- `Ns3QuicServerTrace::OnOwd`. -/
def onOwd (interval : Int) (t : Ns3QuicServerTrace) (a : Arrival) : Ns3QuicServerTrace :=
  (t.countBytes interval a).countLost a.seq

/-- `Ns3QuicServerTrace::LogLostPackets`. -/
def logLostPackets (t : Ns3QuicServerTrace) : Ns3QuicServerTrace :=
  match t.lost with
  | none => t
  | some lines => { t with lost := some (lines ++ [⟨t.lostPackets, t.largestSeq⟩]) }

/-- The destructor, up to the closing of the files. -/
def destroy (interval : Int) (t : Ns3QuicServerTrace) : Ns3QuicServerTrace :=
  (t.logGoodput interval true).logLostPackets

/-- A new trace after a sequence of arrivals. -/
def after (interval : Int) (e : UInt8) (arrivals : List Arrival) : Ns3QuicServerTrace :=
  arrivals.foldl (onOwd interval) (new e)

/-- The lines that a trace has written to the goodput file when it is destroyed. -/
def goodputRecords (interval : Int) (e : UInt8) (arrivals : List Arrival) : List GoodputRecord :=
  ((after interval e arrivals).destroy interval).goodput.getD []

variable {interval : Int} {e : UInt8} {t : Ns3QuicServerTrace} {a : Arrival}

/-! ## What a call keeps -/

/-- With the goodput file open, a line is written when the interval has passed. -/
theorem logGoodput_cases (interval : Int) {lines : List GoodputRecord}
    (h : t.goodput = some lines) :
    (t.receiptTime : Int) < t.lastRateTime + interval ∧ t.logGoodput interval false = t ∨
      (t.lastRateTime : Int) + interval ≤ t.receiptTime ∧
        t.logGoodput interval false =
          { t with
            goodput := some (lines ++ [t.goodputRecord])
            lastRateBytes := t.readBytes
            lastRateTime := t.receiptTime } := by
  unfold logGoodput
  rw [h]
  by_cases hdue : (t.receiptTime : Int) ≥ t.lastRateTime + interval
  · exact Or.inr ⟨hdue, if_pos hdue⟩
  · exact Or.inl ⟨not_le.1 hdue, if_neg hdue⟩

/-- The last line is written when a packet came after the last but one. -/
theorem destroy_goodput {lines : List GoodputRecord} (h : t.goodput = some lines) :
    (t.destroy interval).goodput =
      some (if t.lastRateTime < t.receiptTime then lines ++ [t.goodputRecord] else lines) := by
  have hkeeps : (t.destroy interval).goodput = (t.logGoodput interval true).goodput := by
    unfold destroy logLostPackets
    split <;> rfl
  rw [hkeeps, logGoodput, h]
  show (if t.receiptTime > t.lastRateTime then
    { t with goodput := some (lines ++ [t.goodputRecord]) } else t).goodput = _
  split_ifs
  · rfl
  · exact h

theorem logGoodput_of_closed (h : t.goodput = none) (dtor : Bool) :
    t.logGoodput interval dtor = t := by
  unfold logGoodput
  rw [h]

/-- The counting of bytes leaves the sequence numbers and their file alone. -/
theorem countBytes_keeps (interval : Int) (t : Ns3QuicServerTrace) (a : Arrival) :
    (t.countBytes interval a).lastSeq = t.lastSeq ∧
    (t.countBytes interval a).largestSeq = t.largestSeq ∧
    (t.countBytes interval a).lostPackets = t.lostPackets ∧
    (t.countBytes interval a).lost = t.lost := by
  unfold countBytes
  split
  · cases hlines : (t.receive a).goodput with
    | none =>
      rw [logGoodput_of_closed hlines]
      exact ⟨rfl, rfl, rfl, rfl⟩
    | some lines =>
      rcases logGoodput_cases interval hlines with ⟨_, heq⟩ | ⟨_, heq⟩
      · rw [heq]
        exact ⟨rfl, rfl, rfl, rfl⟩
      · rw [heq]
        exact ⟨rfl, rfl, rfl, rfl⟩
  · exact ⟨rfl, rfl, rfl, rfl⟩

/-- The counting of sequence numbers leaves the bytes and their files alone. -/
theorem countLost_keeps (seq : Int) : ∃ lastSeq largestSeq lostPackets,
    t.countLost seq = { t with lastSeq, largestSeq, lostPackets } := by
  unfold countLost
  split
  · exact ⟨_, _, _, rfl⟩
  · exact ⟨_, _, _, rfl⟩

/-- One more arrival. -/
theorem after_concat (arrivals : List Arrival) : after interval e (arrivals ++ [a]) =
    (after interval e arrivals).onOwd interval a := by
  rw [after, after, List.foldl_concat]

end Ns3QuicServerTrace

/-! ## The traces of the dispatcher -/

open Ns3QuicServerTrace

/-- The state of an open trace, by the calls that it was told of. -/
def OpenTrace.state (interval : Int) (e : UInt8) (t : OpenTrace) : Ns3QuicServerTrace :=
  after interval e t.arrivals

/-- The dispatcher passes a call on to the trace, and to no other one. -/
theorem Ns3QuicServerTraceDispatcher.tell_state (interval : Int) (e : UInt8)
    (d : Ns3QuicServerTraceDispatcher) (id id' : Nat) (a : Arrival) :
    ((d.tell id a).traces[id']?).map (OpenTrace.state interval e) =
      ((d.traces[id']?).map (OpenTrace.state interval e)).map fun t =>
        if id' = id then t.onOwd interval a else t := by
  rw [tell, List.getElem?_modify]
  cases d.traces[id']? with
  | none => rfl
  | some t =>
    simp only [Option.map_eq_map, Option.map_some]
    by_cases hid : id' = id
    · rw [if_pos hid.symm, if_pos hid]
      exact congrArg some (after_concat t.arrivals)
    · rw [if_neg (Ne.symm hid), if_neg hid]

end QuicOnNs3.Trace
