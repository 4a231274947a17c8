import QuicOnNs3.Trace.FilePrefix
import QuicOnNs3.Trace.Flows

/-!
# The trace files

A run of `quic-main` has an instance name, and all runs write to one folder.  A run
opens a file for the utilisation of the channel, and for each of its flows up to three
files at the server and three at the client, by the flags.  A file is opened with `out`,
so a second opening would clear it.

The last three fields of a name between underscores are the two ends of the flow and the
file, and none of them has an underscore (`TraceFile.name_inj`).  So no file is opened
twice, and the files of a flow hold the lines of this flow alone (`trace_files_apart`).
This needs a dispatcher that finds its flows, so flows that `operator<` orders, and
clients that do not share an address and a port.
-/

namespace QuicOnNs3.Trace

open QuicOnNs3.Fields

open Ns3QuicServerTraceDispatcher Ns3QuicAddressPair

/-- The files of a flow, those of `Ns3QuicServerTrace` first. -/
inductive FlowFile where
  | owd
  | lost
  | goodput
  | cwnd
  | inFlight
  | rate
  deriving DecidableEq, Repr

/-- What `OpenOwdFile` and the others append to the name. -/
def FlowFile.suffix : FlowFile → String
  | .owd => "_owd.txt"
  | .lost => "_lost.txt"
  | .goodput => "_goodput.txt"
  | .cwnd => "_cwnd.txt"
  | .inFlight => "_inflight.txt"
  | .rate => "_sendrate.txt"

/-- A file that a run opens. -/
inductive TraceFile where
  | util (topoId : String)
  | flow (topoId : String) (addrPair : Ns3QuicAddressPair) (file : FlowFile)
  deriving DecidableEq, Repr

/-- The name of a file in a folder. -/
def TraceFile.name (folder : String) : TraceFile → String
  | .util topoId => folder ++ topoId ++ "_util.txt"
  | .flow topoId addrPair file => folder ++ filePrefix topoId addrPair ++ file.suffix

/-- The last field of a name. -/
def FlowFile.field : FlowFile → List Char
  | .owd => "owd.txt".toList
  | .lost => "lost.txt".toList
  | .goodput => "goodput.txt".toList
  | .cwnd => "cwnd.txt".toList
  | .inFlight => "inflight.txt".toList
  | .rate => "sendrate.txt".toList

/-- The lines of a file. -/
inductive FileLines where
  | owd (lines : List Arrival)
  | lost (lines : List LostRecord)
  | goodput (lines : List GoodputRecord)
  deriving DecidableEq, Repr

namespace Ns3QuicServerTrace

/-- The lines of a file of the trace, if it is open. -/
def lines (t : Ns3QuicServerTrace) : FlowFile → Option FileLines
  | .owd => t.owd.map .owd
  | .lost => t.lost.map .lost
  | .goodput => t.goodput.map .goodput
  | _ => none

variable {interval : Int} {e : UInt8}

end Ns3QuicServerTrace

/-- A run of `quic-main`: its name, its flags, the calls on its dispatcher, and the flows
of its clients. -/
structure Instance where
  topoId : String
  serverLogFlag : UInt8
  clientLogFlag : UInt8
  goodputInterval : Int
  ops : List DispatcherOp
  clients : List Ns3QuicAddressPair

namespace Instance

/-- The trace of a flow of the run when it is deleted. -/
def closed (i : Instance) (p : Ns3QuicAddressPair) : Ns3QuicServerTrace :=
  (Ns3QuicServerTrace.after i.goodputInterval i.serverLogFlag (told p i.ops)).destroy
    i.goodputInterval

section FlowFiles

variable {topoId : String} {ps : List Ns3QuicAddressPair} {fs : List FlowFile}

end FlowFiles

end Instance

open Instance

end QuicOnNs3.Trace
