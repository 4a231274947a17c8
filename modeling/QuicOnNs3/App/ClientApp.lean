import Mathlib.Data.List.Destutter
import QuicOnNs3.Lib.Rounding
import QuicOnNs3.Trace.Tag

/-!
# The client application

`SendToNetwork` is called for every packet that the QUIC client writes.  It asks the
client for its congestion window, its bytes in flight and its bandwidth, passes a value
on to the trace that is set for it when it is not the one that was passed on last, and
sends the packet with a tag of its number and its time.

A trace is therefore the sequence of the values without their repetitions, from the 0
that the fields start with (`traced_changes`).  The rate is compared in bits per second
and passed on as a `float` of kilobits, so two rates in a row may still read the same.
-/

namespace QuicOnNs3.App

open QuicOnNs3.FloatingPoint
open QuicOnNs3.Trace (Ns3QuicTag)

/-! ## The QUIC client -/

/-- What the `QuicSentPacketManager` of a connection reports. -/
structure SentPacketManager where
  congestionWindowInTcpMss : Int
  bytesInFlight : UInt64
  bandwidthEstimate : Int
  deriving DecidableEq, Repr

/-- `kDefaultTCPMSS`. -/
def kDefaultTCPMSS : UInt64 := 1460

/-- A value in an `int`. -/
def toInt (v : Int) : Int := v.bmod (2 ^ 32)

/-- `Ns3QuicClient`, by the connection of its session, if it has one. -/
structure Ns3QuicClient where
  manager : Option SentPacketManager := none
  deriving DecidableEq, Repr

namespace Ns3QuicClient

/-- `Ns3QuicClient::GetCongestionWindowPackets`, which leaves its argument alone when it
returns false. -/
def getCongestionWindowPackets (c : Ns3QuicClient) (packets : Int) : Bool × Int :=
  match c.manager with
  | none => (false, packets)
  | some m => (true, m.congestionWindowInTcpMss)

/-- `Ns3QuicClient::GetInFlightBytes`. -/
def getInFlightBytes (c : Ns3QuicClient) (bytes : UInt64) : Bool × UInt64 :=
  match c.manager with
  | none => (false, bytes)
  | some m => (true, m.bytesInFlight)

/-- `Ns3QuicClient::GetInFlightPackets`. -/
def getInFlightPackets (c : Ns3QuicClient) (packets : Int) : Bool × Int :=
  let result := c.getInFlightBytes 0
  if result.1 then
    (true, toInt ((result.2 + kDefaultTCPMSS - 1) / kDefaultTCPMSS).toNat)
  else (false, packets)

/-- `Ns3QuicClient::GetBandwidth`, in bits per second. -/
def getBandwidth (c : Ns3QuicClient) (bandwidth : Int) : Bool × Int :=
  match c.manager with
  | none => (false, bandwidth)
  | some m => (true, m.bandwidthEstimate)

end Ns3QuicClient

/-! ## The application -/

/-- A packet of the simulator, with the bytes of its tag. -/
structure Packet where
  bytes : List UInt8
  tag : List UInt8
  deriving DecidableEq, Repr

/-- `QuicClientApp`: whether it has a socket, and which callbacks are not null. -/
structure QuicClientApp where
  socket : Bool := false
  seq : UInt64 := 1
  traceRate : Bool := false
  traceCwnd : Bool := false
  traceInFlight : Bool := false
  rate : Int := 0
  cwnd : Int := 0
  inFlight : Int := 0
  deriving DecidableEq, Repr

/-- What was passed on to the traces. -/
structure Traced where
  rate : List ℚ := []
  cwnd : List Int := []
  inFlight : List Int := []
  deriving DecidableEq, Repr

/-- What a call leaves behind. -/
structure Output where
  app : QuicClientApp
  traced : Traced := {}
  sent : List Packet := []
  deriving DecidableEq, Repr

/-- A value for the trace with the field `last`: the field after it, and what is passed
on.  Without a callback the client is not asked. -/
def report {α : Type} (shown : Int → α) (trace : Bool) (last value : Int) : Int × List α :=
  if trace then if last ≠ value then (value, [shown value]) else (last, []) else (last, [])

/-- `1.0*bps/1000` as a `float`. -/
def kbps (bps : Int) : ℚ :=
  single.round (double.round (double.mul 1 (double.round bps) / 1000))

namespace QuicClientApp

/-- The traces of `SendToNetwork`. -/
def reportAll (app : QuicClientApp) (quicClient : Ns3QuicClient) : Output :=
  let cwnd := report id app.traceCwnd app.cwnd (quicClient.getCongestionWindowPackets 0).2
  let inFlight := report id app.traceInFlight app.inFlight (quicClient.getInFlightPackets 0).2
  let rate := report kbps app.traceRate app.rate (quicClient.getBandwidth 0).2
  { app := { app with cwnd := cwnd.1, inFlight := inFlight.1, rate := rate.1 }
    traced := ⟨rate.2, cwnd.2, inFlight.2⟩ }

/-- `QuicClientApp::SendToNetwork` at the time `now`, with `m_impl->m_quicClient` when
both are not null. -/
def sendToNetwork (app : QuicClientApp) (now : Nat) (quicClient : Option Ns3QuicClient)
    (buffer : List UInt8) : Output :=
  if app.socket then
    let reported : Output := match quicClient with
      | none => { app := app }
      | some quicClient => app.reportAll quicClient
    let app := reported.app
    let tag : Ns3QuicTag := ⟨app.seq, UInt64.ofNat (now / 1000000)⟩
    { reported with
      app := { app with seq := app.seq + 1 }
      sent := [⟨buffer, tag.serialize⟩] }
  else { app := app }

end QuicClientApp

/-- A call on the application. -/
inductive ClientOp where
  | bind
  | setRateTraceFuc
  | setCwndTraceFun
  | setInFlightTraceFun
  | sendToNetwork (now : Nat) (quicClient : Option Ns3QuicClient) (buffer : List UInt8)
  deriving DecidableEq, Repr

/-- One call. -/
def clientStep (app : QuicClientApp) : ClientOp → Output
  | .bind => { app := { app with socket := true } }
  | .setRateTraceFuc => { app := { app with traceRate := true } }
  | .setCwndTraceFun => { app := { app with traceCwnd := true } }
  | .setInFlightTraceFun => { app := { app with traceInFlight := true } }
  | .sendToNetwork now quicClient buffer => app.sendToNetwork now quicClient buffer

/-- The client that a call asks, if it asks one. -/
def ClientOp.asked (app : QuicClientApp) : ClientOp → Option Ns3QuicClient
  | .sendToNetwork _ quicClient _ => if app.socket then quicClient else none
  | _ => none

/-- The values that `SendToNetwork` passes on. -/
inductive Field where
  | rate
  | cwnd
  | inFlight
  deriving DecidableEq, Repr

namespace Field

/-- The callback of the field is not null. -/
def isTraced (app : QuicClientApp) : Field → Bool
  | rate => app.traceRate
  | cwnd => app.traceCwnd
  | inFlight => app.traceInFlight

/-- The value that was passed on last. -/
def last (app : QuicClientApp) : Field → Int
  | rate => app.rate
  | cwnd => app.cwnd
  | inFlight => app.inFlight

/-- The value that the client reports. -/
def value (c : Ns3QuicClient) : Field → Int
  | rate => (c.getBandwidth 0).2
  | cwnd => (c.getCongestionWindowPackets 0).2
  | inFlight => (c.getInFlightPackets 0).2

/-- The type of the values in the trace. -/
def Shown : Field → Type
  | rate => ℚ
  | cwnd => Int
  | inFlight => Int

/-- A value as the trace shows it. -/
def shown : (f : Field) → Int → f.Shown
  | rate => kbps
  | cwnd => id
  | inFlight => id

/-- The trace of the field. -/
def traced (t : Traced) : (f : Field) → List f.Shown
  | rate => t.rate
  | cwnd => t.cwnd
  | inFlight => t.inFlight

/-- The values that the calls ask the client for, while the field is traced. -/
def samples (f : Field) (app : QuicClientApp) : List ClientOp → List Int
  | [] => []
  | op :: ops =>
    (if f.isTraced app then ((op.asked app).map f.value).toList else []) ++
      f.samples (clientStep app op).app ops

end Field

/-- Two rates that differ by one bit per second are passed on as the same `float`. -/
example : kbps 100000001 = kbps 100000002 := by decide +kernel

end QuicOnNs3.App
