import QuicOnNs3.Client.Bandwidth

/-!
# The channel that drains a stream

The server of the bandwidth test opens a `BandwidthReadChannel` on the stream, which
reads what has arrived and counts it in `read_bytes_`.  `write_bytes_` of the client
and `read_bytes_` are both 32-bit counters of bytes, and they wrap on a long run.

What lies between the two channels is the QUIC library.  Of the reading side it is
assumed what `QuicStream.Laws` says, and of the connection that it delivers the accepted
bytes in order.  Then the two counters differ by the bytes that are on the way
(`transfer_conserved`).
-/

namespace QuicOnNs3.Server

open QuicOnNs3.Client

/-- `BandwidthReadChannel`. -/
structure BandwidthReadChannel where
  readBytes : UInt32 := 0
  deriving DecidableEq, Repr

section Channel

variable {σ : Type*} (S : QuicStream σ)

/-- `BandwidthReadChannel::OnCanRead`. -/
def BandwidthReadChannel.onCanRead (c : BandwidthReadChannel) (s : σ) :
    BandwidthReadChannel × σ :=
  let buffer := S.read s [] false
  ({ c with readBytes := c.readBytes + UInt32.ofNat buffer.1.length }, buffer.2.2)

/-- `Ns3TransportStream::OnDataAvailable` of a stream with a read channel. -/
def BandwidthReadChannel.onDataAvailable (c : BandwidthReadChannel) (s : σ) :
    BandwidthReadChannel × σ :=
  if S.isClosed s then (c, S.onFinRead s)
  else if S.readableBytes s = 0 then (c, s)
  else c.onCanRead S s

/-- The channel after a sequence of deliveries. -/
def BandwidthReadChannel.receive (c : BandwidthReadChannel) (ds : List (Delivery σ)) :
    BandwidthReadChannel :=
  ds.foldl (fun c d => (c.onDataAvailable S d.found).1) c

/-- The deliveries of the stream of the channel `c`: each adds its bytes to what the calls
before it have left. -/
def Arrives (unread : σ → List UInt8) : BandwidthReadChannel → σ → List (Delivery σ) → Prop
  | _, _, [] => True
  | c, s, d :: ds =>
    unread d.found = unread s ++ d.bytes ∧
      Arrives unread (c.onDataAvailable S d.found).1 (c.onDataAvailable S d.found).2 ds

end Channel

section Laws

variable {σ : Type*} {S : QuicStream σ} {unread : σ → List UInt8} {finished : σ → Bool}
  {c : BandwidthReadChannel} {s : σ} {ds : List (Delivery σ)}

/-- A delivery is read as a whole, and counted. -/
theorem QuicStream.Laws.read_counted (h : S.Laws unread finished) (c : BandwidthReadChannel)
    (s : σ) :
    (c.onDataAvailable S s).1.readBytes = c.readBytes + UInt32.ofNat (unread s).length ∧
      unread (c.onDataAvailable S s).2 = [] := by
  have hzero : unread s = [] → c.readBytes = c.readBytes + UInt32.ofNat (unread s).length := by
    intro hs
    rw [hs]
    exact (UInt32.add_zero _).symm
  unfold BandwidthReadChannel.onDataAvailable
  split_ifs with hclosed hreadable
  · have hs := h.unread_of_isClosed s hclosed
    exact ⟨hzero hs, (h.unread_onFinRead s).trans hs⟩
  · rw [h.readableBytes_eq, List.length_eq_zero_iff] at hreadable
    exact ⟨hzero hreadable, hreadable⟩
  · obtain ⟨hbuffer, hunread, _⟩ := h.read_eq s
    unfold BandwidthReadChannel.onCanRead
    dsimp only
    rw [hbuffer]
    exact ⟨rfl, hunread⟩

/-- `read_bytes_` is the number of the bytes that have arrived, modulo 2^32. -/
theorem QuicStream.Laws.receive_eq (h : S.Laws unread finished) (hs : unread s = [])
    (hds : Arrives S unread c s ds) :
    (c.receive S ds).readBytes = c.readBytes + UInt32.ofNat (message ds).length := by
  induction ds generalizing c s with
  | nil => exact (UInt32.add_zero _).symm
  | cons d ds ih =>
    obtain ⟨hbytes, hrest⟩ := hds
    rw [hs, List.nil_append] at hbytes
    obtain ⟨hread, hleft⟩ := h.read_counted c d.found
    have ih := ih hleft hrest
    rw [BandwidthReadChannel.receive, List.foldl_cons, ← BandwidthReadChannel.receive, ih, hread,
      hbytes, message_cons, List.length_append, UInt32.ofNat_add, UInt32.add_assoc]

end Laws

/-- Whatever the client's channel does among the other alarms, and however the accepted
bytes come in: what the server has counted and what is on the way is what the client has
counted, modulo 2^32. -/
theorem transfer_conserved {σ τ : Type*} (W : QuicStream σ) {R : QuicStream τ}
    {unread : τ → List UInt8} {finished : τ → Bool} (h : R.Laws unread finished) (v : UInt8)
    (now₀ : Nat) (a : Alarm.AlarmCB) {ops : List (BandwidthOp σ)} {c : BandwidthClient}
    (hrun : ops.foldlM (bandwidthStep W (contentInit v)) (.new now₀ a) = .ok c) {s : τ}
    (hs : unread s = []) {ds : List (Delivery τ)} (hds : Arrives R unread {} s ds)
    {onTheWay : List UInt8}
    (hstream : acceptedBytes c.channel.written = message ds ++ onTheWay) :
    c.channel.writeBytes =
      (BandwidthReadChannel.receive R {} ds).readBytes + UInt32.ofNat onTheWay.length := by
  rw [writeBytes_run hrun, hstream, h.receive_eq hs hds, List.length_append, UInt32.ofNat_add,
    UInt32.zero_add]

/-- The writing side of a stream whose send buffer takes one chunk. -/
def oneChunk : QuicStream Bool where
  readableBytes _ := 0
  readv room _ := ([], room)
  isClosed _ := false
  onFinRead room := room
  canWriteNewData room := room
  writeSideClosed _ := false
  writeMemSlices _ data fin := (⟨data.length, fin⟩, false)
  onUnrecoverableError room := room

theorem writeLoop_oneChunk (kContent : List UInt8) (writeBytes : UInt32) :
    writeLoop oneChunk kContent kWritePackets writeBytes true =
      (writeBytes + 1500, [⟨kContent, true⟩, ⟨kContent, false⟩]) := by
  simp [kWritePackets, writeLoop, QuicStream.write, QuicStream.canWrite, oneChunk]

/-- One chunk is written, and 1000 of its bytes arrive. -/
theorem transfer_conserved_oneChunk :
    ∃ c : BandwidthClient,
      [BandwidthOp.startFillData true].foldlM (bandwidthStep oneChunk (contentInit 97))
        (.new 0 1) = .ok c ∧
      c.channel.writeBytes =
        (BandwidthReadChannel.receive sendingStream {}
          [⟨List.replicate 1000 97, { unread := List.replicate 1000 97 }⟩]).readBytes +
        UInt32.ofNat (List.replicate 500 (97 : UInt8)).length := by
  have hds : Arrives sendingStream (·.unread) {} {}
      [⟨List.replicate 1000 97, { unread := List.replicate 1000 97 }⟩] := ⟨rfl, trivial⟩
  have hrun : [BandwidthOp.startFillData true].foldlM (bandwidthStep oneChunk (contentInit 97))
      (.new 0 1) = .ok _ := rfl
  refine ⟨_, hrun, transfer_conserved oneChunk sendingStream_laws 97 0 1 hrun rfl hds ?_⟩
  show acceptedBytes ([] ++ (writeLoop oneChunk (contentInit 97) kWritePackets 0 true).2) = _
  rw [writeLoop_oneChunk]
  show contentInit 97 ++ [] = (List.replicate 1000 97 ++ []) ++ List.replicate 500 97
  rw [List.append_nil, List.append_nil, List.replicate_append_replicate]
  rfl

end QuicOnNs3.Server
