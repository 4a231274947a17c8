import Mathlib.Data.List.Basic
import Mathlib.Tactic.TypeStar

/-!
# The echo channel

A server session opens an `EchoBidiChannel` on every incoming bidirectional
stream.  Whenever bytes have arrived, the stream calls `OnCanRead`, which reads what
there is and writes it back, with the FIN.  The second arrival therefore finds a
stream that takes no more data (`echo_complete_iff`).

The stream's base class `QuicStream` belongs to the QUIC library.  It is the
parameter `S`, whose operations are the ones that `Ns3TransportStream` calls, and
`QuicStream.Laws` is what is assumed of them.
-/

namespace QuicOnNs3.Server

/-! ## The stream -/

/-- How much of a write has been accepted. -/
structure QuicConsumedData where
  bytesConsumed : Nat
  finConsumed : Bool
  deriving DecidableEq, Repr

/-- The operations of a `QuicStream`, and of its sequencer, on a state `σ`. -/
structure QuicStream (σ : Type*) where
  readableBytes : σ → Nat
  readv : σ → Nat → List UInt8 × σ
  isClosed : σ → Bool
  onFinRead : σ → σ
  canWriteNewData : σ → Bool
  writeSideClosed : σ → Bool
  writeMemSlices : σ → List UInt8 → Bool → QuicConsumedData × σ
  onUnrecoverableError : σ → σ

namespace QuicStream

variable {σ : Type*} (S : QuicStream σ)

/-- `Ns3TransportStream::CanWrite`. -/
def canWrite (s : σ) : Bool :=
  S.canWriteNewData s && !S.writeSideClosed s

/-- `Ns3TransportStream::Read` into a buffer, with the value of `fin` after it. -/
def readBuffer (s : σ) (bufferSize : Nat) (fin : Bool) : List UInt8 × Bool × σ :=
  let result := S.readv s bufferSize
  if S.isClosed result.2 then (result.1, true, S.onFinRead result.2)
  else (result.1, fin, result.2)

/-- `Ns3TransportStream::Read` into a string. -/
def read (s : σ) (output : List UInt8) (fin : Bool) : List UInt8 × Bool × σ :=
  let result := S.readBuffer s (S.readableBytes s) fin
  (output ++ result.1, result.2)

/-- `Ns3TransportStream::SendFin`. -/
def sendFin (s : σ) : Bool × σ :=
  if !S.canWrite s then (false, s)
  else
    let consumed := S.writeMemSlices s [] true
    (consumed.1.finConsumed, consumed.2)

/-- `Ns3TransportStream::Write` with a FIN.  The data is `none` for a null pointer. -/
def write (s : σ) (data : Option (List UInt8)) (fin : Bool) : Bool × σ :=
  if data.isNone && fin then S.sendFin s
  else if !S.canWrite s then (false, s)
  else
    let bytes := data.getD []
    let consumed := S.writeMemSlices s bytes fin
    if consumed.1.bytesConsumed = bytes.length then (true, consumed.2)
    else if consumed.1.bytesConsumed = 0 then (false, consumed.2)
    else (false, S.onUnrecoverableError consumed.2)

end QuicStream

/-- What a channel tried to write, and the result. -/
structure Written where
  bytes : List UInt8
  accepted : Bool
  deriving DecidableEq, Repr

section Channel

variable {σ : Type*} (S : QuicStream σ)

/-- `EchoBidiChannel::OnCanRead`. -/
def EchoBidiChannel.onCanRead (s : σ) : Written × σ :=
  let buffer := S.read s [] false
  let result := S.write buffer.2.2 (some buffer.1) true
  (⟨buffer.1, result.1⟩, result.2)

/-- `Ns3TransportStream::OnDataAvailable` of a stream with an echo channel. -/
def QuicStream.onDataAvailable (s : σ) : Option Written × σ :=
  if S.isClosed s then (none, S.onFinRead s)
  else if S.readableBytes s = 0 then (none, s)
  else
    let result := EchoBidiChannel.onCanRead S s
    (some result.1, result.2)

end Channel

/-! ## What is assumed of the stream -/

/-- The laws of a stream, by the bytes that it has received and not handed out
(`unread`) and whether it has accepted a FIN (`finished`). -/
structure QuicStream.Laws {σ : Type*} (S : QuicStream σ) (unread : σ → List UInt8)
    (finished : σ → Bool) : Prop where
  /-- Reading hands out the bytes in order and leaves the write side alone. -/
  readableBytes_eq (s : σ) : S.readableBytes s = (unread s).length
  readv_fst (s : σ) (n : Nat) : (S.readv s n).1 = (unread s).take n
  unread_readv (s : σ) (n : Nat) : unread (S.readv s n).2 = (unread s).drop n
  finished_readv (s : σ) (n : Nat) : finished (S.readv s n).2 = finished s
  canWrite_readv (s : σ) (n : Nat) : S.canWrite (S.readv s n).2 = S.canWrite s
  /-- The sequencer is closed when everything up to the peer's FIN has been read. -/
  unread_of_isClosed (s : σ) : S.isClosed s = true → unread s = []
  unread_onFinRead (s : σ) : unread (S.onFinRead s) = unread s
  finished_onFinRead (s : σ) : finished (S.onFinRead s) = finished s
  canWrite_onFinRead (s : σ) : S.canWrite (S.onFinRead s) = S.canWrite s
  /-- A write is accepted as a whole, and with it its FIN, after which no data is. -/
  unread_write (s : σ) (data : List UInt8) (fin : Bool) :
    unread (S.writeMemSlices s data fin).2 = unread s
  accepts (s : σ) (data : List UInt8) (fin : Bool) : S.canWrite s = true → finished s = false →
    (S.writeMemSlices s data fin).1.bytesConsumed = data.length
  refuses (s : σ) (data : List UInt8) (fin : Bool) : S.canWrite s = true → finished s = true →
    (S.writeMemSlices s data fin).1.bytesConsumed = 0
  finished_write (s : σ) (data : List UInt8) (fin : Bool) : S.canWrite s = true →
    finished (S.writeMemSlices s data fin).2 = (finished s || fin)

/-- Bytes that arrive, and the stream as `OnDataAvailable` finds it. -/
structure Delivery (σ : Type*) where
  bytes : List UInt8
  found : σ

section Echo

variable {σ : Type*} (S : QuicStream σ) (unread : σ → List UInt8) (finished : σ → Bool)

/-- The deliveries of a stream: each adds its bytes to what the calls before it have
left.  What else happens to the stream between two calls is not fixed. -/
def Delivers : σ → List (Delivery σ) → Prop
  | _, [] => True
  | s, d :: ds =>
    (unread d.found = unread s ++ d.bytes ∧ finished d.found = finished s) ∧
      Delivers (S.onDataAvailable d.found).2 ds

/-- The message, which the deliveries split. -/
def message (ds : List (Delivery σ)) : List UInt8 :=
  ds.flatMap (·.bytes)

/-- The deliveries that bring bytes. -/
def segments (ds : List (Delivery σ)) : List (Delivery σ) :=
  ds.filter fun d => d.bytes ≠ []

/-- What the echo channel writes in the course of the deliveries. -/
def writes (ds : List (Delivery σ)) : List Written :=
  ds.filterMap fun d => (S.onDataAvailable d.found).1

/-- What it succeeds in writing. -/
def echo (ds : List (Delivery σ)) : List UInt8 :=
  ((writes S ds).filter (·.accepted)).flatMap (·.bytes)

end Echo

/-! ## One delivery -/

section Laws

variable {σ : Type*} {S : QuicStream σ} {unread : σ → List UInt8} {finished : σ → Bool}

/-- `Read` hands out everything that is there. -/
theorem QuicStream.Laws.read_eq (h : S.Laws unread finished) (s : σ) :
    (S.read s [] false).1 = unread s ∧ unread (S.read s [] false).2.2 = [] ∧
      finished (S.read s [] false).2.2 = finished s ∧
      S.canWrite (S.read s [] false).2.2 = S.canWrite s := by
  have hbytes : (S.readv s (S.readableBytes s)).1 = unread s := by
    rw [h.readv_fst, h.readableBytes_eq, List.take_length]
  have hunread : unread (S.readv s (S.readableBytes s)).2 = [] := by
    rw [h.unread_readv, h.readableBytes_eq, List.drop_length]
  unfold QuicStream.read QuicStream.readBuffer
  dsimp only
  rw [List.nil_append]
  split_ifs
  · refine ⟨hbytes, ?_, ?_, ?_⟩
    · rw [h.unread_onFinRead, hunread]
    · rw [h.finished_onFinRead, h.finished_readv]
    · rw [h.canWrite_onFinRead, h.canWrite_readv]
  · exact ⟨hbytes, hunread, h.finished_readv s _, h.canWrite_readv s _⟩

/-- `Write` of data with the FIN succeeds once at most. -/
theorem QuicStream.Laws.write_eq (h : S.Laws unread finished) (s : σ) {data : List UInt8}
    (hdata : data ≠ []) :
    (S.write s (some data) true).1 = (S.canWrite s && !finished s) ∧
      unread (S.write s (some data) true).2 = unread s ∧
      finished (S.write s (some data) true).2 = (finished s || S.canWrite s) := by
  have hunread := h.unread_write s data true
  have hlen : 0 ≠ data.length := fun heq => hdata (List.length_eq_zero_iff.1 heq.symm)
  unfold QuicStream.write
  rw [Option.isNone_some, Bool.false_and, if_neg Bool.false_ne_true, Option.getD_some]
  dsimp only
  cases hcan : S.canWrite s with
  | false =>
    rw [Bool.not_false, if_pos rfl]
    exact ⟨rfl, rfl, (Bool.or_false _).symm⟩
  | true =>
    have hfin : finished (S.writeMemSlices s data true).2 = true := by
      rw [h.finished_write s data true hcan, Bool.or_true]
    rw [Bool.not_true, if_neg Bool.false_ne_true, Bool.or_true]
    cases hfinished : finished s with
    | false =>
      rw [if_pos (h.accepts s data true hcan hfinished)]
      exact ⟨rfl, hunread, hfin⟩
    | true =>
      have hrefused := h.refuses s data true hcan hfinished
      rw [if_neg (by rw [hrefused]; exact hlen), if_pos hrefused]
      exact ⟨rfl, hunread, hfin⟩

/-- A delivery without bytes writes nothing. -/
theorem QuicStream.Laws.onDataAvailable_of_empty (h : S.Laws unread finished) {s : σ}
    (hs : unread s = []) :
    (S.onDataAvailable s).1 = none ∧ unread (S.onDataAvailable s).2 = [] ∧
      finished (S.onDataAvailable s).2 = finished s := by
  have hreadable : S.readableBytes s = 0 := by rw [h.readableBytes_eq, hs, List.length_nil]
  unfold QuicStream.onDataAvailable
  rw [if_pos hreadable]
  split_ifs
  · exact ⟨rfl, by rw [h.unread_onFinRead, hs], h.finished_onFinRead s⟩
  · exact ⟨rfl, hs, rfl⟩

/-- A delivery of bytes writes them, which succeeds once at most. -/
theorem QuicStream.Laws.onDataAvailable_of_bytes (h : S.Laws unread finished) {s : σ}
    (hs : unread s ≠ []) :
    (S.onDataAvailable s).1 = some ⟨unread s, S.canWrite s && !finished s⟩ ∧
      unread (S.onDataAvailable s).2 = [] ∧
      finished (S.onDataAvailable s).2 = (finished s || S.canWrite s) := by
  have hopen : ¬ S.isClosed s = true := fun hclosed => hs (h.unread_of_isClosed s hclosed)
  have hreadable : ¬ S.readableBytes s = 0 := by
    rw [h.readableBytes_eq, List.length_eq_zero_iff]
    exact hs
  have ⟨hbuffer, hunread, hfinished, hcan⟩ := h.read_eq s
  have ⟨hresult, hunread', hfinished'⟩ := h.write_eq (S.read s [] false).2.2 hs
  unfold QuicStream.onDataAvailable EchoBidiChannel.onCanRead
  rw [if_neg hopen, if_neg hreadable]
  dsimp only
  rw [hbuffer]
  refine ⟨?_, ?_, ?_⟩
  · rw [hresult, hcan, hfinished]
  · rw [hunread', hunread]
  · rw [hfinished', hfinished, hcan]

/-! ## All deliveries -/

/-- A delivery without bytes adds nothing to the echo. -/
theorem echo_cons_of_none {d : Delivery σ} (hnone : (S.onDataAvailable d.found).1 = none)
    (ds : List (Delivery σ)) : echo S (d :: ds) = echo S ds := by
  rw [echo, writes, List.filterMap_cons, hnone]
  rfl

theorem echo_cons_of_some {d : Delivery σ} {w : Written}
    (hsome : (S.onDataAvailable d.found).1 = some w) (ds : List (Delivery σ)) :
    echo S (d :: ds) = (if w.accepted then w.bytes else []) ++ echo S ds := by
  rw [echo, writes, List.filterMap_cons, hsome, List.filter_cons]
  split_ifs
  · rw [List.flatMap_cons]
    rfl
  · rfl

/-- After a FIN nothing is echoed. -/
theorem QuicStream.Laws.echo_of_finished (h : S.Laws unread finished) {s : σ}
    (hunread : unread s = []) (hfinished : finished s = true) {ds : List (Delivery σ)}
    (hds : Delivers S unread finished s ds) : echo S ds = [] := by
  induction ds generalizing s with
  | nil => rfl
  | cons d ds ih =>
    obtain ⟨⟨hbytes, hkept⟩, hrest⟩ := hds
    rw [hunread, List.nil_append] at hbytes
    rw [hfinished] at hkept
    by_cases hempty : d.bytes = []
    · obtain ⟨hnone, hleft, hfin⟩ := h.onDataAvailable_of_empty (hbytes.trans hempty)
      rw [echo_cons_of_none hnone]
      exact ih hleft (hfin.trans hkept) hrest
    · rw [← hbytes] at hempty
      obtain ⟨hsome, hleft, hfin⟩ := h.onDataAvailable_of_bytes hempty
      rw [hkept, Bool.not_true, Bool.and_false] at hsome
      rw [hkept, Bool.true_or] at hfin
      rw [echo_cons_of_some hsome, if_neg Bool.false_ne_true, List.nil_append]
      exact ih hleft hfin hrest

/-- The bytes of the first delivery of which `p` holds. -/
def firstBytes (p : Delivery σ → Bool) (ds : List (Delivery σ)) : List UInt8 :=
  ((ds.find? p).map (·.bytes)).getD []

theorem firstBytes_cons (p : Delivery σ → Bool) (d : Delivery σ) (ds : List (Delivery σ)) :
    firstBytes p (d :: ds) = if p d then d.bytes else firstBytes p ds := by
  rw [firstBytes, List.find?_cons]
  cases p d <;> rfl

/-- The echo is the first segment that comes while the stream can be written to. -/
theorem QuicStream.Laws.echo_eq (h : S.Laws unread finished) {s : σ}
    (hunread : unread s = []) (hfinished : finished s = false) {ds : List (Delivery σ)}
    (hds : Delivers S unread finished s ds) :
    echo S ds = firstBytes (fun d => S.canWrite d.found) (segments ds) := by
  induction ds generalizing s with
  | nil => rfl
  | cons d ds ih =>
    obtain ⟨⟨hbytes, hkept⟩, hrest⟩ := hds
    rw [hunread, List.nil_append] at hbytes
    rw [hfinished] at hkept
    by_cases hempty : d.bytes = []
    · obtain ⟨hnone, hleft, hfin⟩ := h.onDataAvailable_of_empty (hbytes.trans hempty)
      have hseg : segments (d :: ds) = segments ds :=
        List.filter_cons_of_neg (by simpa using hempty)
      rw [echo_cons_of_none hnone, hseg]
      exact ih hleft (hfin.trans hkept) hrest
    · have hseg : segments (d :: ds) = d :: segments ds :=
        List.filter_cons_of_pos (by simpa using hempty)
      rw [← hbytes] at hempty
      obtain ⟨hsome, hleft, hfin⟩ := h.onDataAvailable_of_bytes hempty
      rw [hkept, Bool.not_false, Bool.and_true] at hsome
      rw [hkept, Bool.false_or] at hfin
      rw [echo_cons_of_some hsome, hseg, firstBytes_cons]
      cases hcan : S.canWrite d.found with
      | true =>
        rw [h.echo_of_finished hleft (hfin.trans hcan) hrest, if_pos rfl, if_pos rfl,
          List.append_nil]
        exact hbytes
      | false =>
        rw [if_neg Bool.false_ne_true, if_neg Bool.false_ne_true, List.nil_append]
        exact ih hleft (hfin.trans hcan) hrest

theorem message_cons (d : Delivery σ) (ds : List (Delivery σ)) :
    message (d :: ds) = d.bytes ++ message ds := rfl

theorem message_segments (ds : List (Delivery σ)) : message (segments ds) = message ds := by
  induction ds with
  | nil => rfl
  | cons d ds ih =>
    rw [segments, List.filter_cons]
    split_ifs with hempty
    · rw [message_cons, message_cons, ← segments, ih]
    · have hbytes : d.bytes = [] := by simpa using hempty
      rw [message_cons, hbytes, List.nil_append, ← segments, ih]

/-- A part of the message is no longer than the message. -/
theorem firstBytes_length_le (p : Delivery σ → Bool) (ds : List (Delivery σ)) :
    (firstBytes p ds).length ≤ (message ds).length := by
  induction ds with
  | nil => exact Nat.le_refl _
  | cons d ds ih =>
    rw [firstBytes_cons, message_cons, List.length_append]
    split_ifs
    · exact Nat.le_add_right ..
    · exact Nat.le_add_left_of_le ih

/-- The first segment that is written is the message exactly when it is the only one. -/
theorem firstBytes_eq_message_iff {p : Delivery σ → Bool} {ds : List (Delivery σ)}
    (hne : ∀ d ∈ ds, d.bytes ≠ []) :
    firstBytes p ds = message ds ↔ ds = [] ∨ ∃ d, ds = [d] ∧ p d = true := by
  cases ds with
  | nil => exact iff_of_true rfl (Or.inl rfl)
  | cons d ds =>
    have hd := List.length_pos_iff.2 (hne d (by simp))
    cases ds with
    | nil =>
      rw [firstBytes_cons, message_cons]
      cases hp : p d with
      | true => simp [hp, message]
      | false => simpa [hp, message, firstBytes] using (hne d (by simp)).symm
    | cons e ds =>
      have he := List.length_pos_iff.2 (hne e (by simp))
      have hrest := firstBytes_length_le p (e :: ds)
      apply iff_of_false
      · intro heq
        have hlen := congrArg List.length heq
        rw [firstBytes_cons, message_cons, List.length_append] at hlen
        split_ifs at hlen
        · rw [message_cons, List.length_append] at hlen
          omega
        · omega
      · simp

/-- A message is echoed as a whole exactly when it is empty, or it comes in one segment
and the stream can be written to when that segment comes. -/
theorem echo_complete_iff (h : S.Laws unread finished) {s : σ} (hunread : unread s = [])
    (hfinished : finished s = false) {ds : List (Delivery σ)}
    (hds : Delivers S unread finished s ds) :
    echo S ds = message ds ↔
      segments ds = [] ∨ ∃ d, segments ds = [d] ∧ S.canWrite d.found = true := by
  have hne : ∀ d ∈ segments ds, d.bytes ≠ [] := by
    intro d hd
    simpa using (List.mem_filter.1 hd).2
  rw [h.echo_eq hunread hfinished hds, ← message_segments, firstBytes_eq_message_iff hne]

end Laws

/-! ## A stream that sends at once -/

/-- A stream whose send buffer is never full, and which closes its write side when it
has sent the FIN. -/
structure SendingStream where
  unread : List UInt8 := []
  finReceived : Bool := false
  sent : List UInt8 := []
  finSent : Bool := false
  deriving DecidableEq, Repr

def sendingStream : QuicStream SendingStream where
  readableBytes s := s.unread.length
  readv s n := (s.unread.take n, { s with unread := s.unread.drop n })
  isClosed s := s.finReceived && s.unread.isEmpty
  onFinRead s := s
  canWriteNewData _ := true
  writeSideClosed s := s.finSent
  writeMemSlices s data fin :=
    if s.finSent then (⟨0, false⟩, s)
    else (⟨data.length, fin⟩, { s with sent := s.sent ++ data, finSent := fin })
  onUnrecoverableError s := s

theorem sendingStream_laws : sendingStream.Laws (·.unread) (·.finSent) := by
  have hopen : ∀ s, sendingStream.canWrite s = true → s.finSent = false := by
    intro s hcan
    simpa [QuicStream.canWrite, sendingStream] using hcan
  constructor
  case readableBytes_eq | readv_fst | unread_readv | finished_readv | canWrite_readv |
      unread_onFinRead | finished_onFinRead | canWrite_onFinRead =>
    intros
    rfl
  case unread_of_isClosed =>
    intro s hclosed
    have hboth : s.finReceived = true ∧ s.unread = [] := by simpa [sendingStream] using hclosed
    exact hboth.2
  case unread_write =>
    intro s data fin
    unfold sendingStream
    dsimp only
    split_ifs <;> rfl
  case accepts =>
    intro s data fin _ hfin
    unfold sendingStream
    dsimp only
    rw [hfin]
    rfl
  case refuses =>
    intro s data fin hcan hfin
    rw [hopen s hcan] at hfin
    exact absurd hfin Bool.false_ne_true
  case finished_write =>
    intro s data fin hcan
    unfold sendingStream
    dsimp only
    rw [hopen s hcan]
    rfl

/-- `hello`, with the FIN behind it. -/
def helloAtOnce : List (Delivery SendingStream) :=
  [⟨[104, 101, 108, 108, 111], { unread := [104, 101, 108, 108, 111], finReceived := true }⟩]

theorem echo_complete_iff_helloAtOnce :
    echo sendingStream helloAtOnce = message helloAtOnce := by
  have hds : Delivers sendingStream (·.unread) (·.finSent) {} helloAtOnce := ⟨⟨rfl, rfl⟩, trivial⟩
  exact (echo_complete_iff sendingStream_laws rfl rfl hds).2 (Or.inr ⟨_, rfl, by decide⟩)

/-- `he` and `llo`. -/
def helloInTwo : List (Delivery SendingStream) :=
  [⟨[104, 101], { unread := [104, 101] }⟩,
    ⟨[108, 108, 111],
      { unread := [108, 108, 111], finReceived := true, sent := [104, 101], finSent := true }⟩]

/-- The second segment is not echoed. -/
theorem helloInTwo_not_echoed :
    sendingStream.Laws (·.unread) (·.finSent) ∧
      Delivers sendingStream (·.unread) (·.finSent) {} helloInTwo ∧
      echo sendingStream helloInTwo ≠ message helloInTwo :=
  ⟨sendingStream_laws, ⟨⟨rfl, rfl⟩, ⟨rfl, rfl⟩, trivial⟩, by decide⟩

end QuicOnNs3.Server
