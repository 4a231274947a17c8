import Mathlib.Data.List.Perm.Basic
import QuicOnNs3.App.ClientApp
import QuicOnNs3.Lib.Execution
import QuicOnNs3.Trace.Flows

/-!
# Clients, a network and a server

Any number of clients, each at an address of its own, send packets to one server
application.  The network may drop a packet and may deliver those that are in flight
in any order.  A delivered packet goes to the end of the queue of the server's socket,
which then calls `RecvPacket` once.

`RecvPacket` takes one packet from the queue and reads its tag, and `OnOwd` of the
dispatcher gets the number, the delay and the length.  While the application is not
running, `RecvPacket` returns at once and leaves the packet where it is: from then on
the packet that a call takes is not the one that it was called for (`packets_conserved`).

The numbers and times that a `Datagram` carries are history.  `networkInv_step` ties
them to the tags, and to the counters of the clients.
-/

namespace QuicOnNs3.App

open QuicOnNs3.Execution QuicOnNs3.Trace

/-! ## The data model -/

/-- An `InetSocketAddress`. -/
structure InetSocketAddress where
  ip : UInt32
  port : UInt16
  deriving DecidableEq, Repr

/-- A packet with the address that it comes from.  `number` counts the packets of its
client, and `sentAt` is the time of the call of `SendToNetwork`, in nanoseconds. -/
structure Datagram where
  source : InetSocketAddress
  packet : Packet
  number : Nat
  sentAt : Nat
  deriving DecidableEq, Repr

/-- `QuicServerApp`, with the receive queue of its socket, and `backend` while the one of
`m_impl` is not null. -/
structure QuicServerApp where
  address : InetSocketAddress
  running : Bool := false
  backend : Bool := true
  queue : List Datagram := []
  trace : Option Ns3QuicServerTraceDispatcher := none

/-- The system.  The last three fields are its history. -/
structure Network where
  now : Nat := 0
  client : InetSocketAddress → QuicClientApp := fun _ => {}
  flight : List Datagram := []
  server : QuicServerApp
  sent : List Datagram := []
  dropped : List Datagram := []
  handled : List (Nat × Datagram) := []

/-- What `QuicServerAppImpl::Start` finds: a supported version, and a proof source that is
not null. -/
structure Platform where
  supportedVersions : Bool := true
  proofSource : Bool := true
  deriving DecidableEq, Repr

/-- What stops the program. -/
inductive Fault where
  /-- `Deserialize` reads past the end of the tag. -/
  | tagOverrun
  /-- `CopyData` writes past the end of `buffer`. -/
  | bufferOverflow
  | noPacket
  /-- `QUICHE_CHECK(proof_source!=nullptr)`. -/
  | noProofSource
  | nullBackend
  | notEnabled
  deriving DecidableEq, Repr

/-- The packets of one client. -/
def flow (x : InetSocketAddress) (ds : List Datagram) : List Datagram :=
  ds.filter fun d => d.source = x

/-- The key of a flow, `Ns3QuicAddressPair(c,s)`. -/
def addressPair (c s : InetSocketAddress) : Ns3QuicAddressPair := ⟨c.ip, s.ip, c.port, s.port⟩

/-! ## The server -/

/-- The arguments of `OnOwd` in `RecvPacket`: the sequence number and the delay are cut
down to an `int`, the delay of times that are an `int64`. -/
def arrival (now : Nat) (tag : Ns3QuicTag) (length : Nat) : Arrival :=
  let nowMs : Int := (now / 1000000 : Nat)
  let sentTime : Int := (tag.time.toNat : Int).bmod (2 ^ 64)
  { now := now
    seq := toInt tag.seq.toNat
    owd := if nowMs ≥ sentTime then toInt (nowMs - sentTime) else 0
    len := length }

namespace Network

/-- The packet `d` leaves the queue, and the dispatcher is told of it. -/
def handle (s : Network) (d : Datagram) (queue : List Datagram) (tag : Ns3QuicTag) : Network :=
  { s with
    server := { s.server with
      queue := queue
      trace := s.server.trace.map fun trace =>
        trace.onOwd (addressPair d.source s.server.address)
          (arrival s.now tag d.packet.bytes.length) }
    handled := s.handled ++ [(s.now, d)] }

/-- `QuicServerApp::RecvPacket`. -/
def recvPacket (s : Network) : Except Fault Network :=
  if s.server.running then
    match s.server.queue with
    | [] => .error .noPacket
    | d :: queue =>
      match Ns3QuicTag.deserialize d.packet.tag with
      | none => .error .tagOverrun
      | some (tag, _) =>
        if 2000 < d.packet.bytes.length then .error .bufferOverflow
        else .ok (s.handle d queue tag)
  else .ok s

/-- `QuicServerApp::StartApplication`, whose `m_impl->Start` returns early without a
version, and reads the backend otherwise. -/
def startApplication (s : Network) (platform : Platform) : Except Fault Network :=
  let s : Network := { s with server := { s.server with running := true } }
  if !platform.supportedVersions then .ok s
  else if !platform.proofSource then .error .noProofSource
  else if s.server.backend then .ok s
  else .error .nullBackend

/-- `QuicServerApp::StopApplication`. -/
def stopApplication (s : Network) : Network :=
  { s with server := { s.server with running := false, backend := false, trace := none } }

/-- The packets that a client sends with one call. -/
def emit (s : Network) (x : InetSocketAddress) (out : Output) : Network :=
  let ds := out.sent.map fun p => ⟨x, p, (flow x s.sent).length + 1, s.now⟩
  { s with
    client := Function.update s.client x out.app
    flight := s.flight ++ ds
    sent := s.sent ++ ds }

/-- The packet in the place `k` leaves the network. -/
def leave (s : Network) (k : Nat) : Network := { s with flight := s.flight.eraseIdx k }

/-- A packet comes to the socket of the server. -/
def arrive (s : Network) (d : Datagram) : Network :=
  { s with server := { s.server with queue := s.server.queue ++ [d] } }

end Network

/-! ## The machine -/

/-- A call on a client, what the network does, or a call on the server. -/
inductive NetworkOp where
  | advance (now : Nat)
  | client (x : InetSocketAddress) (op : ClientOp)
  | drop (k : Nat)
  | deliver (k : Nat)
  | startApplication (platform : Platform)
  | stopApplication
  deriving DecidableEq, Repr

/-- The call happens at the time `now`. -/
def ClientOp.happensAt (now : Nat) : ClientOp → Bool
  | .sendToNetwork t _ _ => t = now
  | _ => true

/-- One step. -/
def networkStep (s : Network) : NetworkOp → Except Fault Network
  | .advance now => if s.now ≤ now then .ok { s with now := now } else .error .notEnabled
  | .client x op =>
    if op.happensAt s.now then .ok (s.emit x (clientStep (s.client x) op))
    else .error .notEnabled
  | .drop k =>
    match s.flight[k]? with
    | none => .error .notEnabled
    | some d => .ok { s.leave k with dropped := s.dropped ++ [d] }
  | .deliver k =>
    match s.flight[k]? with
    | none => .error .notEnabled
    | some d => ((s.leave k).arrive d).recvPacket
  | .startApplication platform => s.startApplication platform
  | .stopApplication => .ok s.stopApplication

/-- A server that monitors the flows of the clients `monitored`. -/
def Network.new (address : InetSocketAddress) (monitored : List InetSocketAddress) : Network where
  server :=
    { address
      trace := some (dispatcherRun
        (monitored.map fun x => .addMonitorAddressPair (addressPair x address))) }

/-! ## The history -/

/-- The packets that came to the server, in order. -/
def Network.arrived (s : Network) : List Datagram := s.handled.map Prod.snd ++ s.server.queue

/-- The tag that a packet was given. -/
def Datagram.tag (d : Datagram) : Ns3QuicTag :=
  ⟨UInt64.ofNat d.number, UInt64.ofNat (d.sentAt / 1000000)⟩

/-- The calls on the dispatcher. -/
def dispatcherCalls (address : InetSocketAddress) (monitored : List InetSocketAddress)
    (handled : List (Nat × Datagram)) : List DispatcherOp :=
  (monitored.map fun x => .addMonitorAddressPair (addressPair x address)) ++
    handled.map fun h => .onOwd (addressPair h.2.source address)
      (arrival h.1 h.2.tag h.2.packet.bytes.length)

/-- What holds in every state of a run. -/
structure NetworkInv (address : InetSocketAddress) (monitored : List InetSocketAddress)
    (s : Network) : Prop where
  address_eq : s.server.address = address
  conserved : (s.flight ++ (s.dropped ++ s.arrived)).Perm s.sent
  numbered : ∀ x, (flow x s.sent).map Datagram.number = List.range' 1 (flow x s.sent).length
  seq : ∀ x, (s.client x).seq = UInt64.ofNat ((flow x s.sent).length + 1)
  tagged : ∀ d ∈ s.sent, d.packet.tag = d.tag.serialize
  past : ∀ d ∈ s.sent, d.sentAt ≤ s.now
  handled_past : ∀ h ∈ s.handled, h.2.sentAt ≤ h.1 ∧ h.1 ≤ s.now
  trace : ∀ t, s.server.trace = some t →
    t = dispatcherRun (dispatcherCalls address monitored s.handled)

variable {address : InetSocketAddress} {monitored : List InetSocketAddress} {s t : Network}
  {x : InetSocketAddress} {d : Datagram} {k : Nat}

/-! ## What the calls do -/

/-- What a client sends: nothing, or one packet with its counter and its time. -/
theorem clientStep_cases (app : QuicClientApp) (op : ClientOp) :
    ((clientStep app op).sent = [] ∧ (clientStep app op).app.seq = app.seq) ∨
      ∃ now quicClient buffer, op = .sendToNetwork now quicClient buffer ∧ app.socket = true ∧
        (clientStep app op).sent =
          [⟨buffer, Ns3QuicTag.serialize ⟨app.seq, UInt64.ofNat (now / 1000000)⟩⟩] ∧
        (clientStep app op).app.seq = app.seq + 1 := by
  cases op with
  | sendToNetwork now quicClient buffer =>
    unfold clientStep QuicClientApp.sendToNetwork
    by_cases hs : app.socket = true
    · right
      refine ⟨now, quicClient, buffer, rfl, hs, ?_⟩
      simp only [if_pos hs]
      cases quicClient <;> exact ⟨rfl, rfl⟩
    · left
      simp only [if_neg hs]
      trivial
  | _ => exact Or.inl ⟨rfl, rfl⟩

/-- A tag is read back, or the reader runs past its end. -/
theorem deserialize_serialize (tag : Ns3QuicTag) :
    Ns3QuicTag.deserialize tag.serialize =
      if tag.seq ≠ 0 ∧ tag.time ≠ 0 then some (tag, []) else none := by
  obtain ⟨seq, time⟩ := tag
  have hdecode : ∀ value : UInt64, varientDecode (varintEncode value) =
      if value ≠ 0 then some (value, []) else none := by
    intro value
    split
    · rename_i h
      simpa using varientDecode_varintEncode h []
    · rename_i h
      rw [not_not.1 h, varintEncode_zero, varientDecode_nil]
  unfold Ns3QuicTag.deserialize Ns3QuicTag.serialize
  by_cases hs : seq = 0
  · rw [hs, varintEncode_zero, List.nil_append, hdecode]
    by_cases ht : time = 0 <;> simp [ht, varientDecode_nil]
  · rw [varientDecode_varintEncode hs]
    by_cases ht : time = 0 <;> simp [hs, ht, hdecode]

/-- `RecvPacket` does nothing, or takes the first packet of the queue. -/
theorem recvPacket_cases (h : s.recvPacket = .ok t) :
    s.server.running = false ∧ t = s ∨
      ∃ d queue tag i, s.server.running = true ∧ s.server.queue = d :: queue ∧
        Ns3QuicTag.deserialize d.packet.tag = some (tag, i) ∧ t = s.handle d queue tag := by
  unfold Network.recvPacket at h
  by_cases hrunning : s.server.running = true
  · rw [if_pos hrunning] at h
    right
    cases hqueue : s.server.queue with
    | nil => simp [hqueue] at h
    | cons d queue =>
      cases htag : Ns3QuicTag.deserialize d.packet.tag with
      | none => simp [hqueue, htag] at h
      | some r =>
        simp only [hqueue, htag] at h
        split at h
        · exact absurd h (by simp)
        · exact ⟨d, queue, r.1, r.2, hrunning, rfl, htag, (Except.ok.inj h).symm⟩
  · rw [if_neg hrunning] at h
    exact Or.inl ⟨Bool.not_eq_true _ ▸ hrunning, (Except.ok.inj h).symm⟩

/-- A packet that fits the buffer, with a tag that can be read back, is handled. -/
theorem recvPacket_eq {queue : List Datagram} {tag : Ns3QuicTag}
    (hrunning : s.server.running = true) (hqueue : s.server.queue = d :: queue)
    (htag : d.packet.tag = tag.serialize) (hread : tag.seq ≠ 0 ∧ tag.time ≠ 0)
    (hlength : d.packet.bytes.length ≤ 2000) : s.recvPacket = .ok (s.handle d queue tag) := by
  unfold Network.recvPacket
  rw [if_pos hrunning, hqueue]
  simp only [htag, deserialize_serialize, if_pos hread, if_neg (not_lt.2 hlength)]

/-- What a step does, for each kind of step. -/
inductive Stepped (s : Network) : NetworkOp → Network → Prop where
  | advance {now : Nat} (hnow : s.now ≤ now) : Stepped s (.advance now) { s with now := now }
  | client (x : InetSocketAddress) {op : ClientOp} (hop : op.happensAt s.now = true) :
      Stepped s (.client x op) (s.emit x (clientStep (s.client x) op))
  | drop {k : Nat} {d : Datagram} (hk : s.flight[k]? = some d) :
      Stepped s (.drop k) { s.leave k with dropped := s.dropped ++ [d] }
  | deliver {k : Nat} {d : Datagram} {t : Network} (hk : s.flight[k]? = some d)
      (hrecv : ((s.leave k).arrive d).recvPacket = .ok t) : Stepped s (.deliver k) t
  | startApplication (platform : Platform) :
      Stepped s (.startApplication platform)
        { s with server := { s.server with running := true } }
  | stopApplication : Stepped s .stopApplication s.stopApplication

theorem stepped_of_ok {op : NetworkOp} (h : networkStep s op = .ok t) : Stepped s op t := by
  cases op with
  | stopApplication => exact Except.ok.inj h ▸ .stopApplication
  | advance now =>
    simp only [networkStep] at h
    split at h
    · rename_i hnow
      exact Except.ok.inj h ▸ .advance hnow
    · exact absurd h (by simp)
  | client x op =>
    simp only [networkStep] at h
    split at h
    · rename_i hop
      exact Except.ok.inj h ▸ .client x hop
    · exact absurd h (by simp)
  | drop k =>
    simp only [networkStep] at h
    split at h
    · exact absurd h (by simp)
    · rename_i d hk
      exact Except.ok.inj h ▸ .drop hk
  | deliver k =>
    simp only [networkStep] at h
    split at h
    · exact absurd h (by simp)
    · rename_i d hk
      exact .deliver hk h
  | startApplication platform =>
    simp only [networkStep, Network.startApplication] at h
    split_ifs at h
    · exact Except.ok.inj h ▸ .startApplication platform
    · exact Except.ok.inj h ▸ .startApplication platform

theorem deliver_eq {d' : Datagram} {queue : List Datagram} {tag : Ns3QuicTag}
    (hk : s.flight[k]? = some d) (hrunning : s.server.running = true)
    (hqueue : s.server.queue ++ [d] = d' :: queue) (htag : d'.packet.tag = tag.serialize)
    (hread : tag.seq ≠ 0 ∧ tag.time ≠ 0) (hlength : d'.packet.bytes.length ≤ 2000) :
    networkStep s (.deliver k) = .ok (((s.leave k).arrive d).handle d' queue tag) := by
  simp only [networkStep, hk]
  exact recvPacket_eq hrunning hqueue htag hread hlength

/-! ## The flows -/

theorem flow_append (x : InetSocketAddress) (ds es : List Datagram) :
    flow x (ds ++ es) = flow x ds ++ flow x es := List.filter_append ..

theorem flow_singleton (x : InetSocketAddress) (d : Datagram) :
    flow x [d] = if d.source = x then [d] else [] := by
  by_cases hd : d.source = x <;> simp [flow, hd]

theorem perm_leave {s : Network} (h : s.flight[k]? = some d) :
    s.flight.Perm (d :: (s.leave k).flight) := by
  obtain ⟨hlt, rfl⟩ := List.getElem?_eq_some_iff.1 h
  exact (List.getElem_cons_eraseIdx_perm hlt).symm

theorem NetworkInv.sent_of_arrived (h : NetworkInv address monitored s) (hd : d ∈ s.arrived) :
    d ∈ s.sent :=
  h.conserved.mem_iff.1 (List.mem_append_right _ (List.mem_append_right _ hd))

theorem arrived_of_handled {p : Nat × Datagram} (hp : p ∈ s.handled) : p.2 ∈ s.arrived :=
  List.mem_append_left _ (List.mem_map_of_mem hp)

/-- Two packets of a run with one address and one number are the same packet. -/
theorem NetworkInv.nodup (h : NetworkInv address monitored s) : s.sent.Nodup := by
  rw [List.nodup_iff_count_le_one]
  intro d
  have hflow : (flow d.source s.sent).Nodup := by
    apply List.Nodup.of_map Datagram.number
    rw [h.numbered]
    exact List.nodup_range'
  rw [← List.count_filter (p := fun e => e.source = d.source) (by simp)]
  exact List.nodup_iff_count_le_one.1 hflow d

/-! ## One step -/

theorem networkInv_new (address : InetSocketAddress) (monitored : List InetSocketAddress) :
    NetworkInv address monitored (Network.new address monitored) where
  address_eq := rfl
  conserved := List.Perm.refl []
  numbered _ := rfl
  seq _ := rfl
  tagged := by simp [Network.new]
  past := by simp [Network.new]
  handled_past := by simp [Network.new]
  trace := by
    intro t ht
    rw [← Option.some.inj ht, dispatcherCalls]
    simp [Network.new]

theorem NetworkInv.advance (h : NetworkInv address monitored s) {now : Nat} (hnow : s.now ≤ now) :
    NetworkInv address monitored { s with now := now } where
  address_eq := h.address_eq
  conserved := h.conserved
  numbered := h.numbered
  seq := h.seq
  tagged := h.tagged
  past d hd := (h.past d hd).trans hnow
  handled_past p hp := ⟨(h.handled_past p hp).1, (h.handled_past p hp).2.trans hnow⟩
  trace := h.trace

/-- A packet that is sent has the number that comes next in its flow. -/
theorem NetworkInv.emit (h : NetworkInv address monitored s) {op : ClientOp}
    (hop : op.happensAt s.now = true) :
    NetworkInv address monitored (s.emit x (clientStep (s.client x) op)) := by
  rcases clientStep_cases (s.client x) op with ⟨hsent, hseq⟩ | ⟨now, c, buffer, rfl, -, hsent, hseq⟩
  · unfold Network.emit
    simp only [hsent, List.map_nil, List.append_nil]
    refine { h with seq := fun y => ?_ }
    by_cases hy : y = x
    · rw [hy]
      show (Function.update s.client x _ x).seq = _
      rw [Function.update_self, hseq, h.seq]
    · show (Function.update s.client x _ y).seq = _
      rw [Function.update_of_ne hy, h.seq]
  · obtain rfl : now = s.now := by simpa [ClientOp.happensAt] using hop
    unfold Network.emit
    rw [hsent, List.map_singleton]
    have hflow : ∀ d : Datagram, d.source = x → ∀ y,
        flow y (s.sent ++ [d]) = if y = x then flow y s.sent ++ [d] else flow y s.sent := by
      intro d hd y
      rw [flow_append, flow_singleton, hd]
      by_cases hy : y = x
      · rw [if_pos hy.symm, if_pos hy]
      · rw [if_neg (Ne.symm hy), if_neg hy, List.append_nil]
    have hmem : ∀ (P : Datagram → Prop) (d : Datagram), (∀ e ∈ s.sent, P e) → P d →
        ∀ e ∈ s.sent ++ [d], P e := by
      intro P d hP hd e he
      rcases List.mem_append.1 he with he | he
      · exact hP e he
      · exact List.mem_singleton.1 he ▸ hd
    constructor
    · exact h.address_eq
    · show ((s.flight ++ [_]) ++ (s.dropped ++ s.arrived)).Perm (s.sent ++ [_])
      rw [List.append_assoc]
      exact ((List.perm_append_comm.append_left s.flight).trans
        (List.append_assoc .. ▸ h.conserved.append_right _))
    · intro y
      show (flow y (s.sent ++ [_])).map _ = List.range' 1 (flow y (s.sent ++ [_])).length
      rw [hflow _ rfl]
      split
      · rename_i hy
        rw [List.map_append, h.numbered, List.length_append, hy, List.map_singleton,
          List.length_singleton, List.range'_concat, Nat.one_mul, Nat.add_comm 1]
      · exact h.numbered y
    · intro y
      show (Function.update s.client x _ y).seq = UInt64.ofNat ((flow y (s.sent ++ [_])).length + 1)
      rw [hflow _ rfl]
      by_cases hy : y = x
      · rw [hy, Function.update_self, hseq, h.seq, if_pos rfl, List.length_append,
          List.length_singleton, UInt64.ofNat_add (_ + 1)]
        rfl
      · rw [Function.update_of_ne hy, h.seq, if_neg hy]
    · apply hmem _ _ h.tagged
      rw [h.seq]
      rfl
    · exact hmem _ _ h.past (Nat.le_refl _)
    · exact h.handled_past
    · exact h.trace

theorem NetworkInv.drop (h : NetworkInv address monitored s) (hk : s.flight[k]? = some d) :
    NetworkInv address monitored { s.leave k with dropped := s.dropped ++ [d] } := by
  refine { h with conserved := List.Perm.trans ?_ h.conserved }
  show ((s.leave k).flight ++ ((s.dropped ++ [d]) ++ s.arrived)).Perm _
  rw [List.perm_iff_count]
  intro e
  have hcount := (perm_leave hk).count_eq e
  rw [List.count_cons] at hcount
  simp only [List.count_append, List.count_singleton]
  omega

theorem NetworkInv.arrive (h : NetworkInv address monitored s) (hk : s.flight[k]? = some d) :
    NetworkInv address monitored ((s.leave k).arrive d) := by
  refine { h with conserved := List.Perm.trans ?_ h.conserved }
  show ((s.leave k).flight ++ (s.dropped ++
    (s.handled.map Prod.snd ++ (s.server.queue ++ [d])))).Perm
      (s.flight ++ (s.dropped ++ (s.handled.map Prod.snd ++ s.server.queue)))
  rw [List.perm_iff_count]
  intro e
  have hcount := (perm_leave hk).count_eq e
  rw [List.count_cons] at hcount
  simp only [List.count_append, List.count_singleton]
  omega

/-- The packet that is handled was sent, and its tag is read back. -/
theorem NetworkInv.recvPacket (h : NetworkInv address monitored s) (ht : s.recvPacket = .ok t) :
    NetworkInv address monitored t := by
  rcases recvPacket_cases ht with ⟨-, rfl⟩ | ⟨d, queue, tag, i, -, hqueue, htag, rfl⟩
  · exact h
  · have hsent : d ∈ s.sent := by
      refine h.conserved.mem_iff.1 ?_
      simp [Network.arrived, hqueue]
    have hread : tag = d.tag := by
      rw [h.tagged d hsent, deserialize_serialize] at htag
      split at htag
      · exact (Prod.mk.inj (Option.some.inj htag)).1.symm
      · exact absurd htag (by simp)
    refine { h with conserved := ?_, handled_past := ?_, trace := ?_ }
    · show (s.flight ++ (s.dropped ++ ((s.handled ++ [(s.now, d)]).map Prod.snd ++ queue))).Perm _
      refine List.Perm.trans (List.Perm.of_eq ?_) h.conserved
      simp [Network.arrived, hqueue]
    · intro p hp
      rcases List.mem_append.1 hp with hp | hp
      · exact h.handled_past p hp
      · obtain rfl := List.mem_singleton.1 hp
        exact ⟨h.past d hsent, Nat.le_refl _⟩
    · intro u hu
      obtain ⟨trace, htrace, rfl⟩ := Option.map_eq_some_iff.1 hu
      rw [h.trace trace htrace, h.address_eq, hread]
      show _ = dispatcherRun (_ ++ (s.handled ++ [(s.now, d)]).map _)
      rw [List.map_append, ← List.append_assoc, dispatcherRun, dispatcherRun, List.map_singleton,
        List.foldl_concat]
      rfl

/-- Every step keeps the history. -/
theorem networkInv_step (h : NetworkInv address monitored s) {op : NetworkOp}
    (hstep : networkStep s op = .ok t) : NetworkInv address monitored t := by
  cases stepped_of_ok hstep with
  | advance hnow => exact h.advance hnow
  | client x hop => exact h.emit hop
  | drop hk => exact h.drop hk
  | deliver hk hrecv => exact (h.arrive hk).recvPacket hrecv
  | startApplication platform => exact { h with }
  | stopApplication =>
    refine { h with trace := fun u hu => ?_ }
    exact absurd hu (by simp [Network.stopApplication])

theorem networkInv_run {ops : List NetworkOp}
    (hrun : ops.foldlM networkStep (Network.new address monitored) = .ok s) :
    NetworkInv address monitored s :=
  run_keeps (fun _ _ _ h ht => networkInv_step h ht) (networkInv_new address monitored) hrun

/-! ## Whole runs -/

/-- What has happened in `s` has happened in `t`, in the same order, and no fewer packets
wait at the server. -/
structure Continues (s t : Network) : Prop where
  arrived : s.arrived <+: t.arrived
  handled : s.handled <+: t.handled
  backlog : s.server.queue.length ≤ t.server.queue.length

/-- A step that leaves the socket of the server alone. -/
theorem Continues.of_eq (hhandled : t.handled = s.handled)
    (hqueue : t.server.queue = s.server.queue) : Continues s t := by
  constructor
  · rw [Network.arrived, Network.arrived, hhandled, hqueue]
  · rw [hhandled]
  · rw [hqueue]

theorem Continues.trans {u : Network} (hst : Continues s t) (htu : Continues t u) :
    Continues s u where
  arrived := hst.arrived.trans htu.arrived
  handled := hst.handled.trans htu.handled
  backlog := hst.backlog.trans htu.backlog

/-- A packet that arrives makes the server handle at most one, the first of its queue. -/
theorem continues_deliver (h : ((s.leave k).arrive d).recvPacket = .ok t) : Continues s t := by
  rcases recvPacket_cases h with ⟨-, rfl⟩ | ⟨d', queue, tag, i, -, hqueue, -, rfl⟩
  · refine ⟨?_, List.prefix_refl _, ?_⟩
    · show s.handled.map Prod.snd ++ s.server.queue <+:
        s.handled.map Prod.snd ++ (s.server.queue ++ [d])
      rw [← List.append_assoc]
      exact List.prefix_append _ _
    · show s.server.queue.length ≤ (s.server.queue ++ [d]).length
      rw [List.length_append]
      omega
  · have hqueue : s.server.queue ++ [d] = d' :: queue := hqueue
    refine ⟨?_, List.prefix_append _ _, ?_⟩
    · show s.handled.map Prod.snd ++ s.server.queue <+:
        (s.handled ++ [(s.now, d')]).map Prod.snd ++ queue
      rw [List.map_append, List.append_assoc]
      show _ <+: s.handled.map Prod.snd ++ (d' :: queue)
      rw [← hqueue, ← List.append_assoc]
      exact List.prefix_append _ _
    · show s.server.queue.length ≤ queue.length
      have hlength := congrArg List.length hqueue
      rw [List.length_append, List.length_cons, List.length_cons,
        List.length_nil] at hlength
      omega

theorem continues_step {op : NetworkOp} (h : networkStep s op = .ok t) : Continues s t := by
  cases stepped_of_ok h with
  | deliver _ hrecv => exact continues_deliver hrecv
  | _ => exact Continues.of_eq rfl rfl

/-- The server handles the packets in the order in which they arrive, one for each that
arrives while it is running.  Those that wait keep waiting: a packet that arrives is
handled when as many others have arrived after it. -/
theorem backlog_never_shrinks {ops : List NetworkOp} (hrun : ops.foldlM networkStep s = .ok t) :
    s.arrived <+: t.arrived ∧ s.handled <+: t.handled ∧
      t.handled.length + s.server.queue.length ≤ t.arrived.length := by
  have h : Continues s t :=
    run_keeps (fun _ _ _ h ht => h.trans (continues_step ht)) (Continues.of_eq rfl rfl) hrun
  refine ⟨h.arrived, h.handled, ?_⟩
  have hbacklog := h.backlog
  rw [Network.arrived, List.length_append, List.length_map]
  omega

/-- A packet of the client at `1:49153`, sent after five milliseconds. -/
def helloPacket (number : Nat) (bytes : List UInt8) : Datagram :=
  ⟨⟨1, 49153⟩, ⟨bytes, Ns3QuicTag.serialize ⟨UInt64.ofNat number, 5⟩⟩, number, 5000000⟩

/-- Two packets, of which the first arrives before the server is started. -/
def lateStart : List NetworkOp :=
  [.client ⟨1, 49153⟩ .bind, .advance 5000000,
    .client ⟨1, 49153⟩ (.sendToNetwork 5000000 none [104, 105]),
    .client ⟨1, 49153⟩ (.sendToNetwork 5000000 none [111]), .deliver 0,
    .startApplication {}]

theorem lateStart_run : ∃ s, lateStart.foldlM networkStep (Network.new ⟨9, 5000⟩ []) = .ok s ∧
    s.flight = [helloPacket 2 [111]] ∧ s.server.queue = [helloPacket 1 [104, 105]] ∧
    s.server.running = true ∧ s.handled = [] :=
  ⟨_, rfl, rfl, rfl, rfl, rfl⟩

/-- The arrival of the second packet makes the server handle the first one. -/
theorem lateStart_deliver : ∃ s t,
    lateStart.foldlM networkStep (Network.new ⟨9, 5000⟩ []) = .ok s ∧
      [.deliver 0].foldlM networkStep s = .ok t ∧ s.server.queue = [helloPacket 1 [104, 105]] ∧
      t.handled.map Prod.snd = [helloPacket 1 [104, 105]] ∧
      t.server.queue = [helloPacket 2 [111]] := by
  obtain ⟨s, hrun, hflight, hqueue, hrunning, hhandled⟩ := lateStart_run
  have hstep : networkStep s (.deliver 0) =
      .ok (((s.leave 0).arrive (helloPacket 2 [111])).handle (helloPacket 1 [104, 105])
        [helloPacket 2 [111]] ⟨1, 5⟩) := by
    refine deliver_eq (by rw [hflight]; rfl) hrunning ?_ rfl (by decide) (by decide)
    rw [hqueue]
    rfl
  refine ⟨s, _, hrun, run_cons_ok_iff.2 ⟨_, hstep, rfl⟩, hqueue, ?_, rfl⟩
  show (s.handled ++ [_]).map Prod.snd = _
  rw [hhandled]
  rfl

theorem backlog_never_shrinks_lateStart : ∃ s t,
    lateStart.foldlM networkStep (Network.new ⟨9, 5000⟩ []) = .ok s ∧
      [.deliver 0].foldlM networkStep s = .ok t ∧ s.server.queue = [helloPacket 1 [104, 105]] ∧
      s.arrived <+: t.arrived ∧ s.handled <+: t.handled ∧
      t.handled.length + s.server.queue.length ≤ t.arrived.length := by
  obtain ⟨s, t, hrun, hdeliver, hqueue, -⟩ := lateStart_deliver
  exact ⟨s, t, hrun, hdeliver, hqueue, backlog_never_shrinks hdeliver⟩

/-- Whatever the network does, every packet that was sent is in flight, was dropped, or
came to the server, and is so once.  The packets of each client are numbered from 1 on,
and each carries the tag of its number and its time. -/
theorem packets_conserved {ops : List NetworkOp}
    (hrun : ops.foldlM networkStep (Network.new address monitored) = .ok s) :
    (s.flight ++ (s.dropped ++ s.arrived)).Perm s.sent ∧
      (s.flight ++ (s.dropped ++ s.arrived)).Nodup ∧
      (∀ x, (flow x s.sent).map Datagram.number = List.range' 1 (flow x s.sent).length) ∧
      ∀ d ∈ s.sent, d.packet.tag = d.tag.serialize := by
  have h := networkInv_run hrun
  exact ⟨h.conserved, h.conserved.nodup_iff.2 h.nodup, h.numbered, h.tagged⟩

theorem packets_conserved_lateStart : ∃ s,
    lateStart.foldlM networkStep (Network.new ⟨9, 5000⟩ []) = .ok s ∧
      s.flight = [helloPacket 2 [111]] ∧ (s.flight ++ (s.dropped ++ s.arrived)).Perm s.sent ∧
      (s.flight ++ (s.dropped ++ s.arrived)).Nodup := by
  obtain ⟨s, hrun, hflight, -⟩ := lateStart_run
  obtain ⟨hperm, hnodup, -⟩ := packets_conserved hrun
  exact ⟨s, hrun, hflight, hperm, hnodup⟩

end QuicOnNs3.App
