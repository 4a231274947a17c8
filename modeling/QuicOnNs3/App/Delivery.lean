import Mathlib.Algebra.Group.Nat.Defs
import QuicOnNs3.App.Network
import QuicOnNs3.Trace.LostPackets

/-!
# What the server makes of the packets

A packet is read without a fault when it fits the buffer of `RecvPacket`, and when its
number and its time in milliseconds are not 0, since the tag has no 0 (`Fits`).  Then
every packet that arrives while the server is running makes it handle one
(`every_arrival_handled`), and the trace of a flow holds the packets of its client with
their numbers and their delays (`trace_of_flow`).

A network that keeps the order of each client's packets (`InOrder`) makes the lost file
exact: its count is the number of the packets that were dropped before the last one that
was handled (`lost_file_counts_drops`).
-/

namespace QuicOnNs3.App

open QuicOnNs3.Execution QuicOnNs3.Records QuicOnNs3.Trace

variable {address : InetSocketAddress} {monitored : List InetSocketAddress} {s t : Network}
  {x : InetSocketAddress} {d : Datagram} {k : Nat}

/-! ## Packets that can be read -/

/-- The time is below 2^31 milliseconds.  A packet is sent after the first millisecond,
it has at most 2000 bytes, and it is one of the first 2^31 of its client. -/
def Fits (s : Network) : NetworkOp → Prop
  | .advance now => now < 2 ^ 31 * 1000000
  | .client x (.sendToNetwork now _ buffer) =>
    1000000 ≤ now ∧ buffer.length ≤ 2000 ∧ (flow x s.sent).length + 1 < 2 ^ 31
  | _ => True

/-- No earlier packet of the same client is in flight when a packet is delivered. -/
def InOrder (s : Network) : NetworkOp → Prop
  | .deliver k => ∀ d, s.flight[k]? = some d → ∀ e ∈ s.flight.take k, e.source ≠ d.source
  | _ => True

/-- What holds in every state of a run of steps that fit. -/
structure FitsInv (s : Network) : Prop where
  now : s.now < 2 ^ 31 * 1000000
  sent : ∀ d ∈ s.sent, 1000000 ≤ d.sentAt ∧ d.packet.bytes.length ≤ 2000 ∧ 1 ≤ d.number ∧
    d.number < 2 ^ 31

theorem fitsInv_new : FitsInv (Network.new address monitored) where
  now := Nat.lt_of_lt_of_le Nat.zero_lt_one (by decide)
  sent := by simp [Network.new]

theorem FitsInv.of_eq (h : FitsInv s) (hnow : t.now = s.now) (hsent : t.sent = s.sent) :
    FitsInv t where
  now := by
    rw [hnow]
    exact h.now
  sent := by
    rw [hsent]
    exact h.sent

theorem FitsInv.emit (h : FitsInv s) {op : ClientOp} (hop : op.happensAt s.now = true)
    (hfits : Fits s (.client x op)) : FitsInv (s.emit x (clientStep (s.client x) op)) := by
  rcases clientStep_cases (s.client x) op with ⟨hsent, -⟩ | ⟨now, c, buffer, rfl, -, hsent, -⟩
  · refine h.of_eq rfl ?_
    unfold Network.emit
    simp only [hsent, List.map_nil, List.append_nil]
  · obtain rfl : now = s.now := by simpa [ClientOp.happensAt] using hop
    obtain ⟨htime, hlength, hnumber⟩ := hfits
    refine ⟨h.now, fun d hd => ?_⟩
    unfold Network.emit at hd
    rw [hsent, List.map_singleton] at hd
    rcases List.mem_append.1 hd with hd | hd
    · exact h.sent d hd
    · obtain rfl := List.mem_singleton.1 hd
      exact ⟨htime, hlength, Nat.le_add_left 1 _, hnumber⟩

theorem recvPacket_now_sent (h : s.recvPacket = .ok t) : t.now = s.now ∧ t.sent = s.sent := by
  rcases recvPacket_cases h with ⟨-, rfl⟩ | ⟨d, queue, tag, i, -, -, -, rfl⟩
  · exact ⟨rfl, rfl⟩
  · exact ⟨rfl, rfl⟩

theorem fitsInv_step (h : FitsInv s) {op : NetworkOp} (hfits : Fits s op)
    (hstep : networkStep s op = .ok t) : FitsInv t := by
  cases stepped_of_ok hstep with
  | advance hnow => exact ⟨hfits, h.sent⟩
  | client x hop => exact h.emit hop hfits
  | deliver _ hrecv =>
    obtain ⟨hnow, hsent⟩ := recvPacket_now_sent hrecv
    exact h.of_eq hnow hsent
  | _ => exact h.of_eq rfl rfl

/-- Both invariants of a run. -/
def Sound (address : InetSocketAddress) (monitored : List InetSocketAddress)
    (s : Network) : Prop :=
  NetworkInv address monitored s ∧ FitsInv s

theorem sound_new : Sound address monitored (Network.new address monitored) :=
  ⟨networkInv_new address monitored, fitsInv_new⟩

theorem sound_step (h : Sound address monitored s) {op : NetworkOp} (hfits : Fits s op)
    (hstep : networkStep s op = .ok t) : Sound address monitored t :=
  ⟨networkInv_step h.1 hstep, fitsInv_step h.2 hfits hstep⟩

theorem sound_run {ops : List NetworkOp}
    (hfits : Each networkStep Fits (Network.new address monitored) ops)
    (hrun : ops.foldlM networkStep (Network.new address monitored) = .ok s) :
    Sound address monitored s :=
  hfits.run_keeps (fun _ _ _ h hf ht => sound_step h hf ht) sound_new hrun

/-! ## Every arrival is handled -/

theorem ofNat_ne_zero {n : Nat} (hpos : 1 ≤ n) (hlt : n < 2 ^ 31) : UInt64.ofNat n ≠ 0 := by
  intro h
  have hn := congrArg UInt64.toNat h
  rw [UInt64.toNat_ofNat'] at hn
  simp at hn
  omega

/-- The tag of a packet of the run can be read back. -/
theorem Sound.tag_ne_zero (h : Sound address monitored s) (hd : d ∈ s.sent) :
    d.tag.seq ≠ 0 ∧ d.tag.time ≠ 0 := by
  obtain ⟨htime, -, hpos, hlt⟩ := h.2.sent d hd
  have hnow := h.2.now
  have hpast := h.1.past d hd
  refine ⟨ofNat_ne_zero hpos hlt, ofNat_ne_zero ?_ ?_⟩
  · omega
  · omega

/-- A packet that arrives while the server is running makes it handle the first packet of
its queue. -/
theorem Sound.deliver (h : Sound address monitored s) (hk : s.flight[k]? = some d)
    (hrunning : s.server.running = true) :
    ∃ d' queue, s.server.queue ++ [d] = d' :: queue ∧
      networkStep s (.deliver k) = .ok (((s.leave k).arrive d).handle d' queue d'.tag) := by
  cases hqueue : s.server.queue ++ [d] with
  | nil => simp at hqueue
  | cons d' queue =>
    have hmem : d' ∈ s.sent := by
      refine (h.1.arrive hk).sent_of_arrived (List.mem_append_right _ ?_)
      show d' ∈ s.server.queue ++ [d]
      rw [hqueue]
      exact List.mem_cons_self ..
    refine ⟨d', queue, rfl, ?_⟩
    exact deliver_eq hk hrunning hqueue (h.1.tagged d' hmem) (h.tag_ne_zero hmem)
      (h.2.sent d' hmem).2.1

/-- Three packets that are sent to a running server. -/
def sendThree : List NetworkOp :=
  [.startApplication {}, .client ⟨1, 49153⟩ .bind, .advance 5000000,
    .client ⟨1, 49153⟩ (.sendToNetwork 5000000 none [104]),
    .client ⟨1, 49153⟩ (.sendToNetwork 5000000 none [105]),
    .client ⟨1, 49153⟩ (.sendToNetwork 5000000 none [33])]

/-- The second of three packets is dropped. -/
def dropSecond : List NetworkOp := sendThree ++ [.deliver 0, .drop 0, .deliver 0]

theorem sendThree_run : ∃ s,
    sendThree.foldlM networkStep (Network.new ⟨9, 5000⟩ [⟨1, 49153⟩]) = .ok s ∧
      Each networkStep (fun s op => Fits s op ∧ InOrder s op)
        (Network.new ⟨9, 5000⟩ [⟨1, 49153⟩]) sendThree ∧
      s.flight = [helloPacket 1 [104], helloPacket 2 [105], helloPacket 3 [33]] ∧
      s.server.running = true ∧ s.server.queue = [] ∧ s.handled = [] ∧ s.dropped = [] ∧
      s.server.trace.isSome = true := by
  refine ⟨_, rfl, ?_, rfl, rfl, rfl, rfl, rfl, rfl⟩
  have hsend : ∀ n < 3, 1000000 ≤ 5000000 ∧ 1 ≤ 2000 ∧ n + 1 < 2 ^ 31 := by decide
  have hadvance : 5000000 < 2 ^ 31 * 1000000 := by decide
  refine ⟨⟨trivial, trivial⟩, fun s1 h1 => ?_⟩
  obtain rfl := Except.ok.inj h1
  refine ⟨⟨trivial, trivial⟩, fun s2 h2 => ?_⟩
  obtain rfl := Except.ok.inj h2
  refine ⟨⟨hadvance, trivial⟩, fun s3 h3 => ?_⟩
  obtain rfl := Except.ok.inj h3
  refine ⟨⟨hsend 0 (by decide), trivial⟩, fun s4 h4 => ?_⟩
  obtain rfl := Except.ok.inj h4
  refine ⟨⟨hsend 1 (by decide), trivial⟩, fun s5 h5 => ?_⟩
  obtain rfl := Except.ok.inj h5
  exact ⟨⟨hsend 2 (by decide), trivial⟩, fun _ _ => trivial⟩

theorem inOrder_head (s : Network) : InOrder s (.deliver 0) := by
  intro d _ e he
  rw [List.take_zero] at he
  exact absurd he List.not_mem_nil

theorem dropSecond_run : ∃ s,
    dropSecond.foldlM networkStep (Network.new ⟨9, 5000⟩ [⟨1, 49153⟩]) = .ok s ∧
      Each networkStep (fun s op => Fits s op ∧ InOrder s op)
        (Network.new ⟨9, 5000⟩ [⟨1, 49153⟩]) dropSecond ∧
      s.handled.map Prod.snd = [helloPacket 1 [104], helloPacket 3 [33]] ∧
      s.dropped = [helloPacket 2 [105]] ∧ s.server.trace.isSome = true := by
  obtain ⟨s, hrun, hops, hflight, hrunning, hqueue, hhandled, hdropped, htrace⟩ := sendThree_run
  -- the states after the first packet is handled, the second dropped and the third handled
  generalize hs1 : ((s.leave 0).arrive (helloPacket 1 [104])).handle (helloPacket 1 [104]) []
    ⟨1, 5⟩ = s1
  generalize hs2 : { s1.leave 0 with dropped := s1.dropped ++ [helloPacket 2 [105]] } = s2
  generalize hs3 : ((s2.leave 0).arrive (helloPacket 3 [33])).handle (helloPacket 3 [33]) []
    ⟨3, 5⟩ = s3
  have hflight1 : s1.flight = [helloPacket 2 [105], helloPacket 3 [33]] := by
    rw [← hs1]
    show s.flight.eraseIdx 0 = _
    rw [hflight]
    rfl
  have hflight2 : s2.flight = [helloPacket 3 [33]] := by
    rw [← hs2]
    show s1.flight.eraseIdx 0 = _
    rw [hflight1]
    rfl
  have hfirst : networkStep s (.deliver 0) = .ok s1 := by
    rw [← hs1]
    exact deliver_eq (by rw [hflight]; rfl) hrunning (by rw [hqueue]; rfl) rfl (by decide)
      (by decide)
  have hdrop : networkStep s1 (.drop 0) = .ok s2 := by
    simp only [networkStep, hflight1, List.getElem?_cons_zero, hs2]
  have hlast : networkStep s2 (.deliver 0) = .ok s3 := by
    rw [← hs3]
    exact deliver_eq (by rw [hflight2]; rfl) (by rw [← hs2, ← hs1]; exact hrunning)
      (by rw [← hs2, ← hs1]; rfl) rfl (by decide) (by decide)
  refine ⟨s3, ?_, ?_, ?_, ?_, ?_⟩
  · rw [dropSecond, List.foldlM_append, hrun]
    exact run_cons_ok_iff.2 ⟨_, hfirst, run_cons_ok_iff.2 ⟨_, hdrop,
      run_cons_ok_iff.2 ⟨_, hlast, rfl⟩⟩⟩
  · refine (each_append hrun _).2 ⟨hops, ⟨trivial, inOrder_head s⟩, fun _ _ => ⟨⟨trivial, trivial⟩,
      fun u _ => ⟨⟨trivial, inOrder_head u⟩, fun _ _ => trivial⟩⟩⟩
  · rw [← hs3, ← hs2, ← hs1]
    show ((s.handled ++ [_]) ++ [_]).map Prod.snd = _
    rw [hhandled]
    rfl
  · rw [← hs3, ← hs2, ← hs1]
    show s.dropped ++ [_] = _
    rw [hdropped]
    rfl
  · rw [← hs3, ← hs2, ← hs1]
    show ((s.server.trace.map _).map _).isSome = true
    rw [Option.isSome_map, Option.isSome_map]
    exact htrace

/-- The line that a packet gets when it is handled at the time `h.1`. -/
def lineOf (h : Nat × Datagram) : Arrival where
  now := h.1
  seq := h.2.number
  owd := (h.1 / 1000000 : Nat) - (h.2.sentAt / 1000000 : Nat)
  len := h.2.packet.bytes.length

/-- The packets of one client that were handled. -/
def handledOf (x : InetSocketAddress) (s : Network) : List (Nat × Datagram) :=
  s.handled.filter fun h => h.2.source = x

theorem toInt_of_lt {n : Int} (hpos : 0 ≤ n) (hlt : n < 2 ^ 31) : toInt n = n := by
  unfold toInt
  rw [Int.bmod_eq_of_le] <;> omega

/-- No argument of `OnOwd` is cut. -/
theorem Sound.arrival_eq (h : Sound address monitored s) {p : Nat × Datagram}
    (hp : p ∈ s.handled) : arrival p.1 p.2.tag p.2.packet.bytes.length = lineOf p := by
  have hsent : p.2 ∈ s.sent := h.1.sent_of_arrived (arrived_of_handled hp)
  obtain ⟨htime, -, -, hlt⟩ := h.2.sent p.2 hsent
  obtain ⟨hpast, hnow⟩ := h.1.handled_past p hp
  have hbound := h.2.now
  have hdiv : p.2.sentAt / 1000000 ≤ p.1 / 1000000 := Nat.div_le_div_right hpast
  have hmsec : p.1 / 1000000 < 2 ^ 31 := by omega
  have hseq : (p.2.tag.seq.toNat : Int) = p.2.number := by
    simp only [Datagram.tag, UInt64.toNat_ofNat']
    omega
  have hsentTime : ((p.2.tag.time.toNat : Int)).bmod (2 ^ 64) = (p.2.sentAt / 1000000 : Nat) := by
    simp only [Datagram.tag, UInt64.toNat_ofNat']
    rw [Int.bmod_eq_of_le] <;> omega
  unfold arrival lineOf
  dsimp only
  rw [hseq, hsentTime, toInt_of_lt (by omega) (by omega), if_pos (by omega),
    toInt_of_lt (by omega) (by omega)]

/-- The keys that the dispatcher is asked for. -/
def flowKeys (monitored : List InetSocketAddress) (s : Network) : Set Ns3QuicAddressPair :=
  {p | ∃ x, (x ∈ monitored ∨ ∃ h ∈ s.handled, h.2.source = x) ∧
    p = addressPair x s.server.address}

theorem addressPair_inj {y : InetSocketAddress} :
    addressPair x address = addressPair y address ↔ x = y := by
  constructor
  · intro h
    obtain ⟨ip, port⟩ := x
    obtain ⟨ip', port'⟩ := y
    simpa [addressPair] using h
  · rintro rfl
    rfl

/-- The trace of a flow is told of the packets of its client. -/
theorem Sound.told_eq (h : Sound address monitored s) (hx : x ∈ monitored) :
    told (addressPair x address) (dispatcherCalls address monitored s.handled) =
      (handledOf x s).map lineOf := by
  have hadded : addressPair x address ∈ added
      (monitored.map fun x => .addMonitorAddressPair (addressPair x address)) :=
    List.mem_map.2 ⟨x, hx, rfl⟩
  have hnone : told (addressPair x address)
      (monitored.map fun x => .addMonitorAddressPair (addressPair x address)) = [] := by
    rw [told, List.filterMap_eq_nil_iff]
    intro op hop
    obtain ⟨y, -, rfl⟩ := List.mem_map.1 (List.dropWhile_sublist _ |>.mem hop)
    rfl
  rw [dispatcherCalls, told_append_of_added hadded, hnone, List.nil_append, List.filterMap_map,
    handledOf, ← List.filterMap_eq_map, List.filterMap_filter]
  refine List.filterMap_congr fun p hp => ?_
  show (if addressPair p.2.source address = addressPair x address then _ else _) = _
  simp only [addressPair_inj, h.arrival_eq hp, decide_eq_true_eq, Function.comp]

theorem Sound.keysOf_subset (h : Sound address monitored s) :
    keysOf (dispatcherCalls address monitored s.handled) ⊆ flowKeys monitored s := by
  intro p hp
  obtain ⟨op, hop, hkey⟩ := hp
  rw [flowKeys, h.1.address_eq]
  rcases List.mem_append.1 hop with hop | hop
  · obtain ⟨y, hy, rfl⟩ := List.mem_map.1 hop
    refine ⟨y, Or.inl hy, ?_⟩
    rcases hkey with hkey | ⟨a, hkey⟩
    · exact (DispatcherOp.addMonitorAddressPair.inj hkey).symm
    · exact absurd hkey (by simp)
  · obtain ⟨q, hq, rfl⟩ := List.mem_map.1 hop
    refine ⟨q.2.source, Or.inr ⟨q, hq, rfl⟩, ?_⟩
    rcases hkey with hkey | ⟨a, hkey⟩
    · exact absurd hkey (by simp)
    · exact (DispatcherOp.onOwd.inj hkey).1.symm

/-- When the keys of the flows are in order, the trace of each monitored client shows its
packets as they were handled. -/
theorem Sound.trace_eq (h : Sound address monitored s)
    (hchain : IsChain (· ≤ ·) (flowKeys monitored s)) {trace : Ns3QuicServerTraceDispatcher}
    (htrace : s.server.trace = some trace) (hx : x ∈ monitored) :
    ∃ id, trace.traceDb.find Ns3QuicAddressPair.lt (addressPair x address) =
        some (addressPair x address, id) ∧
      trace.traces[id]? = some ⟨addressPair x address, (handledOf x s).map lineOf⟩ := by
  have hkeys := hchain.mono h.keysOf_subset
  have hflows := flowInv_run hkeys
  rw [← h.1.trace trace htrace] at hflows
  have hadded : addressPair x address ∈ added (dispatcherCalls address monitored s.handled) :=
    List.mem_append_left _ (List.mem_map.2 ⟨x, hx, rfl⟩)
  obtain ⟨id, t, hfind, ht, hname⟩ :=
    hflows.disp.find_eq (hkeys.mono (added_subset_keysOf _)) hadded
  obtain ⟨_, htold⟩ := hflows.own t (List.mem_of_getElem? ht)
  refine ⟨id, hfind, ?_⟩
  rw [ht, ← h.told_eq hx, ← hname, ← htold]

/-- In every run whose packets fit, with the keys of the flows in order: the trace of each
monitored client shows the packets of this client that were handled, in order, with their
numbers, their delays in milliseconds and their lengths. -/
theorem trace_of_flow {ops : List NetworkOp}
    (hfits : Each networkStep Fits (Network.new address monitored) ops)
    (hrun : ops.foldlM networkStep (Network.new address monitored) = .ok s)
    (hchain : IsChain (· ≤ ·) (flowKeys monitored s)) {trace : Ns3QuicServerTraceDispatcher}
    (htrace : s.server.trace = some trace) (hx : x ∈ monitored) :
    ∃ id, trace.traceDb.find Ns3QuicAddressPair.lt (addressPair x address) =
        some (addressPair x address, id) ∧
      trace.traces[id]? = some ⟨addressPair x address, (handledOf x s).map lineOf⟩ :=
  (sound_run hfits hrun).trace_eq hchain htrace hx

/-- With one client, the keys are in order. -/
theorem dropSecond_keys {s : Network}
    (hhandled : s.handled.map Prod.snd = [helloPacket 1 [104], helloPacket 3 [33]]) :
    IsChain (· ≤ ·) (flowKeys [⟨1, 49153⟩] s) := by
  refine IsChain.mono (t := {addressPair ⟨1, 49153⟩ s.server.address}) ?_ IsChain.singleton
  rintro p ⟨x, hx | ⟨h, hh, rfl⟩, rfl⟩
  · rw [List.mem_singleton.1 hx]
    rfl
  · have hmem : h.2 ∈ s.handled.map Prod.snd := List.mem_map_of_mem hh
    rw [hhandled, List.mem_pair] at hmem
    rcases hmem with heq | heq <;> rw [heq] <;> rfl

theorem trace_of_flow_dropSecond : ∃ s trace,
    dropSecond.foldlM networkStep (Network.new ⟨9, 5000⟩ [⟨1, 49153⟩]) = .ok s ∧
      s.server.trace = some trace ∧
      ∃ id, trace.traceDb.find Ns3QuicAddressPair.lt (addressPair ⟨1, 49153⟩ ⟨9, 5000⟩) =
          some (addressPair ⟨1, 49153⟩ ⟨9, 5000⟩, id) ∧
        trace.traces[id]? =
          some ⟨addressPair ⟨1, 49153⟩ ⟨9, 5000⟩, (handledOf ⟨1, 49153⟩ s).map lineOf⟩ := by
  obtain ⟨s, hrun, hops, hhandled, -, htrace⟩ := dropSecond_run
  obtain ⟨trace, htrace⟩ := Option.isSome_iff_exists.1 htrace
  exact ⟨s, trace, hrun, htrace, trace_of_flow (hops.imp fun _ _ h => h.1) hrun
    (dropSecond_keys hhandled) htrace (List.mem_singleton_self _)⟩

/-! ## A network that keeps the order -/

/-- The packets of each client arrive in the order of their numbers. -/
def OrderInv (s : Network) : Prop :=
  ∀ x, ((flow x (s.arrived ++ s.flight)).map Datagram.number).Pairwise (· < ·)

theorem flow_sublist {ds es : List Datagram} (h : ds.Sublist es) (x : InetSocketAddress) :
    (flow x ds).Sublist (flow x es) := h.filter _

/-- The number of a packet is at most that of the last packet of its client. -/
theorem NetworkInv.number_le (h : NetworkInv address monitored s) (hd : d ∈ s.sent) :
    1 ≤ d.number ∧ d.number ≤ (flow d.source s.sent).length := by
  have hmem : d.number ∈ (flow d.source s.sent).map Datagram.number :=
    List.mem_map_of_mem (List.mem_filter.2 ⟨hd, by simp⟩)
  rw [h.numbered, List.mem_range'_1] at hmem
  omega

theorem OrderInv.emit (ho : OrderInv s) (h : NetworkInv address monitored s) (op : ClientOp) :
    OrderInv (s.emit x (clientStep (s.client x) op)) := by
  intro y
  rcases clientStep_cases (s.client x) op with ⟨hsent, -⟩ | ⟨now, c, buffer, -, -, hsent, -⟩
  · unfold Network.emit
    simp only [hsent, List.map_nil, List.append_nil]
    exact ho y
  · unfold Network.emit
    rw [hsent, List.map_singleton]
    show ((flow y (s.arrived ++ (s.flight ++ [_]))).map _).Pairwise _
    rw [← List.append_assoc, flow_append, flow_singleton, List.map_append, List.pairwise_append]
    refine ⟨ho y, ?_, ?_⟩
    · split <;> simp
    · intro a ha b hb
      obtain ⟨d, hd, rfl⟩ := List.mem_map.1 ha
      obtain ⟨hmem, hsource⟩ := List.mem_filter.1 hd
      have hsource : d.source = y := by simpa using hsource
      have hsent : d ∈ s.sent := by
        rcases List.mem_append.1 hmem with hmem | hmem
        · exact h.sent_of_arrived hmem
        · exact h.conserved.mem_iff.1 (List.mem_append_left _ hmem)
      have hle := (h.number_le hsent).2
      rw [hsource] at hle
      split at hb
      · rename_i hxy
        have hxy : x = y := hxy
        obtain rfl : b = (flow x s.sent).length + 1 := by simpa using hb
        rw [hxy]
        omega
      · simp at hb

/-- A packet that is delivered in order keeps its place among the packets of its client. -/
theorem flow_arrive (hk : s.flight[k]? = some d)
    (horder : ∀ e ∈ s.flight.take k, e.source ≠ d.source) (x : InetSocketAddress) :
    flow x (((s.leave k).arrive d).arrived ++ (s.leave k).flight) =
      flow x (s.arrived ++ s.flight) := by
  obtain ⟨hlt, hget⟩ := List.getElem?_eq_some_iff.1 hk
  have hsplit : s.flight = s.flight.take k ++ ([d] ++ s.flight.drop (k + 1)) := by
    rw [← hget, List.singleton_append, List.getElem_cons_drop, List.take_append_drop]
  show flow x ((s.handled.map Prod.snd ++ (s.server.queue ++ [d])) ++ s.flight.eraseIdx k) = _
  rw [List.eraseIdx_eq_take_drop_succ]
  conv_rhs => rw [hsplit]
  simp only [Network.arrived, flow_append, flow_singleton, List.append_assoc]
  by_cases hd : d.source = x
  · have hnone : flow x (s.flight.take k) = [] := by
      rw [flow, List.filter_eq_nil_iff]
      intro e he
      simpa [hd] using horder e he
    rw [hnone, List.nil_append, List.nil_append]
  · rw [if_neg hd, List.nil_append, List.nil_append]

/-- The packets that have arrived are the same after one of them is handled. -/
theorem recvPacket_arrived (h : s.recvPacket = .ok t) :
    t.arrived = s.arrived ∧ t.flight = s.flight := by
  rcases recvPacket_cases h with ⟨-, rfl⟩ | ⟨d, queue, tag, i, -, hqueue, -, rfl⟩
  · exact ⟨rfl, rfl⟩
  · refine ⟨?_, rfl⟩
    show (s.handled ++ [(s.now, d)]).map Prod.snd ++ queue = _
    rw [Network.arrived, hqueue, List.map_append, List.append_assoc]
    rfl

theorem orderInv_step (ho : OrderInv s) (h : NetworkInv address monitored s) {op : NetworkOp}
    (horder : InOrder s op) (hstep : networkStep s op = .ok t) : OrderInv t := by
  cases stepped_of_ok hstep with
  | client x hop => exact ho.emit h _
  | drop hk =>
    refine fun y => (ho y).sublist ?_
    exact (flow_sublist ((List.eraseIdx_sublist _ _).append_left _) y).map _
  | @deliver k d _ hk hrecv =>
    obtain ⟨harrived, hflight⟩ := recvPacket_arrived hrecv
    intro y
    rw [harrived, hflight]
    show ((flow y (_ ++ (s.leave k).flight)).map _).Pairwise _
    rw [flow_arrive hk (horder d hk)]
    exact ho y
  | _ => exact ho

/-! ## The count of lost packets -/

/-- The numbers of the packets of one client. -/
def numbersOf (x : InetSocketAddress) (ds : List Datagram) : List Nat :=
  (flow x ds).map Datagram.number

theorem numbersOf_append (x : InetSocketAddress) (ds es : List Datagram) :
    numbersOf x (ds ++ es) = numbersOf x ds ++ numbersOf x es := by
  rw [numbersOf, flow_append, List.map_append]
  rfl

/-- The last number that was handled, or 0. -/
def lastHandled (x : InetSocketAddress) (s : Network) : Nat :=
  (numbersOf x (s.handled.map Prod.snd)).getLastD 0

theorem countP_range' {N n : Nat} (hpos : 1 ≤ N) (hle : N ≤ n) :
    (List.range' 1 n).countP (· < N) = N - 1 := by
  have hsplit : List.range' 1 n = List.range' 1 (N - 1) ++ List.range' N (n - (N - 1)) := by
    have h := @List.range'_append 1 (N - 1) (n - (N - 1)) 1
    rw [Nat.one_mul, Nat.add_sub_cancel' hpos, Nat.add_sub_cancel' (by omega)] at h
    exact h.symm
  have hbelow : (List.range' 1 (N - 1)).countP (· < N) = N - 1 := by
    rw [List.countP_eq_length.2, List.length_range']
    intro a ha
    rw [List.mem_range'_1] at ha
    exact decide_eq_true (by omega)
  have habove : (List.range' N (n - (N - 1))).countP (· < N) = 0 := by
    rw [List.countP_eq_zero]
    intro a ha
    rw [List.mem_range'_1] at ha
    simpa using ha.1
  rw [hsplit, List.countP_append, hbelow, habove, Nat.add_zero]

/-- The numbers up to the last one that was handled are handled or dropped. -/
theorem dropped_add_handled (h : NetworkInv address monitored s) (ho : OrderInv s)
    (x : InetSocketAddress) :
    (numbersOf x s.dropped).countP (· < lastHandled x s) +
      (numbersOf x (s.handled.map Prod.snd)).length = lastHandled x s := by
  have horder : ((numbersOf x (s.handled.map Prod.snd) ++ numbersOf x s.server.queue) ++
      numbersOf x s.flight).Pairwise (· < ·) := by
    rw [← numbersOf_append, ← numbersOf_append]
    exact ho x
  have hperm : (numbersOf x s.flight ++ (numbersOf x s.dropped ++
      (numbersOf x (s.handled.map Prod.snd) ++ numbersOf x s.server.queue))).Perm
        (List.range' 1 (flow x s.sent).length) := by
    rw [← numbersOf_append, ← numbersOf_append, ← numbersOf_append, ← h.numbered x]
    exact (h.conserved.filter _).map _
  unfold lastHandled
  generalize numbersOf x (s.handled.map Prod.snd) = hs at horder hperm ⊢
  rcases List.eq_nil_or_concat' hs with rfl | ⟨ys, N, rfl⟩
  · simp
  · rw [List.getLastD_concat, List.length_append, List.length_singleton]
    have hcount := hperm.countP_eq (· < N)
    have hmem : N ∈ List.range' 1 (flow x s.sent).length :=
      hperm.mem_iff.1 (by simp)
    rw [List.mem_range'_1] at hmem
    rw [countP_range' hmem.1 (by omega)] at hcount
    rw [List.append_assoc, List.append_assoc, List.pairwise_append] at horder
    obtain ⟨-, hrest, hbelow⟩ := horder
    rw [List.singleton_append, List.pairwise_cons] at hrest
    have habove := hrest.1
    have hflight : (numbersOf x s.flight).countP (· < N) = 0 := by
      rw [List.countP_eq_zero]
      intro a ha
      have hlt := habove a (List.mem_append_right _ ha)
      simpa using hlt.le
    have hqueue : (numbersOf x s.server.queue).countP (· < N) = 0 := by
      rw [List.countP_eq_zero]
      intro a ha
      have hlt := habove a (List.mem_append_left _ ha)
      simpa using hlt.le
    have hys : ys.countP (· < N) = ys.length := by
      rw [List.countP_eq_length]
      intro a ha
      simpa using hbelow a ha N (by simp)
    have hlast : [N].countP (· < N) = 0 := by simp
    simp only [List.countP_append] at hcount
    omega

/-- The lost file of a flow, after the packets of its client came in order. -/
theorem lost_of_order (h : NetworkInv address monitored s) (ho : OrderInv s) (interval : Int)
    {e : UInt8} (he : e &&& E_QS_LOST ≠ 0) (x : InetSocketAddress) :
    (Ns3QuicServerTrace.after interval e ((handledOf x s).map lineOf)).largestSeq =
        lastHandled x s ∧
      (Ns3QuicServerTrace.after interval e ((handledOf x s).map lineOf)).lostPackets =
        (numbersOf x s.dropped).countP (· < lastHandled x s) := by
  have hseq := Ns3QuicServerTrace.seqInv_after interval he ((handledOf x s).map lineOf)
  have hseqs : ((handledOf x s).map lineOf).map (·.seq) =
      (numbersOf x (s.handled.map Prod.snd)).map Nat.cast := by
    rw [numbersOf, flow, List.filter_map, List.map_map, List.map_map, List.map_map]
    rfl
  rw [hseqs] at hseq
  have hclimbs : ((0 : Int) :: (numbersOf x (s.handled.map Prod.snd)).map Nat.cast).Pairwise
      (· < ·) := by
    rw [List.pairwise_cons, List.pairwise_map]
    constructor
    · intro a ha
      obtain ⟨n, hn, rfl⟩ := List.mem_map.1 ha
      obtain ⟨d, hd, rfl⟩ := List.mem_map.1 hn
      have hsent := h.sent_of_arrived (List.mem_append_left _ (List.mem_filter.1 hd).1)
      have hpos := (h.number_le hsent).1
      exact Int.natCast_pos.2 hpos
    · have hsublist : (s.handled.map Prod.snd).Sublist (s.arrived ++ s.flight) :=
        (List.sublist_append_left _ _).trans (List.sublist_append_left _ _)
      exact ((ho x).sublist ((flow_sublist hsublist x).map _)).imp Int.ofNat_lt.2
  obtain ⟨hrecords, hrepeats, hmax⟩ := records_of_pairwise hclimbs
  have hlargest : ((numbersOf x (s.handled.map Prod.snd)).map (Nat.cast : Nat → Int)).foldl max 0 =
      lastHandled x s := by
    rw [hmax, lastHandled, List.getLastD_eq_getLast?, List.getLastD_eq_getLast?, List.getLast?_map]
    cases (numbersOf x (s.handled.map Prod.snd)).getLast? <;> rfl
  refine ⟨hseq.largestSeq.trans hlargest, ?_⟩
  have hcount := dropped_add_handled h ho x
  rw [hseq.lostPackets, hlargest, hrecords, hrepeats, List.length_map]
  omega

/-- In every run whose packets fit, over a network that keeps the order of each client's
packets: the lost file of a monitored client gets one line, when the trace is destroyed.  It
shows the last number that was handled, and as lost the packets before it that the network
dropped, and no others. -/
theorem lost_file_counts_drops {ops : List NetworkOp}
    (hops : Each networkStep (fun s op => Fits s op ∧ InOrder s op)
      (Network.new address monitored) ops)
    (hrun : ops.foldlM networkStep (Network.new address monitored) = .ok s)
    (hchain : IsChain (· ≤ ·) (flowKeys monitored s)) {trace : Ns3QuicServerTraceDispatcher}
    (htrace : s.server.trace = some trace) (hx : x ∈ monitored) (interval : Int) {e : UInt8}
    (he : e &&& E_QS_LOST ≠ 0) :
    ∃ id u, trace.traceDb.find Ns3QuicAddressPair.lt (addressPair x address) =
        some (addressPair x address, id) ∧ trace.traces[id]? = some u ∧
      (u.state interval e).largestSeq = lastHandled x s ∧
      (u.state interval e).lostPackets =
        (numbersOf x s.dropped).countP (· < lastHandled x s) ∧
      (u.state interval e).lost = some [] ∧
      ((u.state interval e).destroy interval).lost =
        some [⟨(numbersOf x s.dropped).countP (· < lastHandled x s), lastHandled x s⟩] := by
  obtain ⟨h, ho⟩ := hops.run_keeps (I := fun s => Sound address monitored s ∧ OrderInv s)
    (fun _ _ _ h hf ht => ⟨sound_step h.1 hf.1 ht, orderInv_step h.2 h.1.1 hf.2 ht⟩)
    ⟨sound_new, fun _ => List.Pairwise.nil⟩ hrun
  obtain ⟨id, hfind, ht⟩ := h.trace_eq hchain htrace hx
  obtain ⟨hlargest, hlost⟩ := lost_of_order h.1 ho interval he x
  have hopen := Ns3QuicServerTrace.after_lost interval he ((handledOf x s).map lineOf)
  refine ⟨id, _, hfind, ht, hlargest, hlost, hopen, ?_⟩
  rw [OpenTrace.state, Ns3QuicServerTrace.destroy_lost hopen, hlost, hlargest, List.nil_append]

theorem lost_file_counts_drops_dropSecond : ∃ s trace,
    dropSecond.foldlM networkStep (Network.new ⟨9, 5000⟩ [⟨1, 49153⟩]) = .ok s ∧
      s.server.trace = some trace ∧
      ∃ id u, trace.traceDb.find Ns3QuicAddressPair.lt (addressPair ⟨1, 49153⟩ ⟨9, 5000⟩) =
          some (addressPair ⟨1, 49153⟩ ⟨9, 5000⟩, id) ∧ trace.traces[id]? = some u ∧
        (u.state 0 E_QS_LOST).largestSeq = 3 ∧ (u.state 0 E_QS_LOST).lostPackets = 1 ∧
        ((u.state 0 E_QS_LOST).destroy 0).lost = some [⟨1, 3⟩] := by
  obtain ⟨s, hrun, hops, hhandled, hdropped, htrace⟩ := dropSecond_run
  obtain ⟨trace, htrace⟩ := Option.isSome_iff_exists.1 htrace
  obtain ⟨id, u, hfind, hu, hlargest, hlost, -, hline⟩ := lost_file_counts_drops hops hrun
    (dropSecond_keys hhandled) htrace (List.mem_singleton_self _) 0 (e := E_QS_LOST) (by decide)
  have hlast : lastHandled ⟨1, 49153⟩ s = 3 := by
    rw [lastHandled, hhandled]
    rfl
  have hdrops : (numbersOf ⟨1, 49153⟩ s.dropped).countP (· < 3) = 1 := by
    rw [hdropped]
    rfl
  rw [hlast] at hlargest hlost hline
  rw [hdrops] at hlost hline
  exact ⟨s, trace, hrun, htrace, id, u, hfind, hu, hlargest, hlost, hline⟩

end QuicOnNs3.App
