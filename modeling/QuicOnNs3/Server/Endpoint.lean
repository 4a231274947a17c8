import Mathlib.Data.List.Basic
import Mathlib.Data.List.Nodup
import QuicOnNs3.Lib.Execution
import QuicOnNs3.Lib.Multimap

/-!
# The endpoint of a server session

Every incoming stream may get a channel, which the stream owns and which calls
`OnChannelDestroy` on its `notifier_`, the endpoint, when the stream goes.  The
endpoint remembers its channels in one pointer, `channel_`: a new channel
overwrites it, the destruction of any channel clears it, and the endpoint's
destructor resets the notifier of the channel it points to.  The session then
destroys the streams that are left.

`ChannelHistory` follows the events alone, and `EndpointInv` says what
`channel_` is after them.  `endpoint_destroyed_iff` is the condition on the
events under which no channel keeps a notifier that is gone.
-/

namespace QuicOnNs3.Server

open QuicOnNs3.Execution

/-! ## The data model -/

/-- The type of an incoming stream. -/
inductive StreamType where
  | bidirectional
  | unidirectional
  deriving DecidableEq, Repr

/-- A channel.  `notifier` says that `notifier_` is the endpoint, and not null. -/
structure Channel where
  notifier : Bool := false
  deriving DecidableEq, Repr

/-- A stream and its `visitor_`. -/
structure Ns3TransportStream where
  id : Nat
  visitor : Option Channel
  deriving DecidableEq, Repr

/-- A class of endpoints, by the types of the streams that it opens a channel on. -/
structure EndpointClass where
  opensChannel : StreamType → Bool

/-- `EchoServerEndpoint`: an `EchoBidiChannel` or a `HelloUnidiReadChannel`. -/
def echoServerEndpoint : EndpointClass where
  opensChannel _ := true

/-- `BandwidthServerEndpoint`: a `BandwidthReadChannel` on unidirectional streams. -/
def bandwidthServerEndpoint : EndpointClass where
  opensChannel
    | .bidirectional => false
    | .unidirectional => true

/-- The streams of a session and its endpoint, whose `channel_` is the channel of
the stream `channel`. -/
structure Ns3QuicServerSession where
  endpointAlive : Bool := true
  channel : Option Nat := none
  streams : List Ns3TransportStream := []
  deriving DecidableEq, Repr

/-- What stops the program: `OnChannelDestroy` on a destroyed endpoint. -/
inductive Fault where
  | destroyedEndpoint
  | notEnabled
  deriving DecidableEq, Repr

namespace Ns3QuicServerSession

/-- `OnIncomingBidirectionalStream` and `OnIncomingUnidirectionalStream`. -/
def onIncomingStream (cls : EndpointClass) (s : Ns3QuicServerSession) (id : Nat)
    (type : StreamType) : Ns3QuicServerSession :=
  if cls.opensChannel type then
    { s with channel := some id, streams := s.streams ++ [⟨id, some ⟨true⟩⟩] }
  else { s with streams := s.streams ++ [⟨id, none⟩] }

/-- `OnChannelDestroy` of the endpoint. -/
def onChannelDestroy (s : Ns3QuicServerSession) : Except Fault Ns3QuicServerSession :=
  if s.endpointAlive then .ok { s with channel := none } else .error .destroyedEndpoint

/-- `OnDestroy` of a channel. -/
def onDestroy (s : Ns3QuicServerSession) (channel : Channel) :
    Except Fault Ns3QuicServerSession :=
  if channel.notifier then s.onChannelDestroy else .ok s

/-- `~Ns3TransportStream`. -/
def destroyStream (s : Ns3QuicServerSession) (stream : Ns3TransportStream) :
    Except Fault Ns3QuicServerSession :=
  let s := { s with streams := s.streams.filter fun st => st.id ≠ stream.id }
  match stream.visitor with
  | none => .ok s
  | some channel => s.onDestroy channel

/-- `set_notifier(nullptr)` on the channel of the stream `id`. -/
def resetNotifier (id : Nat) (st : Ns3TransportStream) : Ns3TransportStream :=
  if st.id = id then { st with visitor := st.visitor.map fun _ => ⟨false⟩ } else st

/-- `~EchoServerEndpoint` and `~BandwidthServerEndpoint`. -/
def destroyEndpoint (s : Ns3QuicServerSession) : Ns3QuicServerSession :=
  match s.channel with
  | none => { s with endpointAlive := false }
  | some id =>
    { endpointAlive := false, channel := none, streams := s.streams.map (resetNotifier id) }

end Ns3QuicServerSession

/-! ## The machine -/

/-- An event of the session.  The peer chooses the stream identifiers. -/
inductive SessionOp where
  | incomingStream (id : Nat) (type : StreamType)
  | destroyStream (id : Nat)
  | destroyEndpoint
  deriving DecidableEq, Repr

/-- One event: streams come while the endpoint lives, it is destroyed once, and
a stream is destroyed while it is there. -/
def sessionStep (cls : EndpointClass) (s : Ns3QuicServerSession) :
    SessionOp → Except Fault Ns3QuicServerSession
  | .incomingStream id type =>
    if s.endpointAlive && s.streams.all fun st => st.id ≠ id then
      .ok (s.onIncomingStream cls id type)
    else .error .notEnabled
  | .destroyStream id =>
    match s.streams.find? fun st => st.id = id with
    | none => .error .notEnabled
    | some stream => s.destroyStream stream
  | .destroyEndpoint =>
    if s.endpointAlive then .ok s.destroyEndpoint else .error .notEnabled

/-! ## The history of the channels -/

/-- The channels that are open, by their streams in the order of their opening,
and whether a channel has been closed since the last one was opened. -/
structure ChannelHistory where
  openChannels : List Nat := []
  closedSince : Bool := false
  deriving DecidableEq, Repr

/-- The history after one more event. -/
def ChannelHistory.next (cls : EndpointClass) (h : ChannelHistory) : SessionOp → ChannelHistory
  | .incomingStream id type =>
    if cls.opensChannel type then ⟨h.openChannels ++ [id], false⟩ else h
  | .destroyStream id =>
    if id ∈ h.openChannels then ⟨h.openChannels.filter fun c => c ≠ id, true⟩ else h
  | .destroyEndpoint => h

/-- No channel is open, or one is and none has been closed since it was opened. -/
def ChannelHistory.LoneChannel (h : ChannelHistory) : Prop :=
  h.openChannels = [] ∨ (∃ id, h.openChannels = [id]) ∧ h.closedSince = false

/-- The streams that have a channel. -/
def channelStreams (s : Ns3QuicServerSession) : List Ns3TransportStream :=
  s.streams.filter fun st => st.visitor.isSome

/-- While the endpoint lives: the open channels are the ones of the history, all
with the endpoint as their notifier, and `channel_` is the last one unless a
channel has been closed since. -/
structure EndpointInv (s : Ns3QuicServerSession) (h : ChannelHistory) : Prop where
  alive : s.endpointAlive = true
  ids_nodup : (s.streams.map Ns3TransportStream.id).Nodup
  open_eq : (channelStreams s).map Ns3TransportStream.id = h.openChannels
  notifier : ∀ st ∈ s.streams, ∀ ch, st.visitor = some ch → ch.notifier = true
  channel_eq : s.channel = if h.closedSince then none else h.openChannels.getLast?

theorem endpointInv_init : EndpointInv {} {} := by
  constructor <;> simp [channelStreams]

section Step

variable {cls : EndpointClass} {s t : Ns3QuicServerSession} {h : ChannelHistory}

theorem ids_nodup_append {streams : List Ns3TransportStream} {st : Ns3TransportStream}
    (hn : (streams.map Ns3TransportStream.id).Nodup) (hfresh : ∀ st' ∈ streams, st'.id ≠ st.id) :
    ((streams ++ [st]).map Ns3TransportStream.id).Nodup := by
  rw [List.map_append, List.nodup_append']
  refine ⟨hn, List.nodup_singleton _, ?_⟩
  intro id hid hid'
  obtain ⟨st', hst', rfl⟩ := List.mem_map.1 hid
  exact hfresh st' hst' (by simpa using hid')

theorem EndpointInv.incomingStream (hi : EndpointInv s h) {id : Nat} {type : StreamType}
    (hfresh : ∀ st ∈ s.streams, st.id ≠ id) :
    EndpointInv (s.onIncomingStream cls id type) (h.next cls (.incomingStream id type)) := by
  have hopen := hi.open_eq
  unfold Ns3QuicServerSession.onIncomingStream ChannelHistory.next
  simp only
  split
  · refine ⟨hi.alive, ids_nodup_append hi.ids_nodup hfresh, ?_, ?_, by simp⟩
    · rw [channelStreams] at hopen
      simp [channelStreams, hopen]
    · intro st hst ch hch
      rcases List.mem_append.1 hst with hst | hst
      · exact hi.notifier st hst ch hch
      · obtain rfl := List.mem_singleton.1 hst
        obtain rfl : Channel.mk true = ch := by simpa using hch
        rfl
  · refine ⟨hi.alive, ids_nodup_append hi.ids_nodup hfresh, ?_, ?_, hi.channel_eq⟩
    · rw [channelStreams] at hopen
      simp [channelStreams, hopen]
    · intro st hst ch hch
      rcases List.mem_append.1 hst with hst | hst
      · exact hi.notifier st hst ch hch
      · obtain rfl := List.mem_singleton.1 hst
        simp at hch

/-- The open channels are the channels of the streams. -/
theorem EndpointInv.mem_open_iff (hi : EndpointInv s h) {st : Ns3TransportStream}
    (hst : st ∈ s.streams) : st.id ∈ h.openChannels ↔ st.visitor.isSome = true := by
  rw [← hi.open_eq, List.mem_map]
  constructor
  · rintro ⟨st', hst', heq⟩
    obtain ⟨hmem, hsome⟩ := List.mem_filter.1 hst'
    rwa [← List.inj_on_of_nodup_map hi.ids_nodup hmem hst heq]
  · intro hsome
    exact ⟨st, List.mem_filter.2 ⟨hst, hsome⟩, rfl⟩

/-- Without the stream `id`, its channel is gone too. -/
theorem EndpointInv.open_filter (hi : EndpointInv s h) (id : Nat) :
    ((s.streams.filter fun st => st.id ≠ id).filter fun st => st.visitor.isSome).map
      Ns3TransportStream.id = h.openChannels.filter fun c => c ≠ id := by
  rw [← hi.open_eq, channelStreams, List.filter_map, List.filter_filter, List.filter_filter]
  congr 1
  refine List.filter_congr fun st _ => ?_
  simp [Bool.and_comm]

theorem EndpointInv.destroyStream (hi : EndpointInv s h) {stream : Ns3TransportStream}
    (hst : stream ∈ s.streams) (hd : s.destroyStream stream = .ok t) :
    EndpointInv t (h.next cls (.destroyStream stream.id)) := by
  have hids := hi.ids_nodup.sublist
    ((List.filter_sublist (p := fun st => decide (st.id ≠ stream.id))).map Ns3TransportStream.id)
  have hopen := hi.open_filter stream.id
  unfold Ns3QuicServerSession.destroyStream at hd
  simp only at hd
  split at hd
  · rename_i hnone
    obtain rfl := Except.ok.inj hd
    have hout : stream.id ∉ h.openChannels := by simp [hi.mem_open_iff hst, hnone]
    rw [ChannelHistory.next, if_neg hout]
    refine ⟨hi.alive, hids, ?_, fun st hm => hi.notifier st (List.mem_filter.1 hm).1,
      hi.channel_eq⟩
    refine hopen.trans (List.filter_eq_self.2 ?_)
    intro c hc
    simpa using fun heq : c = stream.id => hout (heq ▸ hc)
  · rename_i ch hch
    have hin : stream.id ∈ h.openChannels := by simp [hi.mem_open_iff hst, hch]
    rw [Ns3QuicServerSession.onDestroy, if_pos (hi.notifier stream hst ch hch),
      Ns3QuicServerSession.onChannelDestroy, if_pos hi.alive] at hd
    obtain rfl := Except.ok.inj hd
    rw [ChannelHistory.next, if_pos hin]
    exact ⟨hi.alive, hids, hopen, fun st hm => hi.notifier st (List.mem_filter.1 hm).1, rfl⟩

theorem endpointInv_step {op : SessionOp} (hi : EndpointInv s h) (hop : op ≠ .destroyEndpoint)
    (hs : sessionStep cls s op = .ok t) : EndpointInv t (h.next cls op) := by
  cases op with
  | incomingStream id type =>
    simp only [sessionStep] at hs
    split_ifs at hs with hc
    obtain rfl := Except.ok.inj hs
    simp only [Bool.and_eq_true, List.all_eq_true, decide_eq_true_eq] at hc
    exact hi.incomingStream hc.2
  | destroyStream id =>
    simp only [sessionStep] at hs
    split at hs
    · simp at hs
    · rename_i stream hfind
      obtain rfl : stream.id = id := by simpa using List.find?_some hfind
      exact hi.destroyStream (List.mem_of_find?_eq_some hfind) hs
  | destroyEndpoint => exact absurd rfl hop

theorem endpointInv_run {ops : List SessionOp} (hi : EndpointInv s h)
    (hops : SessionOp.destroyEndpoint ∉ ops) (hrun : ops.foldlM (sessionStep cls) s = .ok t) :
    EndpointInv t (ops.foldl (ChannelHistory.next cls) h) := by
  induction ops generalizing s h with
  | nil =>
    obtain rfl := run_nil_ok_iff.1 hrun
    exact hi
  | cons op ops ih =>
    rw [List.mem_cons, not_or] at hops
    obtain ⟨s', hstep, hrun⟩ := run_cons_ok_iff.1 hrun
    exact ih (endpointInv_step hi (Ne.symm hops.1) hstep) hops.2 hrun

end Step

/-! ## After the endpoint -/

/-- Every channel that is still there has a null notifier. -/
def Cleared (s : Ns3QuicServerSession) : Prop :=
  ∀ st ∈ s.streams, ∀ ch, st.visitor = some ch → ch.notifier = false

section Destroyed

variable {cls : EndpointClass} {s t : Ns3QuicServerSession} {h : ChannelHistory}

/-- The destructor clears the channel that `channel_` points to and no other. -/
theorem EndpointInv.cleared_iff (hi : EndpointInv s h) :
    Cleared s.destroyEndpoint ↔ ∀ id ∈ h.openChannels, s.channel = some id := by
  constructor
  · intro hc id hid
    rw [← hi.open_eq] at hid
    obtain ⟨st, hst, rfl⟩ := List.mem_map.1 hid
    obtain ⟨hmem, hsome⟩ := List.mem_filter.1 hst
    obtain ⟨ch, hch⟩ := Option.isSome_iff_exists.1 hsome
    have hn := hi.notifier st hmem ch hch
    by_contra hne
    unfold Ns3QuicServerSession.destroyEndpoint at hc
    split at hc
    · simp [hc st hmem ch hch] at hn
    · rename_i id hid
      have hne : st.id ≠ id := fun heq => hne (heq ▸ hid)
      have hsame : Ns3QuicServerSession.resetNotifier id st = st := if_neg hne
      simp [hc st (List.mem_map.2 ⟨st, hmem, hsame⟩) ch hch] at hn
  · intro hall st hst ch hch
    unfold Ns3QuicServerSession.destroyEndpoint at hst
    split at hst
    · rename_i hnone
      have hin := (hi.mem_open_iff hst).2 (by simp [hch])
      simp [hnone] at hall
      exact absurd hin (hall _)
    · rename_i id hid
      obtain ⟨st', hst', rfl⟩ := List.mem_map.1 hst
      unfold Ns3QuicServerSession.resetNotifier at hch
      split at hch
      · obtain ⟨-, -, rfl⟩ : ∃ c, st'.visitor = some c ∧ Channel.mk false = ch := by
          simpa using hch
        rfl
      · rename_i hne
        have hin := (hi.mem_open_iff hst').2 (by simp [hch])
        exact absurd (by simpa [hid] using (hall _ hin).symm) hne

/-- `channel_` points to every open channel when there is at most one and it was
the last event of the channels. -/
theorem EndpointInv.loneChannel_iff (hi : EndpointInv s h) :
    (∀ id ∈ h.openChannels, s.channel = some id) ↔ h.LoneChannel := by
  have hnodup : h.openChannels.Nodup := by
    rw [← hi.open_eq]
    exact hi.ids_nodup.sublist (List.filter_sublist.map _)
  rw [hi.channel_eq, ChannelHistory.LoneChannel]
  cases hc : h.closedSince with
  | true => simp [List.eq_nil_iff_forall_not_mem]
  | false =>
    constructor
    · intro hall
      match hm : h.openChannels with
      | [] => exact Or.inl rfl
      | [id] => exact Or.inr ⟨⟨id, rfl⟩, rfl⟩
      | a :: b :: rest =>
        rw [hm] at hall hnodup
        have ha := hall a (by simp)
        have hb := hall b (by simp)
        rw [ha] at hb
        simp [Option.some.inj hb] at hnodup
    · rintro (hnil | ⟨⟨id, hid⟩, -⟩)
      · simp [hnil]
      · simp [hid]

/-- After the destructor, a stream's destruction keeps every notifier null. -/
theorem cleared_step {op : SessionOp} (hd : s.endpointAlive = false) (hc : Cleared s)
    (hs : sessionStep cls s op = .ok t) : t.endpointAlive = false ∧ Cleared t := by
  cases op with
  | incomingStream id type => simp [sessionStep, hd] at hs
  | destroyEndpoint => simp [sessionStep, hd] at hs
  | destroyStream id =>
    simp only [sessionStep] at hs
    split at hs
    · simp at hs
    · rename_i stream hfind
      unfold Ns3QuicServerSession.destroyStream at hs
      simp only at hs
      split at hs
      · obtain rfl := Except.ok.inj hs
        exact ⟨hd, fun st hst => hc st (List.mem_filter.1 hst).1⟩
      · rename_i ch hch
        rw [Ns3QuicServerSession.onDestroy,
          hc stream (List.mem_of_find?_eq_some hfind) ch hch] at hs
        obtain rfl := Except.ok.inj hs
        exact ⟨hd, fun st hst => hc st (List.mem_filter.1 hst).1⟩

/-- The step does not call `OnChannelDestroy` on a destroyed endpoint. -/
def NoLateCall (cls : EndpointClass) (s : Ns3QuicServerSession) (op : SessionOp) : Prop :=
  sessionStep cls s op ≠ .error .destroyedEndpoint

theorem Cleared.noLateCall (hc : Cleared s) (op : SessionOp) : NoLateCall cls s op := by
  cases op with
  | incomingStream id type =>
    simp only [NoLateCall, sessionStep]
    split_ifs <;> simp
  | destroyEndpoint =>
    simp only [NoLateCall, sessionStep]
    split_ifs <;> simp
  | destroyStream id =>
    simp only [NoLateCall, sessionStep]
    split
    · simp
    · rename_i stream hfind
      unfold Ns3QuicServerSession.destroyStream
      simp only
      split
      · simp
      · rename_i ch hch
        rw [Ns3QuicServerSession.onDestroy, hc stream (List.mem_of_find?_eq_some hfind) ch hch]
        simp

/-- A notifier that is left is called by the stream's destruction. -/
theorem lateCall_of_notifier (hd : s.endpointAlive = false)
    (hids : (s.streams.map Ns3TransportStream.id).Nodup) {st : Ns3TransportStream}
    (hst : st ∈ s.streams) {ch : Channel} (hch : st.visitor = some ch)
    (hn : ch.notifier = true) : ¬ NoLateCall cls s (.destroyStream st.id) := by
  have hfind := Multimap.find?_eq_of_nodup hids hst
  simp [NoLateCall, sessionStep, hfind, Ns3QuicServerSession.destroyStream, hch,
    Ns3QuicServerSession.onDestroy, hn, Ns3QuicServerSession.onChannelDestroy, hd]

/-- No order of the remaining destructions calls the endpoint exactly when its
destructor has cleared every notifier. -/
theorem noLateCall_iff_cleared (hd : s.endpointAlive = false)
    (hids : (s.streams.map Ns3TransportStream.id).Nodup) :
    (∀ ops, Each (sessionStep cls) (NoLateCall cls) s ops) ↔ Cleared s := by
  constructor
  · intro hall st hst ch hch
    by_contra hn
    exact lateCall_of_notifier hd hids hst hch (by simpa using hn)
      (hall [.destroyStream st.id]).1
  · intro hc ops
    exact each_of_invariant (I := fun s => s.endpointAlive = false ∧ Cleared s)
      (fun s op hi => hi.2.noLateCall op) (fun s op t hi hs => cleared_step hi.1 hi.2 hs)
      ⟨hd, hc⟩ ops

theorem destroyEndpoint_alive (s : Ns3QuicServerSession) :
    s.destroyEndpoint.endpointAlive = false := by
  unfold Ns3QuicServerSession.destroyEndpoint
  split <;> rfl

theorem destroyEndpoint_ids (s : Ns3QuicServerSession) :
    s.destroyEndpoint.streams.map Ns3TransportStream.id =
      s.streams.map Ns3TransportStream.id := by
  unfold Ns3QuicServerSession.destroyEndpoint
  split
  · rfl
  · rw [List.map_map]
    refine List.map_congr_left fun st _ => ?_
    simp only [Function.comp, Ns3QuicServerSession.resetNotifier]
    split <;> rfl

end Destroyed

/-- After any sequence of streams coming and going, the endpoint is destroyed.
No later destruction of a stream calls it, and equivalently no channel keeps
it as its notifier, exactly when no channel was open, or one was and none had
been closed since it was opened. -/
theorem endpoint_destroyed_iff (cls : EndpointClass) (ops : List SessionOp)
    {s : Ns3QuicServerSession} (hops : SessionOp.destroyEndpoint ∉ ops)
    (hrun : ops.foldlM (sessionStep cls) {} = .ok s) :
    ((∀ ops', Each (sessionStep cls) (NoLateCall cls) {} (ops ++ .destroyEndpoint :: ops')) ↔
        (ops.foldl (ChannelHistory.next cls) {}).LoneChannel) ∧
      (Cleared s.destroyEndpoint ↔ (ops.foldl (ChannelHistory.next cls) {}).LoneChannel) := by
  have hi := endpointInv_run endpointInv_init hops hrun
  have hcleared := hi.cleared_iff.trans hi.loneChannel_iff
  refine ⟨?_, hcleared⟩
  have hbefore : Each (sessionStep cls) (NoLateCall cls) {} ops := by
    refine (each_ok_of_foldlM hrun).imp fun s op hok => ?_
    obtain ⟨t, ht⟩ := hok
    simp [NoLateCall, ht]
  have hdestroy : sessionStep cls s .destroyEndpoint = .ok s.destroyEndpoint := if_pos hi.alive
  have hafter : (∀ ops', Each (sessionStep cls) (NoLateCall cls) s.destroyEndpoint ops') ↔
      Cleared s.destroyEndpoint :=
    noLateCall_iff_cleared (destroyEndpoint_alive s) (destroyEndpoint_ids s ▸ hi.ids_nodup)
  rw [← hcleared, ← hafter]
  refine forall_congr' fun ops' => ?_
  rw [each_append hrun]
  simp [hbefore, Each, NoLateCall, hdestroy]

/-- One stream that is still open at the end is safe. -/
theorem endpoint_destroyed_one_stream :
    (∀ ops', Each (sessionStep echoServerEndpoint) (NoLateCall echoServerEndpoint) {}
        ([.incomingStream 0 .bidirectional] ++ .destroyEndpoint :: ops')) ∧
      ChannelHistory.LoneChannel ⟨[0], false⟩ :=
  have hlone : ChannelHistory.LoneChannel ⟨[0], false⟩ := Or.inr ⟨⟨0, rfl⟩, rfl⟩
  ⟨(endpoint_destroyed_iff echoServerEndpoint [.incomingStream 0 .bidirectional] (by decide)
    rfl).1.2 hlone, hlone⟩

/-- Two streams that are open when the session goes: the endpoint clears the
channel of the second, and the first one calls it after its end. -/
theorem endpoint_called_late :
    ¬ Each (sessionStep echoServerEndpoint) (NoLateCall echoServerEndpoint) {}
      [.incomingStream 0 .bidirectional, .incomingStream 4 .bidirectional, .destroyEndpoint,
        .destroyStream 0] := by
  intro h
  exact ((((h.2 _ rfl).2 _ rfl).2 _ rfl).1) rfl

end QuicOnNs3.Server
