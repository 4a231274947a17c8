import Mathlib.Algebra.Ring.Int.Defs
import Mathlib.Data.List.Induction
import Mathlib.Data.List.Nodup
import Mathlib.Data.List.TakeWhile
import QuicOnNs3.Trace.ServerTrace

/-!
# The flows of a dispatcher

`m_traceDb` is a map when the keys that it is asked for are in order, and then the
dispatcher keeps the flows apart: whatever the order of the calls, every flow that is
monitored has one trace, which was told of the arrivals of this flow since it was added,
and of no others (`flows_kept_apart`).  The counters of the dispatcher count all
arrivals, monitored or not.

`Shutdown` destroys the traces in the order of the map, and each destructor writes
the last lines of its files.  The destructor of the dispatcher calls it again, and then
there is nothing left (`shutdown_closes_all`).
-/

namespace QuicOnNs3.Trace

open QuicOnNs3.SearchTree

open Ns3QuicServerTraceDispatcher Ns3QuicAddressPair

/-! ## What the calls say of a flow -/

/-- The arrival that a call reports, if it is one of the flow `p`. -/
def DispatcherOp.arrivalOf (p : Ns3QuicAddressPair) : DispatcherOp → Option Arrival
  | .addMonitorAddressPair _ => none
  | .onOwd q a => if q = p then some a else none

/-- The arrivals of the flow `p` since it was added. -/
def told (p : Ns3QuicAddressPair) (ops : List DispatcherOp) : List Arrival :=
  (ops.dropWhile fun op => op ≠ .addMonitorAddressPair p).filterMap (·.arrivalOf p)

/-- The keys that a sequence of calls looks up. -/
def keysOf (ops : List DispatcherOp) : Set Ns3QuicAddressPair :=
  {p | ∃ op ∈ ops, op = .addMonitorAddressPair p ∨ ∃ a, op = .onOwd p a}

/-- The arrival that a call reports. -/
def DispatcherOp.arrival : DispatcherOp → Option Arrival
  | .addMonitorAddressPair _ => none
  | .onOwd _ a => some a

variable {p q : Ns3QuicAddressPair} {a : Arrival} {op : DispatcherOp} {ops : List DispatcherOp}
  {d : Ns3QuicServerTraceDispatcher}

theorem added_subset_keysOf (ops : List DispatcherOp) : added ops ⊆ keysOf ops :=
  fun _ hp => ⟨_, hp, Or.inl rfl⟩

theorem keysOf_mono (ops : List DispatcherOp) (op : DispatcherOp) :
    keysOf ops ⊆ keysOf (ops ++ [op]) := by
  intro p hp
  obtain ⟨op', hmem, hop'⟩ := hp
  exact ⟨op', List.mem_append_left _ hmem, hop'⟩

/-- Before it is added, a flow is told nothing. -/
theorem dropWhile_of_not_added (h : p ∉ added ops) :
    ops.dropWhile (fun op => op ≠ .addMonitorAddressPair p) = [] := by
  rw [List.dropWhile_eq_nil_iff]
  intro op hop
  refine decide_eq_true fun heq => h ?_
  rw [heq] at hop
  exact hop

theorem told_append_of_added (h : p ∈ added ops) (rest : List DispatcherOp) :
    told p (ops ++ rest) = told p ops ++ rest.filterMap (·.arrivalOf p) := by
  have hne : (ops.dropWhile fun op => op ≠ .addMonitorAddressPair p) ≠ [] := by
    rw [Ne, List.dropWhile_eq_nil_iff]
    intro hall
    simpa using hall _ h
  rw [told, List.dropWhile_append, if_neg (by simpa using hne), List.filterMap_append]
  rfl

theorem told_concat_of_new (h : p ∉ added ops) :
    told p (ops ++ [.addMonitorAddressPair p]) = [] := by
  rw [told, List.dropWhile_append, dropWhile_of_not_added h]
  simp [DispatcherOp.arrivalOf]

/-! ## The invariant -/

/-- What a dispatcher holds after the calls `ops`. -/
structure FlowInv (d : Ns3QuicServerTraceDispatcher) (ops : List DispatcherOp) : Prop where
  disp : DispatcherInv d (added ops)
  names : (d.traces.map OpenTrace.addrPair).Nodup
  own : ∀ t ∈ d.traces, t.addrPair ∈ added ops ∧ t.arrivals = told t.addrPair ops
  readBytes : d.readBytes = ((ops.filterMap DispatcherOp.arrival).map Arrival.len).sum
  receiptTime :
    d.receiptTime = ((ops.filterMap DispatcherOp.arrival).getLast?.map Arrival.now).getD 0

theorem flowInv_empty : FlowInv {} [] where
  disp := by
    have hnone : added [] = ∅ := by
      ext p
      simp [added]
    rw [hnone]
    exact dispatcherInv_empty
  names := List.nodup_nil
  own := by simp
  readBytes := rfl
  receiptTime := rfl

/-- A key that was not added is not found. -/
theorem FlowInv.find_eq_none (h : FlowInv d ops) (hchain : IsChain (· ≤ ·) (insert p (added ops)))
    (hp : p ∉ added ops) : d.traceDb.find lt p = none := by
  by_contra hne
  obtain ⟨e, he⟩ := Option.ne_none_iff_exists'.1 hne
  have hS : d.traceDb.KeysIn (insert p (added ops)) := fun x hx => Or.inr ((h.disp.keys x).1 hx)
  obtain ⟨hmem, hkey⟩ :=
    (Tree.find_iff (totalOn_of_isChain hchain) h.disp.ordered hS (Or.inl rfl)).1 he
  exact hp ((h.disp.keys p).1 (hkey ▸ Tree.mem_keys_of_mem hmem))

theorem FlowInv.add (h : FlowInv d ops)
    (hchain : IsChain (· ≤ ·) (insert p (added ops))) :
    FlowInv (d.addMonitorAddressPair p).2 (ops ++ [.addMonitorAddressPair p]) := by
  have hadded : added (ops ++ [.addMonitorAddressPair p]) = insert p (added ops) := by
    ext q
    simp [added, or_comm]
  have hdisp := h.disp.addMonitorAddressPair hchain
  rw [← hadded] at hdisp
  have hbytes := h.readBytes
  have htime := h.receiptTime
  have harrivals : (ops ++ [DispatcherOp.addMonitorAddressPair p]).filterMap
      DispatcherOp.arrival = ops.filterMap DispatcherOp.arrival := by
    rw [List.filterMap_append]
    exact List.append_nil _
  rw [← harrivals] at hbytes htime
  have hold : ∀ t ∈ d.traces, t.addrPair ∈ added (ops ++ [.addMonitorAddressPair p]) ∧
      t.arrivals = told t.addrPair (ops ++ [.addMonitorAddressPair p]) := by
    intro t ht
    obtain ⟨hmem, htold⟩ := h.own t ht
    refine ⟨hadded ▸ Or.inr hmem, ?_⟩
    rw [told_append_of_added hmem, htold]
    exact (List.append_nil _).symm
  unfold Ns3QuicServerTraceDispatcher.addMonitorAddressPair at hdisp ⊢
  split at hdisp
  · rename_i e he
    exact ⟨hdisp, h.names, hold, hbytes, htime⟩
  · rename_i hnone
    have hnew : p ∉ added ops := by
      intro hp
      obtain ⟨id, _, hfind, _⟩ := h.disp.find_eq (hchain.mono (Set.subset_insert _ _)) hp
      rw [hnone] at hfind
      simp at hfind
    refine ⟨hdisp, ?_, ?_, hbytes, htime⟩
    · rw [List.map_append, List.map_singleton]
      refine List.nodup_append'.2 ⟨h.names, List.nodup_singleton _, ?_⟩
      intro q hq hqp
      obtain rfl := List.mem_singleton.1 hqp
      obtain ⟨t, ht, rfl⟩ := List.mem_map.1 hq
      exact hnew (h.own t ht).1
    · intro t ht
      rcases List.mem_append.1 ht with ht | ht
      · exact hold t ht
      · obtain rfl := List.mem_singleton.1 ht
        exact ⟨hadded ▸ Or.inl rfl, (told_concat_of_new hnew).symm⟩

theorem onOwd_counts (d : Ns3QuicServerTraceDispatcher) (p : Ns3QuicAddressPair) (a : Arrival) :
    (d.onOwd p a).readBytes = d.readBytes + a.len ∧ (d.onOwd p a).receiptTime = a.now := by
  unfold Ns3QuicServerTraceDispatcher.onOwd
  dsimp only
  split <;> exact ⟨rfl, rfl⟩

theorem onOwd_found {id : Nat} (h : d.traceDb.find lt p = some (q, id)) (a : Arrival) :
    (d.onOwd p a).traces =
      d.traces.modify id fun t => { t with arrivals := t.arrivals ++ [a] } := by
  unfold Ns3QuicServerTraceDispatcher.onOwd
  dsimp only
  rw [h]
  rfl

theorem onOwd_unmonitored (h : d.traceDb.find lt p = none) (a : Arrival) :
    (d.onOwd p a).traces = d.traces := by
  unfold Ns3QuicServerTraceDispatcher.onOwd
  dsimp only
  rw [h]

/-- An arrival is told to the trace of its flow, if there is one. -/
theorem FlowInv.traces_onOwd (h : FlowInv d ops)
    (hchain : IsChain (· ≤ ·) (insert p (added ops))) (a : Arrival) :
    (d.onOwd p a).traces = d.traces.map fun t =>
      if t.addrPair = p then { t with arrivals := t.arrivals ++ [a] } else t := by
  by_cases hp : p ∈ added ops
  · obtain ⟨id, t, hfind, ht, hname⟩ :=
      h.disp.find_eq (hchain.mono (Set.subset_insert _ _)) hp
    rw [onOwd_found hfind]
    refine List.ext_getElem? fun j => ?_
    rw [List.getElem?_modify, List.getElem?_map]
    cases hj : d.traces[j]? with
    | none => rfl
    | some u =>
      -- the trace of the key is the only one with its name
      have hiff : id = j ↔ u.addrPair = p := by
        constructor
        · intro hid
          rw [← hid, ht] at hj
          rw [← Option.some.inj hj, hname]
        · intro hu
          obtain ⟨hlt, hget⟩ := List.getElem?_eq_some_iff.1 ht
          obtain ⟨hlt', hget'⟩ := List.getElem?_eq_some_iff.1 hj
          have hltMap : id < (d.traces.map OpenTrace.addrPair).length := by simpa using hlt
          have hltMap' : j < (d.traces.map OpenTrace.addrPair).length := by simpa using hlt'
          refine (@List.Nodup.getElem_inj_iff _ _ h.names id hltMap j hltMap').1 ?_
          rw [List.getElem_map, List.getElem_map, hget, hget', hname, hu]
      simp only [hiff, Option.map_some, Option.map_eq_map]
  · rw [onOwd_unmonitored (h.find_eq_none hchain hp)]
    have hother : ∀ t ∈ d.traces,
        (if t.addrPair = p then { t with arrivals := t.arrivals ++ [a] } else t) = t :=
      fun t ht => if_neg fun heq : t.addrPair = p => hp (heq ▸ (h.own t ht).1)
    rw [List.map_congr_left hother, List.map_id']

theorem FlowInv.onOwd (h : FlowInv d ops) (hchain : IsChain (· ≤ ·) (insert p (added ops)))
    (a : Arrival) : FlowInv (d.onOwd p a) (ops ++ [.onOwd p a]) := by
  have hadded : added (ops ++ [.onOwd p a]) = added ops := by
    ext q
    simp [added]
  have htraces := h.traces_onOwd hchain a
  obtain ⟨hbytes, htime⟩ := onOwd_counts d p a
  have harrivals : (ops ++ [DispatcherOp.onOwd p a]).filterMap DispatcherOp.arrival =
      ops.filterMap DispatcherOp.arrival ++ [a] := List.filterMap_append
  refine ⟨hadded ▸ h.disp.onOwd p a, ?_, ?_, ?_, ?_⟩
  · have hnames : (d.onOwd p a).traces.map OpenTrace.addrPair =
        d.traces.map OpenTrace.addrPair := by
      rw [htraces, List.map_map]
      refine List.map_congr_left fun t _ => ?_
      dsimp only [Function.comp]
      split <;> rfl
    rw [hnames]
    exact h.names
  · intro t ht
    rw [htraces] at ht
    obtain ⟨u, hu, rfl⟩ := List.mem_map.1 ht
    obtain ⟨hmem, htold⟩ := h.own u hu
    rw [hadded]
    split
    · rename_i hname
      refine ⟨hmem, ?_⟩
      have hown : (DispatcherOp.onOwd p a).arrivalOf u.addrPair = some a := if_pos hname.symm
      rw [told_append_of_added hmem, ← htold, List.filterMap_cons_some hown]
      rfl
    · rename_i hname
      refine ⟨hmem, ?_⟩
      have hother : (DispatcherOp.onOwd p a).arrivalOf u.addrPair = none := if_neg (Ne.symm hname)
      rw [told_append_of_added hmem, ← htold, List.filterMap_cons_none hother]
      exact (List.append_nil _).symm
  · rw [hbytes, harrivals, List.map_append, List.sum_append, ← h.readBytes]
    exact (congrArg (d.readBytes + ·) (List.sum_singleton)).symm
  · rw [htime, harrivals, List.getLast?_concat]
    rfl

/-- A sequence of calls that look up keys in order. -/
theorem flowInv_run (hchain : IsChain (· ≤ ·) (keysOf ops)) :
    FlowInv (dispatcherRun ops) ops := by
  induction ops using List.reverseRecOn with
  | nil => exact flowInv_empty
  | append_singleton ops op ih =>
    have h := ih (hchain.mono (keysOf_mono ops op))
    have hinsert : ∀ p, p ∈ keysOf (ops ++ [op]) → IsChain (· ≤ ·) (insert p (added ops)) := by
      intro p hp
      refine hchain.mono (Set.insert_subset hp ?_)
      exact (added_subset_keysOf ops).trans (keysOf_mono ops op)
    rw [dispatcherRun, List.foldl_concat]
    cases op with
    | addMonitorAddressPair p =>
      exact h.add (hinsert p ⟨_, List.mem_append_right _ (List.mem_singleton_self _), Or.inl rfl⟩)
    | onOwd p a =>
      exact h.onOwd
        (hinsert p ⟨_, List.mem_append_right _ (List.mem_singleton_self _), Or.inr ⟨a, rfl⟩⟩) a

/-! ## `Shutdown` -/

/-- `Ns3QuicServerTraceDispatcher::Shutdown`: the traces that it deletes, as their
destructors leave them.  The flags are those of `LogEnable`. -/
def Ns3QuicServerTraceDispatcher.shutdown (interval : Int) (e : UInt8)
    (d : Ns3QuicServerTraceDispatcher) :
    List (Ns3QuicAddressPair × Ns3QuicServerTrace) × Ns3QuicServerTraceDispatcher :=
  (d.traceDb.drain.filterMap fun it =>
    d.traces[it.2]?.map fun t => (it.1, (t.state interval e).destroy interval),
    { d with traceDb := .leaf })

/-- The trace of an entry of the map. -/
theorem FlowInv.trace_of_entry (h : FlowInv d ops) {it : Ns3QuicAddressPair × Nat}
    (hit : it ∈ d.traceDb.toList) : d.traces[it.2]? = some ⟨it.1, told it.1 ops⟩ := by
  obtain ⟨t, ht, hname⟩ := h.disp.own it hit
  obtain ⟨_, htold⟩ := h.own t (List.mem_of_getElem? ht)
  rw [ht, ← hname, ← htold]

theorem FlowInv.shutdown_eq (h : FlowInv d ops) (interval : Int) (e : UInt8) :
    (d.shutdown interval e).1 = d.traceDb.keys.map fun p =>
      (p, (Ns3QuicServerTrace.after interval e (told p ops)).destroy interval) := by
  unfold Ns3QuicServerTraceDispatcher.shutdown Tree.keys
  rw [Tree.drain_eq, List.map_map, ← List.filterMap_eq_map]
  refine List.filterMap_congr fun it hit => ?_
  rw [h.trace_of_entry hit]
  rfl

/-! ## Whole runs -/

/-- After any sequence of calls that look up keys in order: each flow that was added has
one trace, which was told of the arrivals of this flow since then, in order, and of no
others.  The dispatcher itself has counted the bytes of all arrivals. -/
theorem flows_kept_apart (ops : List DispatcherOp) (hchain : IsChain (· ≤ ·) (keysOf ops)) :
    (∀ p ∈ added ops, ∃ id, (dispatcherRun ops).traceDb.find lt p = some (p, id) ∧
      (dispatcherRun ops).traces[id]? = some ⟨p, told p ops⟩) ∧
    ((dispatcherRun ops).traces.map OpenTrace.addrPair).Nodup ∧
    (∀ t ∈ (dispatcherRun ops).traces, t.addrPair ∈ added ops) ∧
    (dispatcherRun ops).readBytes = ((ops.filterMap DispatcherOp.arrival).map Arrival.len).sum ∧
    (dispatcherRun ops).receiptTime =
      ((ops.filterMap DispatcherOp.arrival).getLast?.map Arrival.now).getD 0 := by
  have h := flowInv_run hchain
  refine ⟨?_, h.names, fun t ht => (h.own t ht).1, h.readBytes, h.receiptTime⟩
  intro p hp
  obtain ⟨id, t, hfind, ht, hname⟩ := h.disp.find_eq (hchain.mono (added_subset_keysOf ops)) hp
  obtain ⟨_, htold⟩ := h.own t (List.mem_of_getElem? ht)
  refine ⟨id, hfind, ?_⟩
  rw [ht, ← hname, ← htold]

/-- Two flows of one server, whose arrivals come in turns. -/
def twoFlows : List DispatcherOp :=
  [.addMonitorAddressPair ⟨1, 9, 49153, 5000⟩, .addMonitorAddressPair ⟨2, 9, 49153, 5000⟩,
    .onOwd ⟨2, 9, 49153, 5000⟩ ⟨1000, 1, 30, 100⟩, .onOwd ⟨1, 9, 49153, 5000⟩ ⟨2000, 1, 20, 200⟩,
    .onOwd ⟨2, 9, 49153, 5000⟩ ⟨3000, 2, 30, 300⟩]

theorem twoFlows_isChain : IsChain (· ≤ ·) (keysOf twoFlows) := by
  have hkeys : keysOf twoFlows ⊆ {⟨1, 9, 49153, 5000⟩, ⟨2, 9, 49153, 5000⟩} := by
    intro p hp
    obtain ⟨op, hop, heq⟩ := hp
    simp only [twoFlows, List.mem_cons, List.not_mem_nil, or_false] at hop
    rcases hop with rfl | rfl | rfl | rfl | rfl <;> simp at heq <;> simp [← heq]
  exact (IsChain.pair (le_iff.2 (by decide))).mono hkeys

theorem flows_kept_apart_twoFlows :
    (∀ p ∈ added twoFlows, ∃ id, (dispatcherRun twoFlows).traceDb.find lt p = some (p, id) ∧
      (dispatcherRun twoFlows).traces[id]? = some ⟨p, told p twoFlows⟩) ∧
    told ⟨2, 9, 49153, 5000⟩ twoFlows = [⟨1000, 1, 30, 100⟩, ⟨3000, 2, 30, 300⟩] :=
  ⟨(flows_kept_apart twoFlows twoFlows_isChain).1, rfl⟩

/-- `Shutdown` closes the files of every flow that was added, in the order of the keys,
with the lines that the arrivals of this flow give.  A second one closes none. -/
theorem shutdown_closes_all (interval : Int) (e : UInt8) (ops : List DispatcherOp)
    (hchain : IsChain (· ≤ ·) (keysOf ops)) :
    ∃ keys : List Ns3QuicAddressPair,
      keys.Pairwise (· < ·) ∧ (∀ p, p ∈ keys ↔ p ∈ added ops) ∧
      ((dispatcherRun ops).shutdown interval e).1 = keys.map (fun p =>
        (p, (Ns3QuicServerTrace.after interval e (told p ops)).destroy interval)) ∧
      (((dispatcherRun ops).shutdown interval e).2.shutdown interval e).1 = [] := by
  have h := flowInv_run hchain
  have hadded := hchain.mono (added_subset_keysOf ops)
  refine ⟨(dispatcherRun ops).traceDb.keys, ?_, h.disp.keys, h.shutdown_eq interval e, ?_⟩
  · rw [Tree.keys, List.pairwise_map]
    refine List.Pairwise.imp_of_mem ?_ h.disp.ordered
    intro x y hx hy hlt
    have hkey := fun z hz => (h.disp.keys z).1 hz
    exact (lt_iff_of_isChain hadded (hkey _ (Tree.mem_keys_of_mem hx))
      (hkey _ (Tree.mem_keys_of_mem hy))).1 hlt
  · have hempty : ((dispatcherRun ops).shutdown interval e).2.traceDb.drain = [] :=
      Tree.drain_eq .leaf
    rw [Ns3QuicServerTraceDispatcher.shutdown, hempty]
    rfl

theorem shutdown_closes_all_twoFlows :
    ∃ keys : List Ns3QuicAddressPair,
      keys.Pairwise (· < ·) ∧ (∀ p, p ∈ keys ↔ p ∈ added twoFlows) ∧
      ((dispatcherRun twoFlows).shutdown 0 E_QS_LOST).1 = keys.map (fun p =>
        (p, (Ns3QuicServerTrace.after 0 E_QS_LOST (told p twoFlows)).destroy 0)) ∧
      (((dispatcherRun twoFlows).shutdown 0 E_QS_LOST).2.shutdown 0 E_QS_LOST).1 = [] :=
  shutdown_closes_all 0 E_QS_LOST twoFlows twoFlows_isChain

end QuicOnNs3.Trace
