import Mathlib.Data.Nat.Basic
import Mathlib.Order.Basic
import Mathlib.Order.Preorder.Chain
import QuicOnNs3.Lib.SearchTree

/-!
# Address pairs and the traces of the flows

The server keeps one trace a monitored flow in `m_traceDb`, a `std::map` keyed by
the flow's `Ns3QuicAddressPair`.  `operator<` of the key is the disjunction of the
four comparisons of the fields, so `a < b` says no more than that `a` is not
above `b` in every field (`lt_iff`).  It is a strict weak ordering exactly on the
sets of keys that are chains of the fieldwise order (`strictWeakOrdering_iff`),
and on such sets the map is a map (`DispatcherInv`).
-/

namespace QuicOnNs3.Trace

open QuicOnNs3.SearchTree

/-! ## The key -/

/-- The addresses and ports of a flow. -/
structure Ns3QuicAddressPair where
  clientIp : UInt32
  serverIp : UInt32
  clientPort : UInt16
  serverPort : UInt16
  deriving DecidableEq, Repr

namespace Ns3QuicAddressPair

/-- `Ns3QuicAddressPair::operator<`. -/
def lt (p o : Ns3QuicAddressPair) : Bool :=
  p.clientIp < o.clientIp || p.serverIp < o.serverIp ||
    p.clientPort < o.clientPort || p.serverPort < o.serverPort

/-- The values of the fields of a key. -/
def fields (p : Ns3QuicAddressPair) : Nat × Nat × Nat × Nat :=
  (p.clientIp.toNat, p.serverIp.toNat, p.clientPort.toNat, p.serverPort.toNat)

theorem fields_injective : Function.Injective fields := by
  rintro ⟨ci, si, cp, sp⟩ ⟨ci', si', cp', sp'⟩ h
  simpa [fields, UInt32.toNat_inj, UInt16.toNat_inj] using h

/-- The fieldwise order of the keys. -/
instance : PartialOrder Ns3QuicAddressPair := PartialOrder.lift fields fields_injective

theorem le_iff {p o : Ns3QuicAddressPair} :
    p ≤ o ↔ p.clientIp.toNat ≤ o.clientIp.toNat ∧ p.serverIp.toNat ≤ o.serverIp.toNat ∧
      p.clientPort.toNat ≤ o.clientPort.toNat ∧ p.serverPort.toNat ≤ o.serverPort.toNat :=
  Iff.rfl

/-- One key is below another unless it is above it in every field. -/
theorem lt_iff {p o : Ns3QuicAddressPair} : lt p o = true ↔ ¬ o ≤ p := by
  simp only [lt, Bool.or_eq_true, decide_eq_true_eq, le_iff, not_and_or, not_le, or_assoc,
    UInt32.lt_iff_toNat_lt, UInt16.lt_iff_toNat_lt]

/-- What `std::map` asks of the comparison of its keys, on the keys `S`: it is
irreflexive, asymmetric and transitive, and only equal keys are equivalent. -/
def StrictWeakOrdering (S : Set Ns3QuicAddressPair) : Prop :=
  (∀ a ∈ S, ¬ lt a a) ∧
    (∀ a ∈ S, ∀ b ∈ S, lt a b → ¬ lt b a) ∧
    (∀ a ∈ S, ∀ b ∈ S, ∀ c ∈ S, lt a b → lt b c → lt a c) ∧
    ∀ a ∈ S, ∀ b ∈ S, (¬ lt a b ∧ ¬ lt b a) ↔ a = b

/-- On a chain, the comparison is the strict fieldwise order. -/
theorem lt_iff_of_isChain {S : Set Ns3QuicAddressPair} (h : IsChain (· ≤ ·) S)
    {a b : Ns3QuicAddressPair} (ha : a ∈ S) (hb : b ∈ S) : lt a b = true ↔ a < b := by
  rw [lt_iff]
  constructor
  · intro hnot
    exact lt_of_le_not_ge ((h.total ha hb).resolve_right hnot) hnot
  · exact not_le_of_gt

theorem totalOn_of_isChain {S : Set Ns3QuicAddressPair} (h : IsChain (· ≤ ·) S) :
    Tree.TotalOn lt S where
  irrefl := by
    intro a ha
    rw [← Bool.not_eq_true, lt_iff_of_isChain h ha ha]
    exact lt_irrefl a
  trans := by
    intro a ha b hb c hc hab hbc
    rw [lt_iff_of_isChain h ha hb] at hab
    rw [lt_iff_of_isChain h hb hc] at hbc
    rw [lt_iff_of_isChain h ha hc]
    exact hab.trans hbc
  total := by
    intro a ha b hb
    rw [lt_iff_of_isChain h ha hb, lt_iff_of_isChain h hb ha]
    rcases h.total ha hb with hle | hle
    · exact hle.lt_or_eq.imp_right Or.inl
    · rcases hle.lt_or_eq with hlt | rfl
      · exact Or.inr (Or.inr hlt)
      · exact Or.inr (Or.inl rfl)

/-- The keys that `operator<` orders are the chains of the fieldwise order. -/
theorem strictWeakOrdering_iff (S : Set Ns3QuicAddressPair) :
    StrictWeakOrdering S ↔ IsChain (· ≤ ·) S := by
  constructor
  · rintro ⟨-, hasymm, -, -⟩ a ha b hb -
    by_contra hnot
    rw [not_or] at hnot
    exact hasymm a ha b hb (lt_iff.2 hnot.2) (lt_iff.2 hnot.1)
  · intro h
    have htot := totalOn_of_isChain h
    refine ⟨fun a ha => by simp [htot.irrefl a ha], fun a ha b hb hab => ?_, htot.trans,
      fun a ha b hb => ⟨?_, ?_⟩⟩
    · simp [htot.asymm ha hb hab]
    · rintro ⟨hab, hba⟩
      rcases htot.total a ha b hb with hlt | heq | hlt
      · exact absurd hlt hab
      · exact heq
      · exact absurd hlt hba
    · rintro rfl
      simp [htot.irrefl a ha]

end Ns3QuicAddressPair

/-! ## The dispatcher -/

/-- The arguments of one call of `OnOwd`, and its time. -/
structure Arrival where
  now : Nat
  seq : Int
  owd : Int
  len : Int
  deriving DecidableEq, Repr

/-- An open `Ns3QuicServerTrace`: the key that its files are named after and the
calls of its `OnOwd`. -/
structure OpenTrace where
  addrPair : Ns3QuicAddressPair
  arrivals : List Arrival := []
  deriving DecidableEq, Repr

/-- `m_traceDb` maps a key to a trace, by its index in `traces`. -/
structure Ns3QuicServerTraceDispatcher where
  traceDb : Tree Ns3QuicAddressPair Nat := .leaf
  traces : List OpenTrace := []
  readBytes : Int := 0
  firstPacketTime : Nat := 0
  receiptTime : Nat := 0

namespace Ns3QuicServerTraceDispatcher

open Ns3QuicAddressPair (lt)

/-- `Ns3QuicServerTraceDispatcher::AddMonitorAddressPair`. -/
def addMonitorAddressPair (d : Ns3QuicServerTraceDispatcher) (addrPair : Ns3QuicAddressPair) :
    Bool × Ns3QuicServerTraceDispatcher :=
  match d.traceDb.find lt addrPair with
  | some _ => (false, d)
  | none =>
    (true, { d with
      traces := d.traces ++ [{ addrPair := addrPair }]
      traceDb := (d.traceDb.insertUnique lt addrPair d.traces.length).getD d.traceDb })

/-- The trace with the index `id` is told of an arrival. -/
def tell (d : Ns3QuicServerTraceDispatcher) (id : Nat) (a : Arrival) :
    Ns3QuicServerTraceDispatcher :=
  { d with traces := d.traces.modify id fun t => { t with arrivals := t.arrivals ++ [a] } }

/-- `Ns3QuicServerTraceDispatcher::OnOwd`. -/
def onOwd (d : Ns3QuicServerTraceDispatcher) (addrPair : Ns3QuicAddressPair) (a : Arrival) :
    Ns3QuicServerTraceDispatcher :=
  let d := { d with
    readBytes := d.readBytes + a.len
    firstPacketTime := if d.firstPacketTime = 0 then a.now else d.firstPacketTime
    receiptTime := a.now }
  match d.traceDb.find lt addrPair with
  | some (_, id) => d.tell id a
  | none => d

end Ns3QuicServerTraceDispatcher

open Ns3QuicServerTraceDispatcher Ns3QuicAddressPair

/-- One call on the dispatcher. -/
inductive DispatcherOp where
  | addMonitorAddressPair (addrPair : Ns3QuicAddressPair)
  | onOwd (addrPair : Ns3QuicAddressPair) (a : Arrival)
  deriving DecidableEq, Repr

/-- The dispatcher after one call. -/
def dispatcherStep (d : Ns3QuicServerTraceDispatcher) : DispatcherOp → Ns3QuicServerTraceDispatcher
  | .addMonitorAddressPair addrPair => (d.addMonitorAddressPair addrPair).2
  | .onOwd addrPair a => d.onOwd addrPair a

/-- The dispatcher after a sequence of calls on a new one. -/
def dispatcherRun (ops : List DispatcherOp) : Ns3QuicServerTraceDispatcher :=
  ops.foldl dispatcherStep {}

/-- The keys that a sequence of calls adds. -/
def added (ops : List DispatcherOp) : Set Ns3QuicAddressPair :=
  {p | DispatcherOp.addMonitorAddressPair p ∈ ops}

/-- The map holds the keys of `A`, in order, each with a trace of its own. -/
structure DispatcherInv (d : Ns3QuicServerTraceDispatcher) (A : Set Ns3QuicAddressPair) :
    Prop where
  ordered : d.traceDb.Ordered lt
  keys : ∀ p, p ∈ d.traceDb.keys ↔ p ∈ A
  own : ∀ e ∈ d.traceDb.toList, ∃ t, d.traces[e.2]? = some t ∧ t.addrPair = e.1

theorem dispatcherInv_empty : DispatcherInv {} ∅ where
  ordered := List.Pairwise.nil
  keys := by simp [Tree.keys, Tree.toList]
  own := by simp [Tree.toList]

variable {d : Ns3QuicServerTraceDispatcher} {A : Set Ns3QuicAddressPair}

/-- An added key is found with its own trace. -/
theorem DispatcherInv.find_eq (h : DispatcherInv d A) (hA : IsChain (· ≤ ·) A)
    {p : Ns3QuicAddressPair} (hp : p ∈ A) :
    ∃ id t, d.traceDb.find lt p = some (p, id) ∧ d.traces[id]? = some t ∧ t.addrPair = p := by
  have hS : d.traceDb.KeysIn A := fun x hx => (h.keys x).1 hx
  obtain ⟨e, he, rfl⟩ := List.mem_map.1 ((h.keys p).2 hp)
  obtain ⟨t, ht, hown⟩ := h.own e he
  exact ⟨e.2, t, (Tree.find_iff (totalOn_of_isChain hA) h.ordered hS hp).2 ⟨he, rfl⟩, ht, hown⟩

/-- A key is inserted when it is new, and otherwise nothing changes. -/
theorem DispatcherInv.addMonitorAddressPair (h : DispatcherInv d A) {p : Ns3QuicAddressPair}
    (hA : IsChain (· ≤ ·) (insert p A)) :
    DispatcherInv (d.addMonitorAddressPair p).2 (insert p A) := by
  have htot := totalOn_of_isChain hA
  have hS : d.traceDb.KeysIn (insert p A) := fun x hx => Or.inr ((h.keys x).1 hx)
  have hp : p ∈ insert p A := Or.inl rfl
  unfold Ns3QuicServerTraceDispatcher.addMonitorAddressPair
  split
  · rename_i e he
    obtain ⟨hmem, hkey⟩ := (Tree.find_iff htot h.ordered hS hp).1 he
    have hpA : p ∈ A := (h.keys p).1 (hkey ▸ Tree.mem_keys_of_mem hmem)
    rw [Set.insert_eq_of_mem hpA]
    exact h
  · rename_i hnone
    have hnew : p ∉ d.traceDb.keys := by
      intro hmem
      obtain ⟨e, he, hkey⟩ := List.mem_map.1 hmem
      have hfind := (Tree.find_iff htot h.ordered hS hp).2 ⟨he, hkey⟩
      simp [hnone] at hfind
    obtain ⟨t', ht', hperm, hord⟩ := Tree.insertUnique_spec htot h.ordered hS hp hnew
      d.traces.length
    refine ⟨by simpa [ht'] using hord, ?_, ?_⟩
    · intro q
      have hq := (hperm.map Prod.fst).mem_iff (a := q)
      simp only [ht', Option.getD_some, Tree.keys, List.map_cons, List.mem_cons,
        Set.mem_insert_iff] at hq ⊢
      rw [hq, ← h.keys q, Tree.keys]
    · intro e he
      simp only [ht', Option.getD_some] at he
      rcases List.mem_cons.1 (hperm.mem_iff.1 he) with rfl | he
      · exact ⟨{ addrPair := p }, by simp, rfl⟩
      · obtain ⟨t, ht, hown⟩ := h.own e he
        have hlt : e.2 < d.traces.length := (List.getElem?_eq_some_iff.1 ht).1
        exact ⟨t, by rw [List.getElem?_append_left hlt, ht], hown⟩

/-- An arrival changes no key and no trace's name. -/
theorem DispatcherInv.onOwd (h : DispatcherInv d A) (p : Ns3QuicAddressPair) (a : Arrival) :
    DispatcherInv (d.onOwd p a) A := by
  unfold Ns3QuicServerTraceDispatcher.onOwd
  simp only
  split
  · rename_i e id he
    refine ⟨h.ordered, h.keys, ?_⟩
    intro e' he'
    obtain ⟨t, ht, hown⟩ := h.own e' he'
    simp only [Ns3QuicServerTraceDispatcher.tell, List.getElem?_modify, ht]
    split
    · exact ⟨_, rfl, hown⟩
    · exact ⟨t, rfl, hown⟩
  · exact ⟨h.ordered, h.keys, h.own⟩

theorem added_cons (op : DispatcherOp) (ops : List DispatcherOp) :
    added (op :: ops) = added [op] ∪ added ops := by
  ext p
  simp [added]

theorem DispatcherInv.run (h : DispatcherInv d A) (ops : List DispatcherOp)
    (hA : IsChain (· ≤ ·) (A ∪ added ops)) :
    DispatcherInv (ops.foldl dispatcherStep d) (A ∪ added ops) := by
  induction ops generalizing d A with
  | nil => simpa [added] using h
  | cons op ops ih =>
    rw [added_cons, ← Set.union_assoc] at hA ⊢
    refine ih ?_ hA
    have hsub := hA.mono Set.subset_union_left
    cases op with
    | addMonitorAddressPair p =>
      have hone : A ∪ added [.addMonitorAddressPair p] = insert p A := by
        ext q
        simp [added, or_comm]
      rw [hone] at hsub ⊢
      exact h.addMonitorAddressPair hsub
    | onOwd p a =>
      have hnone : A ∪ added [.onOwd p a] = A := by
        ext q
        simp [added]
      rw [hnone]
      exact h.onOwd p a

/-- `operator<` is a strict weak ordering of a set of keys exactly when the set is
a chain of the fieldwise order.  A sequence of calls whose keys are a chain
inserts each distinct key once, and an arrival for an added key is told to that
key's own trace. -/
theorem monitored_keys_iff_isChain (S : Set Ns3QuicAddressPair) (ops : List DispatcherOp) :
    (StrictWeakOrdering S ↔ IsChain (· ≤ ·) S) ∧
      (IsChain (· ≤ ·) (added ops) →
        (dispatcherRun ops).traceDb.keys.Nodup ∧
          (∀ p, p ∈ (dispatcherRun ops).traceDb.keys ↔ p ∈ added ops) ∧
          ∀ p ∈ added ops, ∃ id t,
            (dispatcherRun ops).traceDb.find lt p = some (p, id) ∧ t.addrPair = p ∧
            (dispatcherRun ops).traces[id]? = some t ∧
            ∀ a, ((dispatcherRun ops).onOwd p a).traces[id]? =
              some { t with arrivals := t.arrivals ++ [a] }) := by
  refine ⟨strictWeakOrdering_iff S, fun hchain => ?_⟩
  have h : DispatcherInv (dispatcherRun ops) (added ops) := by
    have hrun := dispatcherInv_empty.run ops (by simpa using hchain)
    rwa [Set.empty_union] at hrun
  refine ⟨h.ordered.keys_nodup (totalOn_of_isChain hchain) fun x hx => (h.keys x).1 hx, h.keys,
    fun p hp => ?_⟩
  obtain ⟨id, t, hfind, ht, hown⟩ := h.find_eq hchain hp
  refine ⟨id, t, hfind, hown, ht, fun a => ?_⟩
  simp only [Ns3QuicServerTraceDispatcher.onOwd, hfind,
    Ns3QuicServerTraceDispatcher.tell, List.getElem?_modify, ht]
  simp

/-- Two flows to one server, of which the client with the larger address has the
smaller port: each is below the other, and an arrival of the second flow finds
no trace. -/
theorem crossing_keys_not_ordered :
    ¬ StrictWeakOrdering Set.univ ∧
      (dispatcherRun [.addMonitorAddressPair ⟨0x0A010101, 0x0A020101, 49154, 5000⟩,
        .addMonitorAddressPair ⟨0x0A010201, 0x0A020101, 49153, 5000⟩]).traceDb.find lt
          ⟨0x0A010201, 0x0A020101, 49153, 5000⟩ = none := by
  constructor
  · rintro ⟨-, hasymm, -, -⟩
    exact hasymm ⟨0x0A010101, 0x0A020101, 49154, 5000⟩ trivial
      ⟨0x0A010201, 0x0A020101, 49153, 5000⟩ trivial (by decide) (by decide)
  · decide

end QuicOnNs3.Trace
