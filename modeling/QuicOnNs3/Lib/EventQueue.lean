import Mathlib.Data.List.Basic
import Mathlib.Tactic.Common

/-!
# A discrete-event simulator

The clock, and the events that are scheduled and not yet executed.  An event
that was cancelled, or whose execution has begun, is not pending, and an
`EventId` runs exactly when its event is pending.

A component that holds one `EventId` and cancels it before it schedules
again has at most one pending event.  `Sole` is that invariant:
`Sole.pending_cancel` and `pending_schedule` are the two steps that keep it.
-/

namespace QuicOnNs3.EventQueue

/-- A scheduled event: its identity and the time of its execution. -/
structure Event where
  uid : Nat
  ts : Nat
  deriving DecidableEq, Repr

/-- A handle on an event.  A handle built without an event designates none. -/
abbrev EventId := Option Nat

/-- The clock of the simulation and its pending events. -/
structure Simulator where
  now : Nat
  pending : List Event := []
  nextUid : Nat := 0
  deriving DecidableEq, Repr

namespace Simulator

/-- `EventId::IsRunning`: the event is pending. -/
def isRunning (sim : Simulator) (id : EventId) : Bool :=
  sim.pending.any fun ev => id = some ev.uid

/-- `EventId::Cancel`: the event will not be executed. -/
def cancel (sim : Simulator) (id : EventId) : Simulator :=
  { sim with pending := sim.pending.filter fun ev => id ≠ some ev.uid }

/-- `Simulator::Schedule`: a fresh event after `delay`. -/
def schedule (sim : Simulator) (delay : Nat) : EventId × Simulator :=
  (some sim.nextUid,
    { sim with
      pending := sim.pending ++ [⟨sim.nextUid, sim.now + delay⟩]
      nextUid := sim.nextUid + 1 })

/-- The simulator takes an event off its queue to execute it. -/
def execute (sim : Simulator) (ev : Event) : Simulator :=
  { sim with now := ev.ts, pending := sim.pending.erase ev }

/-- The clock may move to `t`: not backwards, and past no pending event. -/
def canAdvance (sim : Simulator) (t : Nat) : Bool :=
  sim.now ≤ t && sim.pending.all fun ev => t ≤ ev.ts

theorem isRunning_iff {sim : Simulator} {id : EventId} :
    sim.isRunning id = true ↔ ∃ ev ∈ sim.pending, id = some ev.uid := by
  simp [isRunning]

theorem canAdvance_iff {sim : Simulator} {t : Nat} :
    sim.canAdvance t = true ↔ sim.now ≤ t ∧ ∀ ev ∈ sim.pending, t ≤ ev.ts := by
  simp [canAdvance]

/-! ## One handle, one pending event -/

/-- The only event that can be pending is the one `id` designates. -/
def Sole (sim : Simulator) (id : EventId) : Prop :=
  sim.pending = [] ∨ ∃ ev, sim.pending = [ev] ∧ id = some ev.uid

theorem Sole.not_running_iff {sim : Simulator} {id : EventId} (h : sim.Sole id) :
    sim.isRunning id = false ↔ sim.pending = [] := by
  rw [← Bool.not_eq_true, isRunning_iff]
  rcases h with h | ⟨ev, h, hid⟩
  · simp [h]
  · simp [h, hid]

theorem Sole.running_iff {sim : Simulator} {id : EventId} (h : sim.Sole id) :
    sim.isRunning id = true ↔ ∃ ev, sim.pending = [ev] ∧ id = some ev.uid := by
  rw [isRunning_iff]
  rcases h with h | ⟨ev, h, hid⟩
  · simp [h]
  · simp [h, hid]

/-- A handle that is cancelled when it runs leaves nothing pending. -/
theorem Sole.pending_cancel {sim : Simulator} {id : EventId} (h : sim.Sole id) :
    (if sim.isRunning id then sim.cancel id else sim).pending = [] := by
  split
  · rename_i hrun
    obtain ⟨ev, hev, hid⟩ := h.running_iff.1 hrun
    simp [cancel, hev, hid]
  · rename_i hrun
    exact h.not_running_iff.1 (by simpa using hrun)

/-- Scheduling on an empty queue leaves the new event as the only one. -/
theorem pending_schedule {sim : Simulator} (h : sim.pending = []) (delay : Nat) :
    (sim.schedule delay).2.pending = [⟨sim.nextUid, sim.now + delay⟩] := by
  simp [schedule, h]

/-- Executing the only pending event leaves none. -/
theorem Sole.pending_execute {sim : Simulator} {id : EventId} (h : sim.Sole id) {ev : Event}
    (hev : ev ∈ sim.pending) : (sim.execute ev).pending = [] := by
  rcases h with h | ⟨ev', h, _⟩
  · simp [h] at hev
  · obtain rfl : ev = ev' := by simpa [h] using hev
    simp [execute, h]

end Simulator

end QuicOnNs3.EventQueue
